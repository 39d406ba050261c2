import Conformance.Text.Basic

/-!
# Searching, splitting and replacing

All matching is literal. The basic search cuts a text at the first occurrence of a needle;
splitting, counting and replacing repeat the cut on what follows the occurrence, so the
occurrences they treat never overlap.
-/

namespace Conformance

/-- The codepoints before the first occurrence of a needle, and those after it. -/
def cut? (needle : List Char) : List Char → Option (List Char × List Char)
  | [] => if needle.isEmpty then some ([], []) else none
  | c :: rest =>
    if needle.isPrefixOf (c :: rest) then some ([], (c :: rest).drop needle.length)
    else (cut? needle rest).map fun parts => (c :: parts.1, parts.2)

/-- A cut loses nothing but the needle. -/
theorem append_of_cut? {needle s before after : List Char}
    (h : cut? needle s = some (before, after)) : s = before ++ needle ++ after := by
  induction s generalizing before with
  | nil =>
    cases needle with
    | nil => simp_all [cut?]
    | cons => simp [cut?] at h
  | cons c rest ih =>
    unfold cut? at h
    split at h
    next hp =>
      obtain ⟨tail, ht⟩ := List.isPrefixOf_iff_prefix.1 hp
      obtain ⟨rfl, rfl⟩ := Prod.mk.inj (Option.some.inj h)
      rw [← ht]
      simp
    next =>
      obtain ⟨parts, hparts, heq⟩ := Option.map_eq_some_iff.1 h
      obtain ⟨rfl, rfl⟩ := Prod.mk.inj heq
      rw [List.cons_append, List.cons_append, ← ih hparts]

theorem length_after_cut? {needle s before after : List Char} (hn : needle ≠ [])
    (h : cut? needle s = some (before, after)) : after.length < s.length := by
  have hpos := List.length_pos_iff.2 hn
  have hlen := congrArg List.length (append_of_cut? h)
  simp only [List.length_append] at hlen
  omega

/-- The stretches of codepoints between the occurrences of a needle. -/
def pieces (needle : List Char) (hn : needle ≠ []) (s : List Char) : List (List Char) :=
  match _h : cut? needle s with
  | none => [s]
  | some (before, after) => before :: pieces needle hn after
termination_by s.length
decreasing_by exact length_after_cut? hn (by assumption)

/-- The number of occurrences of a needle that a scan meets. -/
def occurrences (needle : List Char) (hn : needle ≠ []) (s : List Char) : Nat :=
  match _h : cut? needle s with
  | none => 0
  | some (_, after) => occurrences needle hn after + 1
termination_by s.length
decreasing_by exact length_after_cut? hn (by assumption)

/-- The codepoints with a replacement in the place of each occurrence of a needle. -/
def substitute (needle : List Char) (hn : needle ≠ []) (new s : List Char) : List Char :=
  match _h : cut? needle s with
  | none => s
  | some (before, after) => before ++ new ++ substitute needle hn new after
termination_by s.length
decreasing_by exact length_after_cut? hn (by assumption)

namespace Text

/-- The first position, from the given one on, at which a needle occurs. -/
def findFrom (t needle : Text) (start : Nat) : Option Nat :=
  if t.length < start then none
  else (cut? needle.chars (t.chars.drop start)).map fun parts => start + parts.1.length

/-- The first position at which a needle occurs. -/
def find? (t needle : Text) : Option Nat := t.findFrom needle 0

/-- The first position at which a needle occurs, and -1 when there is none. -/
def find (t needle : Text) : Int :=
  match t.find? needle with
  | some position => position
  | none => -1

/-- Whether a needle occurs in a text. -/
def contains (t needle : Text) : Bool := (t.find? needle).isSome

/-- The fragments of a text between the occurrences of a separator. Fragments may be empty. -/
def split (t sep : Text) : Except Fault (List Text) :=
  if h : sep.chars = [] then .error .emptySeparator
  else .ok ((pieces sep.chars h t.chars).map mk)

/-- The number of occurrences of a needle that do not overlap. The empty needle occurs before
each codepoint and at the end. -/
def count (t needle : Text) : Nat :=
  if h : needle.chars = [] then t.length + 1 else occurrences needle.chars h t.chars

/-- A text with each occurrence of `old` replaced. An empty `old` puts the replacement before
each codepoint and at the end. -/
def replace (t old new : Text) : Text :=
  if h : old.chars = [] then ⟨new.chars ++ t.chars.flatMap fun c => c :: new.chars⟩
  else ⟨substitute old.chars h new.chars t.chars⟩

/-- A buffer with one more text in it. A separator comes before each text but the first. -/
def put (sep : Text) (buffer : Array Char) : Text × Nat → Array Char
  | (t, position) => (if 0 < position then buffer ++ sep.chars else buffer) ++ t.chars

/-- Texts one after the other, with a separator between neighbours. A buffer is needed for two
texts and more. -/
def intercalate (sep : Text) : List Text → Text
  | [] => empty
  | [t] => t
  | t :: u :: rest => ⟨((t :: u :: rest).zipIdx.foldl sep.put #[]).toList⟩

end Text

end Conformance
