import Conformance.Fault

/-!
# Texts

A text is a finite sequence of codepoints. Its length, its positions and its order count
codepoints; the order is lexicographic, so a text comes after each of its proper beginnings.
-/

namespace Conformance

/-- A finite sequence of codepoints. -/
@[ext] structure Text where
  /-- The codepoints, first to last. -/
  chars : List Char
  deriving DecidableEq, Inhabited, Repr

namespace Text

/-- The empty text. -/
def empty : Text := ⟨[]⟩

/-- The codepoints of a string. -/
def ofString (s : String) : Text := ⟨s.toList⟩

/-- The string of the same codepoints. -/
def toString (t : Text) : String := String.ofList t.chars

instance : ToString Text := ⟨toString⟩

@[simp] theorem ofString_toString (t : Text) : ofString t.toString = t := by
  simp [ofString, toString]

@[simp] theorem toString_ofString (s : String) : (ofString s).toString = s := by
  simp [ofString, toString]

/-- The text of one codepoint. -/
def singleton (c : Char) : Text := ⟨[c]⟩

/-- The number of codepoints. -/
def length (t : Text) : Nat := t.chars.length

/-- Whether a text has no codepoint. -/
def isEmpty (t : Text) : Bool := t.chars.isEmpty

/-- The codepoints of one text, then those of another. An empty text gives the other one as it
is. -/
def concat (a b : Text) : Text :=
  if b.isEmpty then a else if a.isEmpty then b else ⟨a.chars ++ b.chars⟩

instance : Append Text := ⟨concat⟩

/-- The two ways out for empty texts make no difference. -/
@[simp] theorem chars_append (a b : Text) : (a ++ b).chars = a.chars ++ b.chars := by
  change (concat a b).chars = _
  unfold concat
  split
  case isTrue hb => rw [List.isEmpty_iff.1 hb, List.append_nil]
  case isFalse =>
    split
    case isTrue ha => rw [List.isEmpty_iff.1 ha, List.nil_append]
    case isFalse => rfl

@[simp] theorem length_append (a b : Text) : (a ++ b).length = a.length + b.length := by
  simp [length]

theorem append_assoc (a b c : Text) : a ++ b ++ c = a ++ (b ++ c) :=
  Text.ext (by simp only [chars_append, List.append_assoc])

@[simp] theorem append_empty (t : Text) : t ++ empty = t := rfl

@[simp] theorem empty_append (t : Text) : empty ++ t = t := Text.ext (chars_append empty t)

theorem mk_cons (c : Char) (s : List Char) : (⟨c :: s⟩ : Text) = singleton c ++ ⟨s⟩ :=
  Text.ext (chars_append (singleton c) ⟨s⟩).symm

/-- The codepoint at an index. A negative index counts from the end. -/
def index (t : Text) (i : Int) : Except Fault Text :=
  let position := if i < 0 then i + t.length else i
  if position < 0 then .error (.indexOutOfRange i t.length)
  else match t.chars[position.toNat]? with
    | some c => .ok (singleton c)
    | none => .error (.indexOutOfRange i t.length)

/-- The largest length that a repetition may have. -/
def maxLength : Nat := 268435456

/-- A count, if a machine word holds it. -/
def machineWord? (n : Nat) : Option Nat := if n < UInt64.size then some n else none

/-- A text repeated. No times and fewer than no times both give the empty text. The length is
computed in machine words: a count or a product that does not fit is too large. -/
def replicate (t : Text) (times : Int) : Except Fault Text :=
  if times ≤ 0 ∨ t.chars = [] then .ok empty
  else
    let tooLarge := Fault.repeatTooLarge t.length times
    match machineWord? times.toNat with
    | none => .error tooLarge
    | some count =>
      match machineWord? (t.length * count) with
      | none => .error tooLarge
      | some total =>
        if total ≤ maxLength then .ok ⟨(List.replicate count t.chars).flatten⟩
        else .error tooLarge

/-- The lexicographic order of two sequences of codepoints. -/
def compareChars : List Char → List Char → Ordering
  | [], [] => .eq
  | [], _ :: _ => .lt
  | _ :: _, [] => .gt
  | a :: as, b :: bs =>
    if a.toNat < b.toNat then .lt else if b.toNat < a.toNat then .gt else compareChars as bs

/-- The lexicographic order of two texts. -/
def compare (a b : Text) : Ordering := compareChars a.chars b.chars

/-- Whether a text begins with another. -/
def startsWith (t lead : Text) : Bool := lead.chars.isPrefixOf t.chars

/-- Whether a text ends with another. -/
def endsWith (t tail : Text) : Bool := tail.chars.isSuffixOf t.chars

end Text

end Conformance
