import Conformance.Assignment.Target
import Conformance.Proofs.Text.Stripping

/-!
# White space in written patterns

Trimming takes the white space off both ends of a text and leaves what begins and ends without it.
No white space, no comma and no star can stand in an identifier, so an identifier is found again
between whatever white space it was written.
-/

namespace Conformance

/-- A text of white space only. -/
def AllBlank (s : List Char) : Prop := ∀ c ∈ s, Unicode.isBlank c = true

instance : DecidablePred AllBlank :=
  List.decidableBAll fun c => Unicode.isBlank c = true

/-- One text is another one between white space. -/
def Pads (inner outer : List Char) : Prop :=
  ∃ before after, AllBlank before ∧ AllBlank after ∧ outer = before ++ inner ++ after

/-- A text that neither begins nor ends with white space. -/
structure IsTight (s : List Char) : Prop where
  head : ∀ c ∈ s.head?, Unicode.isBlank c = false
  last : ∀ c ∈ s.getLast?, Unicode.isBlank c = false

variable {s t before after : List Char}

theorem AllBlank.append (hs : AllBlank s) (ht : AllBlank t) : AllBlank (s ++ t) :=
  List.forall_mem_append.2 ⟨hs, ht⟩

theorem trim_eq_rdropWhile (s : List Char) :
    trim s = (s.dropWhile Unicode.isBlank).rdropWhile Unicode.isBlank := rfl

theorem rdropWhile_append_of_allBlank (s : List Char) (hafter : AllBlank after) :
    (s ++ after).rdropWhile Unicode.isBlank = s.rdropWhile Unicode.isBlank := by
  rw [List.rdropWhile, List.reverse_append, List.dropWhile_append_of_pos, List.rdropWhile]
  exact fun c hc => hafter c (List.mem_reverse.1 hc)

/-- White space at the ends does not matter to trimming. -/
theorem trim_append (hbefore : AllBlank before) (s : List Char) (hafter : AllBlank after) :
    trim (before ++ s ++ after) = trim s := by
  rw [trim_eq_rdropWhile, trim_eq_rdropWhile, List.append_assoc,
    List.dropWhile_append_of_pos hbefore, List.dropWhile_append]
  split
  case isTrue hs =>
    rw [List.isEmpty_iff] at hs
    rw [hs, List.dropWhile_eq_nil_iff.2 hafter]
  case isFalse hs => exact rdropWhile_append_of_allBlank _ hafter

theorem Pads.trim_eq (h : Pads t s) : trim s = trim t := by
  obtain ⟨before, after, hbefore, hafter, rfl⟩ := h
  exact trim_append hbefore t hafter

theorem Pads.subset (h : Pads t s) {c : Char} (hc : c ∈ t) : c ∈ s := by
  obtain ⟨before, after, -, -, rfl⟩ := h
  exact List.mem_append_left _ (List.mem_append_right _ hc)

theorem Pads.isBlank_or_mem (h : Pads t s) {c : Char} (hc : c ∈ s) :
    Unicode.isBlank c = true ∨ c ∈ t := by
  obtain ⟨before, after, hbefore, hafter, rfl⟩ := h
  obtain (hc | hc) | hc := (List.mem_append.1 hc).imp_left List.mem_append.1
  · exact .inl (hbefore c hc)
  · exact .inr hc
  · exact .inl (hafter c hc)

theorem IsTight.trim_eq (h : IsTight s) : trim s = s := by
  have hfirst : s.dropWhile Unicode.isBlank = s := by
    rw [List.dropWhile_eq_self_iff]
    intro hlt
    rw [h.head s[0] (by simp [List.head?_eq_getElem?, hlt])]
    exact Bool.false_ne_true
  rw [trim_eq_rdropWhile, hfirst, List.rdropWhile_eq_self_iff]
  intro hne
  rw [h.last _ (List.getLast?_eq_some_getLast hne)]
  exact Bool.false_ne_true

/-- A text is what is left of it by trimming, between white space. -/
theorem pads_trim (s : List Char) : Pads (trim s) s := by
  refine ⟨s.takeWhile Unicode.isBlank, (s.dropWhile Unicode.isBlank).rtakeWhile Unicode.isBlank,
    fun c => List.mem_takeWhile_imp, fun c => List.mem_rtakeWhile_imp, ?_⟩
  rw [List.append_assoc, trim_eq_rdropWhile, List.rdropWhile_append_rtakeWhile,
    List.takeWhile_append_dropWhile]

theorem isTight_trim (s : List Char) : IsTight (trim s) where
  head _ hc := eq_false_of_mem_head? hc
  last _ hc := eq_false_of_mem_getLast? hc

/-- Trimming is the only way to write a text as a tight one between white space. -/
theorem trim_eq_iff : trim s = t ↔ Pads t s ∧ IsTight t := by
  constructor
  · rintro rfl
    exact ⟨pads_trim s, isTight_trim s⟩
  · rintro ⟨hpads, htight⟩
    rw [hpads.trim_eq, htight.trim_eq]

/-! ## What stands in no identifier -/

/-- A character that no identifier has. -/
structure IsForeign (c : Char) : Prop where
  ne_underscore : c ≠ '_'
  not_alphabetic : Unicode.isAlphabetic c = false
  not_numeric : Unicode.isNumeric c = false

/-- No range of the one list meets a range of the other. -/
def areApart (xs ys : List Unicode.CodeRange) : Bool :=
  xs.all fun x => ys.all fun y => x.2 < y.1 || y.2 < x.1

theorem covered_eq_false_of_areApart {xs ys : List Unicode.CodeRange} (h : areApart xs ys = true)
    {c : Char} (hc : Unicode.covered xs c = true) : Unicode.covered ys c = false := by
  rw [Bool.eq_false_iff, ne_eq, Unicode.covered_iff]
  rintro ⟨y, hy, hle, hge⟩
  obtain ⟨x, hx, hle', hge'⟩ := (Unicode.covered_iff xs c).1 hc
  have hout := List.all_eq_true.1 (List.all_eq_true.1 h x hx) y hy
  simp only [Bool.or_eq_true, decide_eq_true_eq] at hout
  omega

/-- White space as ranges of codepoints. -/
def blankRanges : List Unicode.CodeRange :=
  [(0x09, 0x0D), (0x20, 0x20), (0x85, 0x85), (0xA0, 0xA0), (0x1680, 0x1680), (0x2000, 0x200A),
    (0x2028, 0x2029), (0x202F, 0x202F), (0x205F, 0x205F), (0x3000, 0x3000)]

theorem covered_blankRanges {c : Char} (hc : Unicode.isBlank c = true) :
    Unicode.covered blankRanges c = true := by
  simp only [Unicode.isBlank, Bool.or_eq_true, Bool.and_eq_true, decide_eq_true_eq,
    beq_iff_eq] at hc
  simp only [Unicode.covered, blankRanges, List.any_cons, List.any_nil, Bool.or_eq_true,
    Bool.and_eq_true, decide_eq_true_eq]
  omega

theorem isForeign_of_isBlank {c : Char} (hc : Unicode.isBlank c = true) : IsForeign c where
  ne_underscore := by
    rintro rfl
    exact absurd hc (by decide)
  not_alphabetic := covered_eq_false_of_areApart (by decide +kernel) (covered_blankRanges hc)
  not_numeric := covered_eq_false_of_areApart (by decide +kernel) (covered_blankRanges hc)

theorem isForeign_comma : IsForeign ',' := ⟨by decide, by decide +kernel, by decide +kernel⟩

theorem isForeign_star : IsForeign '*' := ⟨by decide, by decide +kernel, by decide +kernel⟩

theorem not_mem_of_isIdentifier {name : List Char} (hname : isIdentifier name = true) {c : Char}
    (hc : IsForeign c) : c ∉ name := by
  cases name with
  | nil => exact List.not_mem_nil
  | cons first rest =>
      obtain ⟨hne, halphabetic, hnumeric⟩ := hc
      simp only [isIdentifier, Bool.and_eq_true, Bool.or_eq_true, beq_iff_eq,
        List.all_eq_true] at hname
      rintro (_ | ⟨_, hmem⟩)
      · simp [hne, halphabetic] at hname
      · simpa [hne, halphabetic, hnumeric] using hname.2 c hmem

theorem ne_nil_of_isIdentifier {name : List Char} (hname : isIdentifier name = true) :
    name ≠ [] := by
  rintro rfl
  cases hname

/-- No white space is anywhere in an identifier, so none is at its ends. -/
theorem isTight_of_isIdentifier {name : List Char} (hname : isIdentifier name = true) :
    IsTight name := by
  have hfree : ∀ c ∈ name, Unicode.isBlank c = false := fun c hc =>
    Bool.eq_false_iff.2 fun hblank =>
      not_mem_of_isIdentifier hname (isForeign_of_isBlank hblank) hc
  exact ⟨fun c hc => hfree c (List.mem_of_mem_head? hc),
    fun c hc => hfree c (List.mem_of_mem_getLast? hc)⟩

end Conformance
