import Mathlib.Tactic.Linarith
import Mathlib.Tactic.Ring
import Conformance.Proofs.Text.Split

/-!
# Splitting, counting and replacing meet the same occurrences

The three scans are separate recursions over the same cut. The fragments of a split are one more
than the occurrences that are counted, and joining them with a new text is the replacement. At each
occurrence a replacement trades the length of the old text for that of the new one. The empty
needle has no fragments, but its count and its replacements keep the law of the lengths.
-/

namespace Conformance

section Scans

variable {needle : List Char} (hn : needle ≠ []) {s before after : List Char}

theorem occurrences_of_cut?_none (h : cut? needle s = none) : occurrences needle hn s = 0 := by
  unfold occurrences
  split
  next => rfl
  next h' => simp [h] at h'

theorem occurrences_of_cut?_some (h : cut? needle s = some (before, after)) :
    occurrences needle hn s = occurrences needle hn after + 1 := by
  conv_lhs => unfold occurrences
  split
  next h' => simp [h] at h'
  next h' =>
    obtain ⟨rfl, rfl⟩ := Prod.mk.inj (Option.some.inj (h.symm.trans h'))
    rfl

theorem substitute_of_cut?_none (new : List Char) (h : cut? needle s = none) :
    substitute needle hn new s = s := by
  unfold substitute
  split
  next => rfl
  next h' => simp [h] at h'

theorem substitute_of_cut?_some (new : List Char) (h : cut? needle s = some (before, after)) :
    substitute needle hn new s = before ++ new ++ substitute needle hn new after := by
  conv_lhs => unfold substitute
  split
  next h' => simp [h] at h'
  next h' =>
    obtain ⟨rfl, rfl⟩ := Prod.mk.inj (Option.some.inj (h.symm.trans h'))
    rfl

/-- There is one fragment more than there are occurrences. -/
theorem length_pieces (s : List Char) :
    (pieces needle hn s).length = occurrences needle hn s + 1 := by
  induction s using pieces.induct needle hn with
  | case1 s hc =>
      rw [pieces_of_cut?_none hn hc, occurrences_of_cut?_none hn hc]
      rfl
  | case2 s before after hc ih =>
      rw [pieces_of_cut?_some hn hc, occurrences_of_cut?_some hn hc, List.length_cons, ih]

/-- Each occurrence trades the length of the needle for that of the replacement. -/
theorem length_substitute (new s : List Char) :
    (substitute needle hn new s).length + occurrences needle hn s * needle.length =
      s.length + occurrences needle hn s * new.length := by
  induction s using pieces.induct needle hn with
  | case1 s hc =>
      rw [substitute_of_cut?_none hn new hc, occurrences_of_cut?_none hn hc]
      simp
  | case2 s before after hc ih =>
      have hs : s.length = before.length + needle.length + after.length := by
        rw [append_of_cut? hc, List.length_append, List.length_append]
      rw [substitute_of_cut?_some hn new hc, occurrences_of_cut?_some hn hc, List.length_append,
        List.length_append]
      calc
        before.length + new.length + (substitute needle hn new after).length +
              (occurrences needle hn after + 1) * needle.length
            = before.length + new.length + needle.length +
              ((substitute needle hn new after).length +
                occurrences needle hn after * needle.length) := by ring
        _ = before.length + new.length + needle.length +
              (after.length + occurrences needle hn after * new.length) := by rw [ih]
        _ = s.length + (occurrences needle hn after + 1) * new.length := by
          rw [hs]
          ring

theorem occurrences_eq_zero_iff : occurrences needle hn s = 0 ↔ cut? needle s = none := by
  cases hc : cut? needle s with
  | none => simp [occurrences_of_cut?_none hn hc]
  | some parts => simp [occurrences_of_cut?_some hn hc]

end Scans

namespace Text

variable {old : Text}

/-- The pieces of a text, with a new text between them, are its replacement. -/
theorem intercalate_pieces_eq_substitute (hold : old.chars ≠ []) (new : Text) (s : List Char) :
    intercalate new ((pieces old.chars hold s).map mk) =
      ⟨substitute old.chars hold new.chars s⟩ := by
  induction s using pieces.induct old.chars hold with
  | case1 s hc =>
      rw [pieces_of_cut?_none hold hc, substitute_of_cut?_none hold new.chars hc]
      rfl
  | case2 s before after hc ih =>
      have hne : (pieces old.chars hold after).map mk ≠ [] := by
        simp [pieces_ne_nil hold after]
      rw [pieces_of_cut?_some hold hc, List.map_cons, intercalate_cons new _ hne, ih,
        substitute_of_cut?_some hold new.chars hc]
      apply Text.ext
      simp only [chars_append]

theorem replace_of_ne_empty (hold : old.chars ≠ []) (t new : Text) :
    t.replace old new = ⟨substitute old.chars hold new.chars t.chars⟩ := dif_neg hold

theorem count_of_ne_empty (hold : old.chars ≠ []) (t : Text) :
    t.count old = occurrences old.chars hold t.chars := dif_neg hold

theorem replace_self (hold : old.chars ≠ []) (t : Text) : t.replace old old = t :=
  calc
    t.replace old old = ⟨substitute old.chars hold old.chars t.chars⟩ :=
      replace_of_ne_empty hold t old
    _ = intercalate old ((pieces old.chars hold t.chars).map mk) :=
      (intercalate_pieces_eq_substitute hold old t.chars).symm
    _ = t := intercalate_pieces hold t.chars

/-- The law of the lengths, for the empty needle as for all others. -/
theorem length_replace (t old new : Text) :
    (t.replace old new).length + t.count old * old.length =
      t.length + t.count old * new.length := by
  by_cases hold : old.chars = []
  · -- The new text stands before each codepoint and once more at the end.
    have hreplace : (t.replace old new).length =
        new.length + t.length * (new.length + 1) := by
      rw [replace, dif_pos hold]
      simp [length, List.length_flatMap]
    have hzero : old.length = 0 := by simp [length, hold]
    rw [hreplace, hzero, count, dif_pos hold]
    ring
  · rw [replace_of_ne_empty hold, count_of_ne_empty hold]
    exact length_substitute hold new.chars t.chars

/-- Nothing is counted exactly when the needle occurs nowhere. -/
theorem count_eq_zero_iff {t : Text} : t.count old = 0 ↔ ¬ ∃ p, t.OccursAt old p := by
  by_cases hold : old.chars = []
  · have hbegin : ∃ p, t.OccursAt old p := ⟨0, Nat.zero_le _, by simp [hold]⟩
    rw [count, dif_pos hold]
    exact iff_of_false (Nat.succ_ne_zero _) (not_not_intro hbegin)
  · rw [count_of_ne_empty hold, occurrences_eq_zero_iff, cut?_eq_none_iff]
    simp only [OccursAt, length, not_exists, not_and]

theorem replace_of_count_eq_zero {t : Text} (new : Text) (h : t.count old = 0) :
    t.replace old new = t := by
  by_cases hold : old.chars = []
  · rw [count, dif_pos hold] at h
    exact absurd h (Nat.succ_ne_zero _)
  · rw [count_of_ne_empty hold, occurrences_eq_zero_iff] at h
    rw [replace_of_ne_empty hold, substitute_of_cut?_none hold new.chars h]

/-- For a needle that is not empty, a replacement is the join of the fragments by the new text,
the count is one less than the number of fragments, and replacing the needle by itself changes
nothing. For every needle, each occurrence counted adds the difference of the two lengths, none is
counted exactly when the needle occurs nowhere, and then the text is its own replacement. -/
theorem replace_joins_fragments (t old new : Text) :
    (old ≠ empty → ∃ fragments, t.split old = .ok fragments ∧
      joinItems new (fragments.map .str) = .ok (t.replace old new) ∧
      fragments.length = t.count old + 1 ∧
      t.replace old old = t) ∧
    ((t.replace old new).length : ℤ) =
      t.length + t.count old * ((new.length : ℤ) - old.length) ∧
    (t.count old = 0 ↔ ¬ ∃ p, t.OccursAt old p) ∧
    (t.count old = 0 → t.replace old new = t) := by
  refine ⟨fun hne => ?_, ?_, count_eq_zero_iff, replace_of_count_eq_zero new⟩
  · have hold : old.chars ≠ [] := fun h => hne (Text.ext h)
    refine ⟨(pieces old.chars hold t.chars).map mk, dif_neg hold, ?_, ?_, replace_self hold t⟩
    · rw [joinItems_map_str, intercalate_pieces_eq_substitute hold, replace_of_ne_empty hold]
    · rw [List.length_map, length_pieces hold, count_of_ne_empty hold]
  · have hlength := congrArg (Nat.cast : ℕ → ℤ) (length_replace t old new)
    push_cast at hlength
    linarith

/-- The needle overlaps itself and the new text contains it; a second needle does not occur. -/
theorem replace_joins_fragments_overlap :
    let t := ofString "aaaab"
    let old := ofString "aa"
    let new := ofString "<aaa>"
    (old ≠ empty ∧ ∃ fragments, t.split old = .ok fragments ∧
      joinItems new (fragments.map .str) = .ok (t.replace old new) ∧
      fragments.length = t.count old + 1) ∧
    (t.count (ofString "ba") = 0 ∧ t.replace (ofString "ba") new = t) := by
  intro t old new
  have hne : old ≠ empty := by decide
  obtain ⟨fragments, hsplit, hjoin, hcount, -⟩ := (replace_joins_fragments t old new).1 hne
  have habsent : t.count (ofString "ba") = 0 := by
    rw [count_of_ne_empty (by decide), occurrences_of_cut?_none _ (by decide)]
  exact ⟨⟨hne, fragments, hsplit, hjoin, hcount⟩, habsent,
    (replace_joins_fragments t (ofString "ba") new).2.2.2 habsent⟩

end Text

end Conformance
