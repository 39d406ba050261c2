import Conformance.Proofs.Text.Split
import Conformance.Proofs.Text.Stripping

/-!
# Words of a text

A codepoint of white space cuts a text in two, and the words are those of the two parts: no word
goes across the cut, and none is lost at it. A text without white space is itself a word unless it
is empty. Every text is made by such cuts, so all that is said of the words follows from these two
equations.
-/

namespace Conformance

namespace Text

/-- A text that is not empty and has no white space in it. -/
structure IsWord (w : Text) : Prop where
  ne_empty : w ≠ empty
  not_blank : ∀ c ∈ w.chars, Unicode.isBlank c = false

variable {p q w sep : Text} {c : Char}

/-! ## The two equations -/

theorem words_of_not_blank (h : ∀ c ∈ w.chars, Unicode.isBlank c = false) :
    w.words = if w = empty then [] else [w] := by
  rw [words, List.splitOnP_eq_singleton h]
  split
  case isTrue hw =>
    rw [hw]
    rfl
  case isFalse hw =>
    have hne : w.chars ≠ [] := fun hnil => hw (Text.ext hnil)
    rw [List.filter_cons_of_pos (by simpa using hne)]
    rfl

/-- White space cuts a text into two, and its words. -/
theorem words_append (hc : Unicode.isBlank c = true) (a b : Text) :
    (a ++ singleton c ++ b).words = a.words ++ b.words := by
  have hcut : (a ++ singleton c ++ b).chars = a.chars ++ c :: b.chars := by
    rw [append_assoc, chars_append, ← mk_cons]
  rw [words, hcut, List.splitOnP_append_cons _ _ hc, List.filter_append, List.map_append]
  rfl

/-- Every text is made by cuts: it has no white space, or it is cut at its first white space. -/
theorem cut_induction {motive : Text → Prop}
    (free : ∀ t, (∀ c ∈ t.chars, Unicode.isBlank c = false) → motive t)
    (cut : ∀ a c b, (∀ c ∈ a.chars, Unicode.isBlank c = false) → Unicode.isBlank c = true →
      motive b → motive (a ++ singleton c ++ b)) (t : Text) : motive t := by
  -- The word that the scan is in, so far, and what is still to be scanned.
  suffices scan : ∀ (s : List Char) (a : Text), (∀ c ∈ a.chars, Unicode.isBlank c = false) →
      motive (a ++ ⟨s⟩) from empty_append t ▸ scan t.chars empty nofun
  intro s
  induction s with
  | nil =>
      intro a ha
      have hfree := free a ha
      rwa [← append_empty a] at hfree
  | cons c s ih =>
      intro a ha
      have hnext : a ++ ⟨c :: s⟩ = a ++ singleton c ++ ⟨s⟩ := by
        rw [append_assoc, ← mk_cons]
      rw [hnext]
      by_cases hc : Unicode.isBlank c = true
      · have hrest := ih empty nofun
        rw [empty_append] at hrest
        exact cut a c ⟨s⟩ ha hc hrest
      · refine ih (a ++ singleton c) ?_
        rw [chars_append]
        refine List.forall_mem_append.2 ⟨ha, ?_⟩
        exact List.forall_mem_singleton.2 (Bool.not_eq_true _ ▸ hc)

/-! ## What the words are -/

theorem isWord_of_mem_words (t : Text) : ∀ w ∈ t.words, IsWord w := by
  induction t using cut_induction with
  | free t ht =>
      rw [words_of_not_blank ht]
      split
      case isTrue => exact nofun
      case isFalse hne => exact List.forall_mem_singleton.2 ⟨hne, ht⟩
  | cut a c b ha hc ih =>
      rw [words_append hc, words_of_not_blank ha]
      split
      case isTrue => exact ih
      case isFalse hne => exact List.forall_mem_cons.2 ⟨⟨hne, ha⟩, ih⟩

/-- The words one after the other are the text without its white space. -/
theorem flatMap_words (t : Text) :
    t.words.flatMap chars = t.chars.filter (!Unicode.isBlank ·) := by
  have hfree : ∀ t : Text, (∀ c ∈ t.chars, Unicode.isBlank c = false) →
      t.words.flatMap chars = t.chars.filter (!Unicode.isBlank ·) := by
    intro t ht
    rw [words_of_not_blank ht, List.filter_eq_self.2 fun c hc => by rw [ht c hc]; rfl]
    split
    case isTrue hempty =>
      rw [hempty]
      rfl
    case isFalse => exact List.flatMap_singleton ..
  induction t using cut_induction with
  | free t ht => exact hfree t ht
  | cut a c b ha hc ih =>
      rw [words_append hc, List.flatMap_append, hfree a ha, ih, chars_append, chars_append,
        List.filter_append, List.filter_append]
      simp [singleton, hc]

/-! ## White space at the ends and between words -/

/-- White space before a text belongs to no word. -/
theorem words_blank_append (hp : p.codepoints ⊆ members none) (b : Text) :
    (p ++ b).words = b.words := by
  obtain ⟨s⟩ := p
  induction s with
  | nil => exact congrArg words (empty_append b)
  | cons c s ih =>
      have hc : Unicode.isBlank c = true := hp (List.mem_cons_self ..)
      have hs : (Text.mk s).codepoints ⊆ members none := fun d hd => hp (List.mem_cons_of_mem c hd)
      calc
        (⟨c :: s⟩ ++ b : Text).words = (empty ++ singleton c ++ (⟨s⟩ ++ b)).words := by
          rw [mk_cons, append_assoc, empty_append]
        _ = empty.words ++ (⟨s⟩ ++ b : Text).words := words_append hc _ _
        _ = b.words := ih hs

/-- White space of any length cuts a text in two. -/
theorem words_append_append (hsep : sep ≠ empty) (hblank : sep.codepoints ⊆ members none)
    (a b : Text) : (a ++ sep ++ b).words = a.words ++ b.words := by
  obtain ⟨_ | ⟨c, s⟩⟩ := sep
  · exact absurd rfl hsep
  · have hc : Unicode.isBlank c = true := hblank (List.mem_cons_self ..)
    have hs : (Text.mk s).codepoints ⊆ members none :=
      fun d hd => hblank (List.mem_cons_of_mem c hd)
    calc
      (a ++ ⟨c :: s⟩ ++ b).words = (a ++ singleton c ++ (⟨s⟩ ++ b)).words := by
        rw [mk_cons, append_assoc, append_assoc, append_assoc]
      _ = a.words ++ (⟨s⟩ ++ b : Text).words := words_append hc _ _
      _ = a.words ++ b.words := by rw [words_blank_append hs]

/-- White space after a text belongs to no word. -/
theorem words_append_blank (a : Text) (hq : q.codepoints ⊆ members none) :
    (a ++ q).words = a.words := by
  by_cases hempty : q = empty
  · rw [hempty, append_empty]
  · calc
      (a ++ q).words = (a ++ q ++ empty).words := by rw [append_empty]
      _ = a.words ++ empty.words := words_append_append hempty hq a empty
      _ = a.words := List.append_nil _

theorem words_strip (t : Text) : (t.strip none).words = t.words := by
  obtain ⟨p, q, ht, hp, hq⟩ := exists_runs none t
  calc
    (t.strip none).words = (t.strip none ++ q).words := (words_append_blank _ hq).symm
    _ = (p ++ (t.strip none ++ q)).words := (words_blank_append hp _).symm
    _ = t.words := by rw [← append_assoc, ← ht]

theorem words_intercalate (hsep : sep ≠ empty) (hblank : sep.codepoints ⊆ members none)
    {ws : List Text} (hws : ∀ w ∈ ws, IsWord w) : (intercalate sep ws).words = ws := by
  induction ws with
  | nil => rfl
  | cons w rest ih =>
      obtain ⟨hw, hrest⟩ := List.forall_mem_cons.1 hws
      have hword : w.words = [w] := by rw [words_of_not_blank hw.not_blank, if_neg hw.ne_empty]
      by_cases hnil : rest = []
      · rw [hnil]
        exact hword
      · rw [intercalate_cons sep w hnil, words_append_append hsep hblank, hword, ih hrest]
        rfl

/-- The words of a text are not empty and have no white space, and one after the other they are the
text without its white space. A codepoint of white space cuts a text into two texts and their words.
Words joined with white space that is not empty are the words of the result, and the white space at
the ends of a text does not matter. -/
theorem words_join_inverse (t : Text) :
    (∀ w ∈ t.words, IsWord w) ∧
    t.words.flatMap chars = t.chars.filter (!Unicode.isBlank ·) ∧
    (∀ (u : Text) (c : Char), Unicode.isBlank c = true →
      (t ++ singleton c ++ u).words = t.words ++ u.words) ∧
    (∀ (sep : Text) (ws : List Text), sep ≠ empty → sep.codepoints ⊆ members none →
      (∀ w ∈ ws, IsWord w) →
        ∃ joined, joinItems sep (ws.map .str) = .ok joined ∧ joined.words = ws) ∧
    (t.strip none).words = t.words := by
  refine ⟨isWord_of_mem_words t, flatMap_words t, fun u c hc => words_append hc t u, ?_,
    words_strip t⟩
  intro sep ws hsep hblank hws
  exact ⟨intercalate sep ws, joinItems_map_str sep ws, words_intercalate hsep hblank hws⟩

/-- White space at the ends and at the cut, and two words joined with two codepoints. -/
theorem words_join_inverse_tabs :
    let t := ofString "  a b"
    let sep := ofString "\t\n"
    let ws := [ofString "ab", ofString "c"]
    (ofString "b" ∈ t.words ∧ IsWord (ofString "b")) ∧
    (Unicode.isBlank ' ' = true ∧
      (t ++ singleton ' ' ++ ofString " c ").words = t.words ++ (ofString " c ").words) ∧
    (sep ≠ empty ∧ sep.codepoints ⊆ members none ∧ (∀ w ∈ ws, IsWord w) ∧
      ∃ joined, joinItems sep (ws.map .str) = .ok joined ∧ joined.words = ws) := by
  intro t sep ws
  obtain ⟨hwords, -, hcut, hjoin, -⟩ := words_join_inverse t
  have hmem : ofString "b" ∈ t.words := by decide
  have hsep : sep ≠ empty := by decide
  have hblank : sep.codepoints ⊆ members none := by
    have hchars : ∀ c ∈ ['\t', '\n'], Unicode.isBlank c = true := by simp [Unicode.isBlank]
    exact hchars
  have hws : ∀ w ∈ ws, IsWord w := by
    have hab : ∀ c ∈ ['a', 'b'], Unicode.isBlank c = false := by simp [Unicode.isBlank]
    have hc : ∀ c ∈ ['c'], Unicode.isBlank c = false := by simp [Unicode.isBlank]
    exact List.forall_mem_cons.2 ⟨⟨by decide, hab⟩, List.forall_mem_singleton.2 ⟨by decide, hc⟩⟩
  exact ⟨⟨hmem, hwords _ hmem⟩, ⟨by decide, hcut _ ' ' (by decide)⟩, hsep, hblank, hws,
    hjoin sep ws hsep hblank hws⟩

end Text

end Conformance
