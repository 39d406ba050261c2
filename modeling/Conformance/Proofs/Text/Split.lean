import Conformance.Call.Join
import Conformance.Proofs.Text.Occurrence

/-!
# Splitting and joining

Joining the fragments of a split gives the text back. The other way round, a split gives back the
fragments of a join exactly when the scan, which always takes the first occurrence, ends each
fragment where the fragment ends. That no fragment contains the separator is not enough: a
separator that overlaps itself may begin inside a fragment and end in the separator after it.
-/

namespace Conformance

section Pieces

variable {needle : List Char} (hn : needle ≠ []) {s before after : List Char}

theorem pieces_of_cut?_none (h : cut? needle s = none) : pieces needle hn s = [s] := by
  unfold pieces
  split
  next => rfl
  next h' => simp [h] at h'

theorem pieces_of_cut?_some (h : cut? needle s = some (before, after)) :
    pieces needle hn s = before :: pieces needle hn after := by
  conv_lhs => unfold pieces
  split
  next h' => simp [h] at h'
  next h' =>
    obtain ⟨rfl, rfl⟩ := Prod.mk.inj (Option.some.inj (h.symm.trans h'))
    rfl

theorem pieces_ne_nil (s : List Char) : pieces needle hn s ≠ [] := by
  cases h : cut? needle s with
  | none => simp [pieces_of_cut?_none hn h]
  | some parts => simp [pieces_of_cut?_some hn h]

/-- A single piece is left exactly when the needle begins nowhere. -/
theorem pieces_eq_singleton_iff :
    pieces needle hn s = [s] ↔ ∀ q ≤ s.length, ¬ needle <+: s.drop q := by
  rw [← cut?_eq_none_iff]
  constructor
  · intro h
    cases hc : cut? needle s with
    | none => rfl
    | some parts =>
        rw [pieces_of_cut?_some hn hc] at h
        exact absurd (List.cons.inj h).2 (pieces_ne_nil hn parts.2)
  · exact pieces_of_cut?_none hn

/-- The first piece of `f`, the needle and a rest is `f` exactly when the needle begins at no
position of `f`. Then the pieces of the rest follow. -/
theorem pieces_append_eq_cons_iff {f rest : List Char} {ps : List (List Char)} :
    pieces needle hn (f ++ needle ++ rest) = f :: ps ↔
      (∀ q < f.length, ¬ needle <+: (f ++ needle).drop q) ∧ pieces needle hn rest = ps := by
  have hlocal : ∀ q < f.length,
      needle <+: (f ++ needle ++ rest).drop q ↔ needle <+: (f ++ needle).drop q := by
    intro q hq
    exact prefix_drop_append_iff (by simp only [List.length_append]; omega)
  constructor
  · intro h
    cases hc : cut? needle (f ++ needle ++ rest) with
    | none =>
        have hnone := cut?_eq_none_iff.1 hc f.length (by simp only [List.length_append]; omega)
        exact absurd (by simp) hnone
    | some parts =>
        rw [pieces_of_cut?_some hn hc] at h
        obtain ⟨hf, hps⟩ := List.cons.inj h
        obtain ⟨happ, hfirst⟩ := cut?_eq_some_iff.1 hc
        rw [hf] at happ hfirst
        refine ⟨fun q hq => ?_, ?_⟩
        · rw [← hlocal q hq]
          exact hfirst q hq
        · rw [List.append_cancel_left happ]
          exact hps
  · rintro ⟨hfirst, rfl⟩
    have hc : cut? needle (f ++ needle ++ rest) = some (f, rest) := by
      refine cut?_eq_some_iff.2 ⟨rfl, fun q hq => ?_⟩
      rw [hlocal q hq]
      exact hfirst q hq
    exact pieces_of_cut?_some hn hc

end Pieces

namespace Text

variable {sep : Text}

/-- Behind the first text each text is put into the buffer with its separator. -/
theorem toList_foldl_put (sep : Text) (ts : List Text) (buffer : Array Char) (position : ℕ) :
    ((ts.zipIdx (position + 1)).foldl sep.put buffer).toList =
      buffer.toList ++ ts.flatMap fun t => sep.chars ++ t.chars := by
  induction ts generalizing buffer position with
  | nil => exact (List.append_nil _).symm
  | cons t rest ih =>
      rw [List.zipIdx_cons, List.foldl_cons, ih, put, if_pos (Nat.succ_pos position)]
      simp only [Array.toList_appendList, List.flatMap_cons, List.append_assoc]

/-- A single text and a buffer hold the first text, and the others behind their separators. -/
theorem chars_intercalate_cons (sep t : Text) (ts : List Text) :
    (intercalate sep (t :: ts)).chars =
      t.chars ++ ts.flatMap fun u => sep.chars ++ u.chars := by
  cases ts with
  | nil => exact (List.append_nil t.chars).symm
  | cons u rest =>
      rw [intercalate, List.zipIdx_cons, List.foldl_cons, toList_foldl_put]
      simp [put]

theorem intercalate_cons (sep t : Text) {ts : List Text} (hts : ts ≠ []) :
    intercalate sep (t :: ts) = t ++ sep ++ intercalate sep ts := by
  cases ts with
  | nil => exact absurd rfl hts
  | cons u rest =>
      apply Text.ext
      rw [chars_append, chars_append, chars_intercalate_cons, chars_intercalate_cons,
        List.flatMap_cons]
      simp only [List.append_assoc]

/-- The pieces of a text, with the separator between them, are the text. -/
theorem intercalate_pieces (hsep : sep.chars ≠ []) (s : List Char) :
    intercalate sep ((pieces sep.chars hsep s).map mk) = ⟨s⟩ := by
  induction s using pieces.induct sep.chars hsep with
  | case1 s hc =>
      rw [pieces_of_cut?_none hsep hc]
      rfl
  | case2 s before after hc ih =>
      have hne : (pieces sep.chars hsep after).map mk ≠ [] := by
        simp [pieces_ne_nil hsep after]
      rw [pieces_of_cut?_some hsep hc, List.map_cons, intercalate_cons sep _ hne, ih]
      apply Text.ext
      rw [chars_append, chars_append]
      exact (append_of_cut? hc).symm

theorem split_eq_ok_iff (hsep : sep.chars ≠ []) {t : Text} {ps : List Text} :
    t.split sep = .ok ps ↔ pieces sep.chars hsep t.chars = ps.map chars := by
  have hmk : ∀ pieces : List (List Char), pieces.map mk = ps ↔ pieces = ps.map chars := by
    intro pieces
    constructor
    · rintro rfl
      simp [Function.comp_def]
    · rintro rfl
      simp [Function.comp_def]
  simp only [split, dif_neg hsep, Except.ok.injEq, hmk]

/-- The scan gives the fragments back exactly when the first occurrence of the separator in each
fragment but the last, followed by the separator, is at the end of the fragment, and the last
fragment contains none. -/
theorem split_intercalate_iff (hsep : sep.chars ≠ []) (ps : List Text) (hps : ps ≠ []) :
    (intercalate sep ps).split sep = .ok ps ↔
      (∀ f ∈ ps.dropLast, (f ++ sep).FirstAt sep f.length) ∧
      ¬ ∃ p, (ps.getLast hps).OccursAt sep p := by
  rw [split_eq_ok_iff hsep]
  induction ps with
  | nil => exact absurd rfl hps
  | cons f rest ih =>
      by_cases hrest : rest = []
      · subst hrest
        have hnone : (¬ ∃ p, f.OccursAt sep p) ↔
            ∀ q ≤ f.chars.length, ¬ sep.chars <+: f.chars.drop q := by
          simp only [OccursAt, length, not_exists, not_and]
        simpa [intercalate, hnone] using pieces_eq_singleton_iff hsep
      · rw [intercalate_cons sep f hrest, chars_append, chars_append, List.map_cons,
          pieces_append_eq_cons_iff hsep, ih hrest, ← firstAt_append_iff,
          List.dropLast_cons_of_ne_nil hrest, List.getLast_cons hrest,
          List.forall_mem_cons, and_assoc]

end Text

theorem texts_map_str (position : Nat) (ts : List Text) :
    texts position (ts.map .str) = .ok ts := by
  induction ts generalizing position with
  | nil => rfl
  | cons t rest ih => simp [texts, Value.text?, ih, Except.map]

theorem joinItems_map_str (sep : Text) (ts : List Text) :
    joinItems sep (ts.map .str) = .ok (Text.intercalate sep ts) := by
  simp [joinItems, texts_map_str, Except.map]

namespace Text

/-- For a separator that is not empty, splitting and joining are inverse to each other exactly on
the fragment lists that the scan leaves as they are. -/
theorem split_join_inverse {sep : Text} (hsep : sep ≠ empty) :
    (∀ t : Text, ∃ ps, t.split sep = .ok ps ∧ ps ≠ [] ∧
      joinItems sep (ps.map .str) = .ok t) ∧
    ∀ (ps : List Text) (hps : ps ≠ []),
      (∃ t, joinItems sep (ps.map .str) = .ok t ∧ t.split sep = .ok ps) ↔
        (∀ f ∈ ps.dropLast, (f ++ sep).FirstAt sep f.length) ∧
        ¬ ∃ p, (ps.getLast hps).OccursAt sep p := by
  have hchars : sep.chars ≠ [] := fun h => hsep (Text.ext h)
  constructor
  · intro t
    refine ⟨(pieces sep.chars hchars t.chars).map mk, ?_, ?_, ?_⟩
    · rw [split, dif_neg hchars]
    · simp [pieces_ne_nil hchars t.chars]
    · rw [joinItems_map_str, intercalate_pieces hchars]
  · intro ps hps
    rw [← split_intercalate_iff hchars ps hps, joinItems_map_str]
    simp

/-- The separator `aa` overlaps itself. -/
theorem split_join_inverse_overlap :
    ofString "aa" ≠ empty ∧
    ¬ ∃ t, joinItems (ofString "aa") ([ofString "a", ofString ""].map .str) = .ok t ∧
      t.split (ofString "aa") = .ok [ofString "a", ofString ""] := by
  have hsep : ofString "aa" ≠ empty := by decide
  refine ⟨hsep, ?_⟩
  rw [(split_join_inverse hsep).2 _ (by simp)]
  intro h
  have hfirst := h.1 (ofString "a") (by simp)
  exact hfirst.2 0 (by decide) ⟨by decide, by decide⟩

end Text

end Conformance
