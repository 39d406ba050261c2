import Conformance.Proofs.Sequence.Isolation

/-!
# Joining what a producer gives

A producer is drained before the first of its items is examined, so a join that is refused leaves
it exhausted as one that succeeds does, and the items behind the refused one are pulled too. Of the
items only the first that is no text decides on the refusal. No item, one item and several items
are joined in different ways, but two joins and a separator between them are one join.
-/

namespace Conformance

/-- The first item that is no text, and its position. -/
structure FirstOther (items : List Value) (position : ℕ) (v : Value) : Prop where
  at_position : items[position]? = some v
  not_text : ∀ t, v ≠ .str t
  before : ∀ i < position, ∃ t, items[i]? = some (.str t)

namespace FirstOther

variable {items : List Value} {position : ℕ} {v w : Value}

theorem head (hv : ∀ t, v ≠ .str t) : FirstOther (v :: items) 0 v where
  at_position := rfl
  not_text := hv
  before i hi := absurd hi (Nat.not_lt_zero i)

/-- A text is passed over. -/
theorem cons (t : Text) (h : FirstOther items position v) :
    FirstOther (.str t :: items) (position + 1) v where
  at_position := h.at_position
  not_text := h.not_text
  before
    | 0, _ => ⟨t, rfl⟩
    | i + 1, hi => h.before i (Nat.lt_of_succ_lt_succ hi)

theorem tail (h : FirstOther (w :: items) (position + 1) v) : FirstOther items position v where
  at_position := h.at_position
  not_text := h.not_text
  before i hi := h.before (i + 1) (Nat.succ_lt_succ hi)

/-- Items are texts, or there is a first one that is none. -/
theorem exists_or_map_str (items : List Value) :
    (∃ ts : List Text, items = ts.map .str) ∨ ∃ k v, FirstOther items k v := by
  induction items with
  | nil => exact .inl ⟨[], rfl⟩
  | cons v rest ih =>
      by_cases hv : ∃ t, v = .str t
      · obtain ⟨t, rfl⟩ := hv
        rcases ih with ⟨ts, rfl⟩ | ⟨k, w, h⟩
        · exact .inl ⟨t :: ts, rfl⟩
        · exact .inr ⟨k + 1, w, h.cons t⟩
      · exact .inr ⟨0, v, head (not_exists.1 hv)⟩

/-- The first item that is no text is refused with its position and its type. -/
theorem texts_eq (h : FirstOther items position v) (start : ℕ) :
    texts start items = .error (.joinItemNotText (start + position) v.type) := by
  induction items generalizing start position with
  | nil => cases h.at_position
  | cons w rest ih =>
      cases position with
      | zero =>
          obtain rfl := Option.some.inj h.at_position
          cases w with
          | str t => exact absurd rfl (h.not_text t)
          | nothing | bool | int | list | tuple | lazy => rfl
      | succ k =>
          obtain ⟨t, ht⟩ := h.before 0 (Nat.succ_pos k)
          obtain rfl := Option.some.inj ht
          have hrest := ih h.tail (start + 1)
          rw [Nat.add_assoc, Nat.add_comm 1 k] at hrest
          simp only [texts, Value.text?, hrest, Except.map]

theorem joinItems_eq (h : FirstOther items position v) (sep : Text) :
    joinItems sep items = .error (.joinItemNotText position v.type) := by
  rw [joinItems, h.texts_eq, Nat.zero_add]
  rfl

theorem not_forall (h : FirstOther items position v) : ¬ ∀ item ∈ items, ∃ t, item = .str t := by
  intro hall
  obtain ⟨t, ht⟩ := hall v (List.mem_of_getElem? h.at_position)
  exact h.not_text t ht

end FirstOther

/-- A join succeeds exactly if all items are texts. -/
theorem exists_joinItems_iff (sep : Text) (items : List Value) :
    (∃ t, joinItems sep items = .ok t) ↔ ∀ item ∈ items, ∃ t, item = .str t := by
  rcases FirstOther.exists_or_map_str items with ⟨ts, rfl⟩ | ⟨k, v, h⟩
  · refine iff_of_true ⟨_, joinItems_map_str sep ts⟩ ?_
    intro item hitem
    obtain ⟨t, -, rfl⟩ := List.mem_map.1 hitem
    exact ⟨t, rfl⟩
  · rw [h.joinItems_eq]
    exact iff_of_false nofun h.not_forall

/-- A join fails only with the first item that is no text. -/
theorem joinItems_eq_error_iff (sep : Text) (items : List Value) (e : Fault) :
    joinItems sep items = .error e ↔
      ∃ k v, FirstOther items k v ∧ e = .joinItemNotText k v.type := by
  constructor
  · intro herror
    rcases FirstOther.exists_or_map_str items with ⟨ts, rfl⟩ | ⟨k, v, h⟩
    · rw [joinItems_map_str] at herror
      cases herror
    · rw [h.joinItems_eq] at herror
      exact ⟨k, v, h, (Except.error.inj herror).symm⟩
  · rintro ⟨k, v, h, rfl⟩
    exact h.joinItems_eq sep

/-! ## Producers -/

section Producers

variable {s s' : Store} {h : Handle} {items : List Value}

/-- A value is joined by its items, all of them produced before. -/
theorem Value.run_join {v : Value} (hrun : v.materialize.run s = some (.ok items, s'))
    (sep : Text) : (v.join sep).run s = some (joinItems sep items, s') := by
  rw [Value.join, Run.run_bind_of_ok hrun, Run.run_lift]

/-- A join that pulls until a pull gives nothing produces the same items. -/
theorem Sequence.run_join (hs : s.state h ≠ .running)
    (hrun : (Value.lazy h).materialize.run s = some (.ok items, s')) (sep : Text) :
    (Sequence.join sep h).run s = some (joinItems sep items, s') :=
  (run_collect_bind hs _).trans (Value.run_join hrun sep)

/-- A value that holds items is joined by them. Only a sequence is changed. -/
theorem Value.Holds.exists_run_join {v : Value} (holds : v.Holds s items) (sep : Text) :
    ∃ s', (v.join sep).run s = some (joinItems sep items, s') ∧
      (∀ h, v = .lazy h → Store.Exhausts h s items s' ∧
        (Sequence.join sep h).run s = some (joinItems sep items, s')) ∧
      ((∀ h, v ≠ .lazy h) → s' = s) := by
  cases v with
  | lazy h =>
      obtain ⟨s', hrun⟩ := exists_materialize_iff.2 holds
      refine ⟨s', run_join hrun sep, ?_, fun hv => absurd rfl (hv h)⟩
      rintro _ ⟨⟩
      have hs : s.state h ≠ .running := Store.Holds.ne_running holds
      exact ⟨Store.exhausts_of_drain hrun, Sequence.run_join hs hrun sep⟩
  | str | list | tuple =>
      obtain rfl := holds
      exact ⟨s, run_join rfl sep, nofun, fun _ => rfl⟩
  | nothing | bool | int => exact holds.elim

end Producers

namespace Text

/-- Two joins with a separator between them are one join. -/
theorem intercalate_append (sep : Text) {xs ys : List Text} (hxs : xs ≠ []) (hys : ys ≠ []) :
    intercalate sep (xs ++ ys) = intercalate sep xs ++ sep ++ intercalate sep ys := by
  induction xs with
  | nil => exact absurd rfl hxs
  | cons x rest ih =>
      by_cases hrest : rest = []
      · rw [hrest]
        exact intercalate_cons sep x hys
      · rw [List.cons_append, intercalate_cons sep x (List.append_ne_nil_of_left_ne_nil hrest ys),
          ih hrest, intercalate_cons sep x hrest]
        simp only [append_assoc]

theorem length_intercalate (sep : Text) (ts : List Text) : (intercalate sep ts).length =
    (ts.map length).sum + sep.length * (ts.length - 1) := by
  induction ts with
  | nil => rfl
  | cons t rest ih =>
      cases rest with
      | nil => simp [intercalate]
      | cons u rest =>
          rw [intercalate_cons sep t (List.cons_ne_nil u rest), length_append, length_append, ih]
          simp only [List.map_cons, List.sum_cons, List.length_cons, Nat.add_sub_cancel,
            Nat.mul_succ]
          omega

end Text

/-- A sequence that is not running and whose production comes to an end holds finitely many items,
as lists do. Joining a value produces all items that it holds and then joins them. A sequence gave
them all and is exhausted, whether the join succeeds or not, and may as well be joined by pulls
until one gives nothing; other values leave the store as it was. A join of items succeeds exactly
if all are texts, and fails only with the position and the type of the first that is none. The join
of two lists of texts that are not empty is their two joins with the separator between them; its
length is that of the texts and of a separator for each text but one, nothing for no texts. -/
theorem join_drains_producer (sep : Text) :
    (∀ (s : Store) (h : Handle), s.state h ≠ .running → (s.production h).Total →
      (s.production h).length ≠ ⊤ → ∃ items, (Value.lazy h).Holds s items) ∧
    (∀ (s : Store) (v : Value) (items : List Value), v.Holds s items →
      ∃ s', (v.join sep).run s = some (joinItems sep items, s') ∧
        (∀ h, v = .lazy h → Store.Exhausts h s items s' ∧
          (Sequence.join sep h).run s = some (joinItems sep items, s')) ∧
        ((∀ h, v ≠ .lazy h) → s' = s)) ∧
    (∀ items : List Value,
      ((∃ t, joinItems sep items = .ok t) ↔ ∀ item ∈ items, ∃ t, item = .str t) ∧
      ∀ e, joinItems sep items = .error e ↔
        ∃ k v, FirstOther items k v ∧ e = .joinItemNotText k v.type) ∧
    (∀ xs ys : List Text, xs ≠ [] → ys ≠ [] →
      ∃ x y, joinItems sep (xs.map .str) = .ok x ∧ joinItems sep (ys.map .str) = .ok y ∧
        joinItems sep ((xs ++ ys).map .str) = .ok (x ++ sep ++ y)) ∧
    ∀ ts : List Text, ∃ t, joinItems sep (ts.map .str) = .ok t ∧
      t.length = (ts.map Text.length).sum + sep.length * (ts.length - 1) := by
  refine ⟨?_, fun s v items holds => holds.exists_run_join sep,
    fun items => ⟨exists_joinItems_iff sep items, joinItems_eq_error_iff sep items⟩, ?_, ?_⟩
  · intro s h hs htotal hfinite
    obtain ⟨items, s', hdrain⟩ := Store.drain_ends hs htotal hfinite
    exact ⟨items, Store.exists_drain_iff.1 ⟨s', hdrain⟩⟩
  · intro xs ys hxs hys
    refine ⟨_, _, joinItems_map_str sep xs, joinItems_map_str sep ys, ?_⟩
    rw [joinItems_map_str, Text.intercalate_append sep hxs hys]
  · intro ts
    exact ⟨_, joinItems_map_str sep ts, Text.length_intercalate sep ts⟩

/-- A generator whose second value is no text, and two lists of texts. -/
theorem join_drains_producer_refused :
    let sep := Text.ofString ", "
    let items : List Value := [.str (.ofString "a"), .int 1, .str (.ofString "b")]
    let s : Store := ⟨[⟨.waiting (.ofValues items) [], 0⟩], []⟩
    (s.state ⟨0⟩ ≠ .running ∧ (s.production ⟨0⟩).Total ∧ (s.production ⟨0⟩).length ≠ ⊤ ∧
      ∃ values, (Value.lazy ⟨0⟩).Holds s values) ∧
    ((Value.lazy ⟨0⟩).Holds s items ∧
      ∃ s', ((Value.lazy ⟨0⟩).join sep).run s = some (.error (.joinItemNotText 1 .int), s') ∧
        s'.state ⟨0⟩ = .exhausted) ∧
    ([Text.ofString "a", .empty] ≠ [] ∧ [Text.ofString "b"] ≠ [] ∧
      ∃ x y, joinItems sep ([Text.ofString "a", .empty].map .str) = .ok x ∧
        joinItems sep ([Text.ofString "b"].map .str) = .ok y ∧
        joinItems sep (([Text.ofString "a", .empty] ++ [Text.ofString "b"]).map .str) =
          .ok (x ++ sep ++ y)) := by
  intro sep items s
  obtain ⟨hholds, hrun, herror, happend, -⟩ := join_drains_producer sep
  have hstate : s.state ⟨0⟩ = .waiting (.ofValues items) [] := rfl
  obtain ⟨s', hdrain, -⟩ := Store.drain_ofValues hstate []
  have holds : s.Holds ⟨0⟩ items := Store.exists_drain_iff.1 ⟨s', hdrain⟩
  have hfinite : (s.production ⟨0⟩).length ≠ ⊤ := by
    rw [holds.length_eq]
    exact ENat.natCast_ne_top _
  have hfirst : FirstOther items 1 (.int 1) := (FirstOther.head (by simp)).cons _
  obtain ⟨t, hjoin, hlazy, -⟩ := hrun s (.lazy ⟨0⟩) items holds
  rw [((herror items).2 _).2 ⟨1, .int 1, hfirst, rfl⟩] at hjoin
  exact ⟨⟨holds.ne_running, holds.total, hfinite,
      hholds s ⟨0⟩ holds.ne_running holds.total hfinite⟩,
    ⟨holds, t, hjoin, (hlazy ⟨0⟩ rfl).1.exhausted⟩,
    by simp, by simp, happend _ _ (by simp) (by simp)⟩

end Conformance
