import Mathlib.Data.List.Forall2

/-!
# Traversals that may fail

A traversal that may fail succeeds if it does on each element, and its results belong to the
elements one by one. A look-up of a key is a traversal of entries that ends with the first one of
the key.
-/

namespace Conformance

variable {ε α β γ : Type} {f : α → Except ε β} {as : List α}

theorem mapM_eq_ok_iff {bs : List β} :
    as.mapM f = .ok bs ↔ List.Forall₂ (fun a b => f a = .ok b) as bs := by
  induction as generalizing bs with
  | nil => simp [pure, Except.pure, eq_comm]
  | cons a rest ih =>
      rw [List.mapM_cons, List.forall₂_cons_left_iff]
      simp only [← ih]
      cases f a with
      | error e => simp [bind, Except.bind]
      | ok b =>
          cases rest.mapM f with
          | error e => simp [bind, Except.bind]
          | ok others => simp [bind, Except.bind, pure, Except.pure, eq_comm]

theorem exists_mapM_eq_ok_iff : (∃ bs, as.mapM f = .ok bs) ↔ ∀ a ∈ as, ∃ b, f a = .ok b := by
  simp only [mapM_eq_ok_iff]
  induction as with
  | nil => simp
  | cons a rest ih =>
      rw [List.forall_mem_cons, ← ih]
      constructor
      · rintro ⟨_, _ | ⟨hfirst, hrest⟩⟩
        exact ⟨⟨_, hfirst⟩, _, hrest⟩
      · rintro ⟨⟨b, hfirst⟩, others, hrest⟩
        exact ⟨b :: others, .cons hfirst hrest⟩

/-- A traversal fails as it does on the first element on which it fails. -/
theorem mapM_eq_error_iff {e : ε} : as.mapM f = .error e ↔ ∃ before a after,
    as = before ++ a :: after ∧ (∀ b ∈ before, ∃ r, f b = .ok r) ∧ f a = .error e := by
  induction as with
  | nil => simp [pure, Except.pure]
  | cons first rest ih =>
      rw [List.mapM_cons]
      cases hfirst : f first with
      | error e' =>
          constructor
          · rintro ⟨⟩
            exact ⟨[], first, rest, rfl, nofun, hfirst⟩
          · rintro ⟨_ | ⟨b, before⟩, a, after, heq, hbefore, ha⟩
            · cases heq
              cases hfirst.symm.trans ha
              rfl
            · cases heq
              obtain ⟨r, hok⟩ := hbefore first List.mem_cons_self
              cases hfirst.symm.trans hok
      | ok r =>
          have hrest : (do return r :: (← rest.mapM f)) = Except.error e ↔
              rest.mapM f = .error e := by
            cases rest.mapM f <;> simp [bind, Except.bind, pure, Except.pure]
          refine hrest.trans (ih.trans ?_)
          constructor
          · rintro ⟨before, a, after, rfl, hbefore, ha⟩
            exact ⟨first :: before, a, after, rfl,
              List.forall_mem_cons.2 ⟨⟨r, hfirst⟩, hbefore⟩, ha⟩
          · rintro ⟨_ | ⟨b, before⟩, a, after, heq, hbefore, ha⟩
            · cases heq
              cases hfirst.symm.trans ha
            · cases heq
              exact ⟨before, a, after, rfl, (List.forall_mem_cons.1 hbefore).2, ha⟩

theorem map_eq_ok_iff {f : α → β} {result : Except ε α} {b : β} :
    result.map f = .ok b ↔ ∃ a, result = .ok a ∧ f a = b := by
  cases result <;> simp [Except.map]

theorem map_eq_error_iff {f : α → β} {result : Except ε α} {e : ε} :
    result.map f = .error e ↔ result = .error e := by
  cases result <;> simp [Except.map]

theorem mapError_eq_ok_iff {ε' : Type} {f : ε → ε'} {result : Except ε α} {a : α} :
    result.mapError f = .ok a ↔ result = .ok a := by
  cases result <;> simp [Except.mapError]

theorem mapError_eq_error_iff {ε' : Type} {f : ε → ε'} {result : Except ε α} {e : ε'} :
    result.mapError f = .error e ↔ ∃ cause, result = .error cause ∧ e = f cause := by
  cases result <;> simp [Except.mapError, eq_comm]

/-- A result that is paired with a name. -/
theorem map_mk_eq_ok_iff {result : Except ε α} {name : String} {entry : String × α} :
    (result.map fun a => (name, a)) = .ok entry ↔ name = entry.1 ∧ result = .ok entry.2 := by
  cases result <;> simp [Except.map, Prod.ext_iff]

theorem exists_map_mk_eq_ok_iff {result : Except ε α} {name : String} :
    (∃ entry, (result.map fun a => (name, a)) = .ok entry) ↔ ∃ a, result = .ok a := by
  cases result <;> simp [Except.map]

/-- What a relation says of its second value holds for all of a list that is so related. -/
theorem forall_mem_of_forall₂ {R : α → β → Prop} {P : β → Prop} (hR : ∀ a b, R a b → P b)
    {bs : List β} (h : List.Forall₂ R as bs) : ∀ b ∈ bs, P b := by
  induction h with
  | nil => exact nofun
  | cons head tail ih => exact List.forall_mem_cons.2 ⟨hR _ _ head, ih⟩

theorem map_eq_map_of_forall₂ {f : α → γ} {g : β → γ} {bs : List β}
    (h : List.Forall₂ (fun a b => f a = g b) as bs) : as.map f = bs.map g := by
  rw [← List.forall₂_eq_eq_eq, List.forall₂_map_left_iff, List.forall₂_map_right_iff]
  exact h

theorem mem_of_map_find?_key {entries : List (String × α)} {key : String} {a : α}
    (h : (entries.find? (·.1 == key)).map (·.2) = some a) : (key, a) ∈ entries := by
  obtain ⟨entry, hfind, rfl⟩ := Option.map_eq_some_iff.1 h
  have hkey : entry.1 = key := by simpa using List.find?_some hfind
  exact hkey ▸ List.mem_of_find?_eq_some hfind

/-- Where no key occurs twice, the value of each entry is found. -/
theorem map_find?_key_eq_some_iff {entries : List (String × α)}
    (hkeys : (entries.map (·.1)).Nodup) {key : String} {a : α} :
    (entries.find? (·.1 == key)).map (·.2) = some a ↔ (key, a) ∈ entries := by
  refine ⟨mem_of_map_find?_key, fun hmem => ?_⟩
  induction entries with
  | nil => cases hmem
  | cons first rest ih =>
      obtain ⟨hfirst, hrest⟩ := List.nodup_cons.1 hkeys
      rw [List.find?_cons]
      obtain rfl | hlater := List.mem_cons.1 hmem
      · rw [beq_self_eq_true]
        rfl
      · have hne : (first.1 == key) = false := by
          rw [beq_eq_false_iff_ne]
          rintro rfl
          exact hfirst (List.mem_map_of_mem (f := (·.1)) hlater)
        rw [hne]
        exact ih hrest hlater

/-- Where the entries of two lists belong together one by one, so do the values of a key. -/
theorem rel_find? {R : α → β → Prop} {entries : List (String × α)} {others : List (String × β)}
    (h : List.Forall₂ (fun entry other => entry.1 = other.1 ∧ R entry.2 other.2) entries others)
    (key : String) : Option.Rel R ((entries.find? (·.1 == key)).map (·.2))
      ((others.find? (·.1 == key)).map (·.2)) := by
  induction h with
  | nil => exact .none
  | @cons entry other _ _ head tail ih =>
      rw [List.find?_cons, List.find?_cons, ← head.1]
      cases entry.1 == key with
      | true => exact .some head.2
      | false => exact ih

/-- Values that belong to one value are the same, if no value has two. -/
theorem rel_unique {R : α → β → Prop} (hR : ∀ a b b', R a b → R a b' → b = b') {a : Option α}
    {b b' : Option β} (h : Option.Rel R a b) (h' : Option.Rel R a b') : b = b' := by
  cases h with
  | none =>
      cases h'
      rfl
  | some hb =>
      cases h' with
      | some hb' => rw [hR _ _ _ hb hb']

end Conformance
