import Conformance.Proofs.Value.LazyFree
import Conformance.Sequence.Ending

/-!
# Computations that agree

Two computations on two stores agree when both come to an end, with the same failure or with
related values. What one of them takes from a generator of given values the other may take from a
list of these values.
-/

namespace Conformance

/-- Two results are the same failure, or values that are related. -/
inductive Alike {ε α β : Type} (R : α → β → Prop) : Except ε α → Except ε β → Prop
  | ok {a : α} {b : β} (related : R a b) : Alike R (.ok a) (.ok b)
  | error (e : ε) : Alike R (.error e) (.error e)

theorem Alike.eq {ε α : Type} {r r' : Except ε α} (h : Alike Eq r r') : r = r' := by
  cases h with
  | ok related => rw [related]
  | error e => rfl

/-- Two computations come to an end, each from its store, with results that are alike. How the
values are related may depend on the store in which the first computation ends. -/
def Agree {ε α β : Type} (R : Store → α → β → Prop) (x : ExceptT ε (StateT Store Option) α)
    (s : Store) (y : ExceptT ε (StateT Store Option) β) (t : Store) : Prop :=
  ∃ r s' r' t', x.run s = some (r, s') ∧ y.run t = some (r', t') ∧ Alike (R s') r r'

namespace Agree

variable {ε α β γ δ : Type} {s t : Store}

theorem pure {R : Store → α → β → Prop} {a : α} {b : β} (related : R s a b) :
    Agree R (pure a : ExceptT ε (StateT Store Option) α) s
      (pure b : ExceptT ε (StateT Store Option) β) t :=
  ⟨_, s, _, t, rfl, rfl, .ok related⟩

theorem throw (R : Store → α → β → Prop) (e : ε) (s t : Store) :
    Agree R (throw e : ExceptT ε (StateT Store Option) α) s
      (throw e : ExceptT ε (StateT Store Option) β) t :=
  ⟨_, s, _, t, rfl, rfl, .error e⟩

/-- The same computation from the same store. -/
theorem refl {x : ExceptT ε (StateT Store Option) α} (hx : ∃ o, x.run s = some o) :
    Agree (fun _ => Eq) x s x s := by
  obtain ⟨⟨r, s'⟩, hrun⟩ := hx
  refine ⟨r, s', r, s', hrun, hrun, ?_⟩
  cases r with
  | ok a => exact .ok rfl
  | error e => exact .error e

/-- A computation that does the same in all stores, and changes none. -/
theorem of_forall {x : ExceptT ε (StateT Store Option) α}
    (hx : ∃ r, ∀ st, x.run st = some (r, st)) (s t : Store) :
    Agree (fun s' a b => a = b ∧ s' = s) x s x t := by
  obtain ⟨r, hrun⟩ := hx
  refine ⟨r, s, r, t, hrun s, hrun t, ?_⟩
  cases r with
  | ok a => exact .ok ⟨rfl, rfl⟩
  | error e => exact .error e

theorem lift (result : Except ε α) (s t : Store) :
    Agree (fun s' a b => a = b ∧ s' = s) (liftExcept result : ExceptT ε (StateT Store Option) α) s
      (liftExcept result : ExceptT ε (StateT Store Option) α) t :=
  of_forall ⟨result, Run.run_lift result⟩ s t

theorem mono {R Q : Store → α → β → Prop} {x : ExceptT ε (StateT Store Option) α}
    {y : ExceptT ε (StateT Store Option) β} (h : Agree R x s y t)
    (himp : ∀ s' a b, R s' a b → Q s' a b) : Agree Q x s y t := by
  obtain ⟨r, s', r', t', hx, hy, halike⟩ := h
  refine ⟨r, s', r', t', hx, hy, ?_⟩
  cases halike with
  | ok related => exact .ok (himp _ _ _ related)
  | error e => exact .error e

/-- Computations that agree may go on in ways that agree. -/
theorem bind {R : Store → α → β → Prop} {Q : Store → γ → δ → Prop}
    {x : ExceptT ε (StateT Store Option) α} {y : ExceptT ε (StateT Store Option) β}
    {f : α → ExceptT ε (StateT Store Option) γ} {g : β → ExceptT ε (StateT Store Option) δ}
    (h : Agree R x s y t)
    (hnext : ∀ s' a b t', y.run t = some (.ok b, t') → R s' a b → Agree Q (f a) s' (g b) t') :
    Agree Q (x >>= f) s (y >>= g) t := by
  obtain ⟨r, s', r', t', hx, hy, halike⟩ := h
  cases halike with
  | @ok a b related =>
      obtain ⟨r, s'', r', t'', hf, hg, halike⟩ := hnext s' a b t' hy related
      exact ⟨r, s'', r', t'', (Run.run_bind_of_ok hx f).trans hf,
        (Run.run_bind_of_ok hy g).trans hg, halike⟩
  | error e =>
      exact ⟨.error e, s', .error e, t', Run.run_bind_of_error hx f, Run.run_bind_of_error hy g,
        .error e⟩

/-- Computations with equal values may go on in a way that does the same in all stores. -/
theorem bind_eq {x y : ExceptT ε (StateT Store Option) α}
    {f : α → ExceptT ε (StateT Store Option) β} (h : Agree (fun _ => Eq) x s y t)
    (hf : ∀ a s t, Agree (fun _ => Eq) (f a) s (f a) t) :
    Agree (fun _ => Eq) (x >>= f) s (y >>= f) t := by
  apply h.bind
  rintro s' a _ t' - rfl
  exact hf a s' t'

theorem lift_eq (result : Except ε α) (s t : Store) :
    Agree (fun _ => Eq) (liftExcept result : ExceptT ε (StateT Store Option) α) s
      (liftExcept result : ExceptT ε (StateT Store Option) α) t :=
  (lift result s t).mono fun _ _ _ related => related.1

end Agree

/-! ## Generators of given values -/

namespace Store

variable {s : Store} {h k : Handle} {values : List Value} {past : Past}

/-- A step that asks nothing concerns its own sequence only. -/
theorem state_leave_enter_of_ne (hne : k ≠ h) (s : Store) (g : Generator) (past : Past)
    (value : Option Value) : ((s.enter h).leave h g past value).state k = s.state k := by
  rw [state_leave, state_enter, if_neg fun hk => hne hk.1.symm, if_neg fun hk => hne hk.1.symm]

/-- A drain gives the values that are left, and concerns no other sequence. -/
theorem drain_ofValues (hstate : s.state h = .waiting (.ofValues values) past)
    (seen : List Value) : ∃ s',
      s.drain h seen = some (.ok (seen.reverse ++ values.drop past.length), s') ∧
      ∀ k, k ≠ h → s'.state k = s.state k := by
  have hpull := pull_ofValues hstate
  rw [← List.head?_drop] at hpull
  induction hleft : values.drop past.length generalizing s past seen with
  | nil =>
      rw [hleft] at hpull
      have hdrain := drain_of_none hpull seen
      rw [← List.append_nil seen.reverse] at hdrain
      exact ⟨_, hdrain, fun k hk => state_leave_enter_of_ne hk ..⟩
  | cons v left ih =>
      rw [hleft, List.head?_cons] at hpull
      have hlt : h.index < s.cells.length := index_lt_of_state (by simp [hstate])
      have hnext : ((s.enter h).leave h (.ofValues values) ([] :: past) (some v)).state h =
          .waiting (.ofValues values) ([] :: past) := by
        rw [state_leave, if_pos ⟨rfl, by rwa [length_enter]⟩]
        rfl
      have htail : values.drop ([] :: past : Past).length = left := by
        rw [List.length_cons, ← List.tail_drop, hleft, List.tail_cons]
      have hpull' := pull_ofValues hnext
      rw [← List.head?_drop] at hpull'
      obtain ⟨s', hdrain, hframe⟩ := ih hnext (v :: seen) hpull' htail
      refine ⟨s', ?_, fun k hk => (hframe k hk).trans (state_leave_enter_of_ne hk ..)⟩
      rw [drain_of_some hpull seen, hdrain, List.reverse_cons, List.append_assoc,
        List.singleton_append]

end Store

namespace Value

/-- A value stands for another one: it is the same and without sequences, or it is a generator
that has all values of a list still to give. -/
inductive StandsFor (s : Store) : Value → Value → Prop
  | same {v : Value} (hfree : v.isLazyFree = true) : StandsFor s v v
  | generator {h : Handle} {values : List Value}
      (hstate : s.state h = .waiting (.ofValues values) [])
      (hfree : (list values).isLazyFree = true) : StandsFor s (lazy h) (list values)

variable {s t : Store} {v w : Value}

theorem StandsFor.isLazyFree (h : v.StandsFor s w) : w.isLazyFree = true := by
  cases h with
  | same hfree => exact hfree
  | generator hstate hfree => exact hfree

/-- Both values have the same elements, and concern no sequence but the generator itself. -/
theorem StandsFor.agree (h : v.StandsFor s w) (t : Store) :
    Agree (fun s' a b => a = b ∧ ∀ k, lazy k ≠ v → s'.state k = s.state k)
      v.materialize s w.materialize t := by
  cases h with
  | same hfree =>
      obtain ⟨r, hrun, -⟩ := materialize_of_isLazyFree hfree
      apply (Agree.of_forall ⟨r, hrun⟩ s t).mono
      rintro s' a b ⟨rfl, rfl⟩
      exact ⟨rfl, fun k _ => rfl⟩
  | @generator h values hstate hfree =>
      obtain ⟨s', hdrain, hframe⟩ := Store.drain_ofValues hstate []
      refine ⟨_, s', _, t, hdrain, rfl, .ok ⟨rfl, fun k hk => hframe k ?_⟩⟩
      rintro rfl
      exact hk rfl

theorem StandsFor.agree_eq (h : v.StandsFor s w) (t : Store) :
    Agree (fun _ => Eq) v.materialize s w.materialize t :=
  (h.agree t).mono fun _ _ _ related => related.1

end Value

end Conformance
