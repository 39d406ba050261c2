import Mathlib.Data.List.Forall2
import Conformance.Sequence.Run

/-!
# What computations give, and how they fail

Two properties bound what a computation comes to, from whichever store: one of the values that it
gives and one of the failures. They pass through the parts of a computation, so a part of which
nothing is known but these properties may be followed by another.
-/

namespace Conformance

/-- Whatever a computation gives has one property, and whatever it fails with has another one. -/
def Ensures {ε α : Type} (P : α → Prop) (E : ε → Prop)
    (x : ExceptT ε (StateT Store Option) α) : Prop :=
  ∀ s r s', x.run s = some (r, s') → (∀ a, r = .ok a → P a) ∧ ∀ e, r = .error e → E e

namespace Ensures

variable {ε α β : Type} {P P' : α → Prop} {Q : β → Prop} {E E' : ε → Prop}

theorem any (x : ExceptT ε (StateT Store Option) α) :
    Ensures (fun _ => True) (fun _ => True) x :=
  fun _ _ _ _ => ⟨fun _ _ => trivial, fun _ _ => trivial⟩

theorem mono {x : ExceptT ε (StateT Store Option) α} (hx : Ensures P E x) (hP : ∀ a, P a → P' a)
    (hE : ∀ e, E e → E' e) : Ensures P' E' x := fun s r s' hrun =>
  ⟨fun a ha => hP a ((hx s r s' hrun).1 a ha), fun e he => hE e ((hx s r s' hrun).2 e he)⟩

theorem pure {a : α} (ha : P a) : Ensures P E (pure a : ExceptT ε (StateT Store Option) α) := by
  rintro s _ _ ⟨⟩
  refine ⟨?_, nofun⟩
  rintro _ ⟨⟩
  exact ha

theorem throw {e : ε} (he : E e) : Ensures P E (throw e : ExceptT ε (StateT Store Option) α) := by
  rintro s _ _ ⟨⟩
  refine ⟨nofun, ?_⟩
  rintro _ ⟨⟩
  exact he

theorem bind {x : ExceptT ε (StateT Store Option) α} {f : α → ExceptT ε (StateT Store Option) β}
    (hx : Ensures P E x) (hf : ∀ a, P a → Ensures Q E (f a)) : Ensures Q E (x >>= f) := by
  intro s r s' hrun
  rw [Run.run_bind, Option.bind_eq_some_iff] at hrun
  obtain ⟨⟨e | a, s₁⟩, hfirst, hrest⟩ := hrun
  · cases hrest
    refine ⟨nofun, ?_⟩
    rintro _ ⟨⟩
    exact (hx s _ _ hfirst).2 e rfl
  · exact hf a ((hx s _ s₁ hfirst).1 a rfl) s₁ r s' hrest

/-- The results of a traversal belong to its elements, and its failure to one of them. -/
theorem mapM {f : α → ExceptT ε (StateT Store Option) β} {R : α → β → Prop} {F : α → ε → Prop}
    {as : List α} (hf : ∀ a ∈ as, Ensures (R a) (F a) (f a)) :
    Ensures (List.Forall₂ R as) (fun e => ∃ a ∈ as, F a e) (as.mapM f) := by
  induction as with
  | nil => exact pure .nil
  | cons a rest ih =>
      obtain ⟨hfirst, hrest⟩ := List.forall_mem_cons.1 hf
      rw [List.mapM_cons]
      refine (hfirst.mono (fun _ => id) fun e he => ⟨a, List.mem_cons_self, he⟩).bind fun b hb => ?_
      refine ((ih hrest).mono (fun _ => id) ?_).bind fun bs hbs => pure (.cons hb hbs)
      rintro e ⟨c, hc, he⟩
      exact ⟨c, List.mem_cons_of_mem a hc, he⟩

end Ensures

end Conformance
