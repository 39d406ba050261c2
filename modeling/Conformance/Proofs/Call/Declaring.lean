import Conformance.Proofs.Call.Binding

/-!
# Declaring parameters

Declarations fall into three groups: fixed parameters, the variadic one and parameters with
defaults. Each group keeps its own order whatever is declared between its members, and of several
variadic declarations the last counts. Declared names are distinct, which is what makes every
environment a table: it binds each declared name once and no other.
-/

namespace Conformance

namespace Declaration

variable {α : Type}

/-- The name of a fixed parameter. -/
def fixed? : Declaration α → Option String
  | fixed name => some name
  | variadic _ | keyword _ _ => none

/-- The name of a variadic parameter. -/
def variadic? : Declaration α → Option String
  | variadic name => some name
  | fixed _ | keyword _ _ => none

/-- The name and the default of a parameter with a default. -/
def keyword? : Declaration α → Option (String × α)
  | keyword name default => some (name, default)
  | fixed _ | variadic _ => none

end Declaration

/-- What is reported of a list with a repetition is its first entry that is equal to an earlier
one. -/
theorem firstRepeat?_eq_some_iff {seen names : List String} {twice : String} :
    firstRepeat? seen names = some twice ↔ ∃ before after, names = before ++ twice :: after ∧
      before.Nodup ∧ (∀ name ∈ before, name ∉ seen) ∧ (twice ∈ seen ∨ twice ∈ before) := by
  induction names generalizing seen with
  | nil => simp [firstRepeat?]
  | cons first rest ih =>
      rw [firstRepeat?]
      by_cases hseen : first ∈ seen
      · rw [if_pos hseen, Option.some.injEq]
        constructor
        · rintro rfl
          exact ⟨[], rest, rfl, List.nodup_nil, List.forall_mem_nil _, .inl hseen⟩
        · rintro ⟨_ | ⟨other, before⟩, after, heq, -, hfresh, -⟩
          · exact (List.cons.inj heq).1
          · obtain ⟨rfl, -⟩ := List.cons.inj heq
            exact absurd hseen (hfresh first List.mem_cons_self)
      · rw [if_neg hseen, ih]
        constructor
        · rintro ⟨before, after, rfl, hnodup, hfresh, htwice⟩
          have hfirst : first ∉ before := fun hmem => hfresh first hmem List.mem_cons_self
          refine ⟨first :: before, after, rfl, List.nodup_cons.2 ⟨hfirst, hnodup⟩, ?_, ?_⟩
          · refine List.forall_mem_cons.2 ⟨hseen, fun name hmem hold => ?_⟩
            exact hfresh name hmem (List.mem_cons_of_mem first hold)
          · grind
        · rintro ⟨_ | ⟨other, before⟩, after, heq, hnodup, hfresh, htwice⟩
          · obtain ⟨rfl, -⟩ := List.cons.inj heq
            simp [hseen] at htwice
          · obtain ⟨rfl, rfl⟩ := List.cons.inj heq
            obtain ⟨hfirst, hnodup⟩ := List.nodup_cons.1 hnodup
            refine ⟨before, after, rfl, hnodup, fun name hmem hold => ?_, by grind⟩
            obtain rfl | hold := List.mem_cons.1 hold
            · exact hfirst hmem
            · exact hfresh name (List.mem_cons_of_mem first hmem) hold

namespace Signature

open Declaration

theorem foldl_add (declarations : List (Declaration Value)) (s : Signature) :
    declarations.foldl add s = ⟨s.name, s.fixed ++ declarations.filterMap fixed?,
      (declarations.filterMap variadic?).getLast?.or s.variadic,
      s.defaults ++ declarations.filterMap keyword?⟩ := by
  induction declarations generalizing s with
  | nil => simp
  | cons d rest ih =>
      rw [List.foldl_cons, ih]
      cases d with
      | fixed | keyword => simp [add, List.filterMap_cons, fixed?, variadic?, keyword?]
      | variadic name =>
          cases hlast : (rest.filterMap variadic?).getLast? <;>
            simp [add, List.filterMap_cons, fixed?, variadic?, keyword?, List.getLast?_cons, hlast]

/-- The groups of some declarations. -/
theorem gather_eq (name : String) (declarations : List (Declaration Value)) :
    gather name declarations = ⟨name, declarations.filterMap fixed?,
      (declarations.filterMap variadic?).getLast?, declarations.filterMap keyword?⟩ := by
  rw [gather, foldl_add]
  simp

/-- Declarations with a repeated name are refused for the first name that is repeated. -/
theorem declare_eq_error_iff {name : String} {declarations : List (Declaration Value)}
    {e : Fault} : declare name declarations = .error e ↔ ∃ before twice after,
      (gather name declarations).names = before ++ twice :: after ∧ before.Nodup ∧
      twice ∈ before ∧ e = .duplicateParameter name twice := by
  have hrepeat : ∀ twice, firstRepeat? [] (gather name declarations).names = some twice ↔ _ :=
    fun _ => firstRepeat?_eq_some_iff
  have hnone : ∀ before : List String, ∀ name ∈ before, name ∉ ([] : List String) :=
    fun _ _ _ => List.not_mem_nil
  rw [declare]
  cases hfirst : firstRepeat? [] (gather name declarations).names with
  | none =>
      constructor
      · intro h
        cases h
      · rintro ⟨before, twice, after, hnames, hnodup, hmem, -⟩
        rw [(hrepeat twice).2 ⟨before, after, hnames, hnodup, hnone before, .inr hmem⟩] at hfirst
        cases hfirst
  | some twice =>
      obtain ⟨before, after, hnames, hnodup, -, hmem⟩ := (hrepeat twice).1 hfirst
      constructor
      · rintro ⟨⟩
        exact ⟨before, twice, after, hnames, hnodup, hmem.resolve_left List.not_mem_nil, rfl⟩
      · rintro ⟨before', twice', after', hnames', hnodup', hmem', rfl⟩
        rw [(hrepeat twice').2 ⟨before', after', hnames', hnodup', hnone before', .inr hmem'⟩]
          at hfirst
        cases hfirst
        rfl

variable {s : Signature} {arguments : List (Argument Value)} {st st' : Store} {env : Environment}

/-- An environment binds the parameters in declaration order. -/
theorem names_of_bind (hs : s.names.Nodup)
    (hbind : (s.bind arguments).run st = some (.ok env, st')) :
    env.bindings.map (·.1) = s.names := by
  obtain ⟨-, values, -, -, hlayout⟩ := (bind_eq_ok_iff hs).1 hbind
  rw [← Bindings.map_fst_given, hlayout, map_fst_layout]

theorem length_names (s : Signature) : s.names.length =
    s.fixed.length + (if s.variadic.isSome then 1 else 0) + s.defaults.length := by
  cases hvariadic : s.variadic with
  | none => simp [names, hvariadic]
  | some rest =>
      simp only [names, hvariadic, Option.toList_some, List.length_append, List.length_map,
        List.length_singleton, Option.isSome_some, if_true]

end Signature

end Conformance
