import Conformance.Call.Function
import Conformance.Proofs.Call.Binding
import Conformance.Proofs.Sequence.Contents
import Conformance.Proofs.Value.LazyFree
import Conformance.Session.Run

/-!
# Calls that repeat

A call hands the declared defaults themselves to the body. When no sequence is in the arguments
and in the defaults that are taken, the body sees the same values in each call, whatever earlier
calls did, and the results are the same. A sequence as default is one sequence for all calls: what
one call takes from it, the next calls miss.
-/

namespace Conformance

namespace Run

variable {α β : Type}

/-- The result of a computation does not depend on the sequences. -/
def Steady (x : Run α) : Prop := ∀ st st', (x.run st).map (·.1) = (x.run st').map (·.1)

theorem Steady.exists_run {x : Run α} (hx : x.Steady) {r : Except Fault α} {st st₁ : Store}
    (hrun : x.run st = some (r, st₁)) (st' : Store) : ∃ st₂, x.run st' = some (r, st₂) := by
  have hresult := hx st st'
  rw [hrun, Option.map_some] at hresult
  obtain ⟨⟨_, st₂⟩, hrun', rfl⟩ := Option.map_eq_some_iff.1 hresult.symm
  exact ⟨st₂, hrun'⟩

/-- A result that leaves the sequences alone is steady. -/
theorem steady_of_run {x : Run α} {r : Except Fault α} (hx : ∀ st, x.run st = some (r, st)) :
    x.Steady := by
  intro st st'
  rw [hx, hx]
  rfl

theorem steady_pure (a : α) : (pure a : Run α).Steady := steady_of_run fun _ => rfl

theorem steady_lift (x : Except Fault α) : (liftExcept x : Run α).Steady :=
  steady_of_run (run_lift x)

/-- A steady computation may go on in any way that is steady after each of its results. -/
theorem Steady.bind {x : Run α} {f : α → Run β} (hx : x.Steady)
    (hf : ∀ a st st', x.run st = some (.ok a, st') → (f a).Steady) : (x >>= f).Steady := by
  intro st st'
  cases hrun : x.run st with
  | none =>
      have hrun' : x.run st' = none := by
        have hresult := hx st st'
        rw [hrun] at hresult
        exact Option.map_eq_none_iff.1 hresult.symm
      rw [run_bind, run_bind, hrun, hrun']
  | some o =>
      obtain ⟨r, st₁⟩ := o
      obtain ⟨st₂, hrun'⟩ := hx.exists_run hrun st'
      cases r with
      | error e =>
          rw [run_bind, run_bind, hrun, hrun']
          rfl
      | ok a =>
          rw [run_bind_of_ok hrun, run_bind_of_ok hrun']
          exact hf a st st₁ hrun st₁ st₂

end Run

/-- The value that an argument carries. -/
def Argument.value {α : Type} : Argument α → α
  | positional value | spread value | keyword _ value => value

/-- No sequence is in the values that names have. -/
def Bindings.IsLazyFree (bindings : Bindings) : Prop :=
  ∀ binding ∈ bindings, binding.2.isLazyFree = true

/-- No sequence is in the values that the parameters have. -/
def Environment.IsLazyFree (env : Environment) : Prop := env.bindings.IsLazyFree

/-- No sequence is in what was supplied. -/
structure Supplied.IsLazyFree (supplied : Supplied) : Prop where
  positionals : ∀ v ∈ supplied.positionals, v.isLazyFree = true
  keywords : supplied.keywords.IsLazyFree

theorem Bindings.IsLazyFree.of_get? {bindings : Bindings} (hbindings : bindings.IsLazyFree)
    {name : String} {v : Value} (hget : bindings.get? name = some v) : v.isLazyFree = true :=
  hbindings _ (mem_of_get? hget)

theorem Environment.IsLazyFree.valueOf {env : Environment} (henv : env.IsLazyFree)
    (param : String) : (env.valueOf param).isLazyFree = true := by
  unfold Environment.valueOf
  cases hget : env.get? param with
  | none => rfl
  | some v => exact Bindings.IsLazyFree.of_get? henv hget

/-- Expanding arguments without sequences pulls nothing. -/
theorem expand_of_isLazyFree (function : String) {arguments : List (Argument Value)}
    (hargs : ∀ arg ∈ arguments, arg.value.isLazyFree = true) {supplied : Supplied}
    (hsupplied : supplied.IsLazyFree) :
    ∃ r : Except Fault Supplied,
      (∀ st, (expand function arguments supplied).run st = some (r, st)) ∧
      ∀ result, r = .ok result → result.IsLazyFree := by
  -- a repeated keyword may end expansion before a later spread fails, so the values of all
  -- arguments do not decide the outcome and the induction goes along the arguments
  induction arguments generalizing supplied with
  | nil =>
      refine ⟨.ok supplied, fun st => rfl, ?_⟩
      rintro _ ⟨⟩
      exact hsupplied
  | cons arg rest ih =>
      obtain ⟨harg, hrest⟩ := List.forall_mem_cons.1 hargs
      have hgrow : ∀ values : List Value, (∀ v ∈ values, v.isLazyFree = true) →
          (⟨supplied.positionals ++ values, supplied.keywords⟩ : Supplied).IsLazyFree :=
        fun values hvalues =>
          ⟨List.forall_mem_append.2 ⟨hsupplied.positionals, hvalues⟩, hsupplied.keywords⟩
      cases arg with
      | positional value => exact ih hrest (hgrow [value] (List.forall_mem_singleton.2 harg))
      | spread value =>
          have hvalue : value.isLazyFree = true := harg
          obtain ⟨r, hrun, helements⟩ := Value.materialize_of_isLazyFree hvalue
          cases r with
          | error e =>
              refine ⟨.error e, fun st => ?_, ?_⟩
              · rw [expand, Run.run_bind, hrun]
                rfl
              · rintro _ ⟨⟩
          | ok values =>
              obtain ⟨result, hlater, hfree⟩ := ih hrest (hgrow values (helements values rfl))
              refine ⟨result, fun st => ?_, hfree⟩
              rw [expand, Run.run_bind_of_ok (hrun st)]
              exact hlater st
      | keyword name value =>
          rw [expand]
          split
          · refine ⟨_, fun st => rfl, ?_⟩
            rintro _ ⟨⟩
          · refine ih hrest ⟨hsupplied.positionals, ?_⟩
            exact List.forall_mem_append.2
              ⟨hsupplied.keywords, List.forall_mem_singleton.2 harg⟩

namespace Signature

variable {s : Signature} {arguments : List (Argument Value)}

/-- The defaults that a call takes: those of the parameters that no keyword is for. -/
def taken (s : Signature) (keywords : Bindings) : Bindings :=
  s.defaults.filter fun entry => (keywords.get? entry.1).isNone

theorem mem_taken_iff {keywords : Bindings} {entry : String × Value} :
    entry ∈ s.taken keywords ↔ entry ∈ s.defaults ∧ keywords.get? entry.1 = none := by
  simp [taken]

/-- A default that is taken is laid out as it was declared. -/
theorem mem_layout_of_mem_taken {values : List Value} {keywords : Bindings}
    {entry : String × Value} (hentry : entry ∈ s.taken keywords) :
    (entry.1, some entry.2) ∈ s.layout values keywords := by
  obtain ⟨name, default⟩ := entry
  obtain ⟨hdefault, hnone⟩ := mem_taken_iff.1 hentry
  refine List.mem_append_right _ (List.mem_map.2 ⟨_, hdefault, ?_⟩)
  simp only [hnone, Option.getD_none]

/-- What holds of all values of a call and of the defaults that it takes, and of a tuple if it does
of its items, holds of all that is laid out. -/
theorem forall_mem_layout {P : Value → Prop}
    (htuple : ∀ items : List Value, (∀ v ∈ items, P v) → P (.tuple items)) {values : List Value}
    {keywords : Bindings} (hvalues : ∀ v ∈ values, P v)
    (hkeywords : ∀ keyword ∈ keywords, P keyword.2)
    (htaken : ∀ entry ∈ s.taken keywords, P entry.2) {name : String} {v : Value}
    (hmem : (name, some v) ∈ s.layout values keywords) : P v := by
  rw [layout, List.mem_append, List.mem_append] at hmem
  obtain (hfixed | hvariadic) | hkeyed := hmem
  · obtain ⟨i, hi, heq⟩ := List.mem_mapIdx.1 hfixed
    have hvalue := congrArg Prod.snd heq
    dsimp only at hvalue
    split at hvalue
    · exact hvalues v (List.mem_of_getElem? hvalue)
    · exact hkeywords _ (Bindings.mem_of_get? hvalue)
  · obtain ⟨_, -, heq⟩ := List.mem_map.1 hvariadic
    cases heq
    exact htuple _ fun w hw => hvalues w (List.mem_of_mem_drop hw)
  · obtain ⟨entry, hentry, heq⟩ := List.mem_map.1 hkeyed
    cases heq
    cases hget : keywords.get? entry.1 with
    | none => exact htaken entry (mem_taken_iff.2 ⟨hentry, hget⟩)
    | some w => exact hkeywords _ (Bindings.mem_of_get? hget)

/-- Arguments without sequences are bound alike in each call, and each default that is taken is
bound as it was declared. -/
theorem bind_of_isLazyFree (hs : s.names.Nodup)
    (hargs : ∀ arg ∈ arguments, arg.value.isLazyFree = true) :
    ∃ r : Except Fault Environment, (∀ st, (s.bind arguments).run st = some (r, st)) ∧
      ∀ env, r = .ok env →
        (∀ entry ∈ s.taken (keywordsOf arguments), env.get? entry.1 = some entry.2) ∧
        ((s.taken (keywordsOf arguments)).IsLazyFree → env.IsLazyFree) := by
  have hnothing : (⟨[], []⟩ : Supplied).IsLazyFree := ⟨nofun, nofun⟩
  obtain ⟨r, hexpand, hfree⟩ := expand_of_isLazyFree s.name hargs hnothing
  cases r with
  | error e =>
      refine ⟨.error e, fun st => ?_, nofun⟩
      rw [bind, Run.run_bind, hexpand]
      rfl
  | ok supplied =>
      refine ⟨s.distribute supplied, fun st => ?_, ?_⟩
      · rw [bind, Run.run_bind_of_ok (hexpand st), Run.run_lift]
      · intro env hdistribute
        obtain ⟨hvalues, hkeywords⟩ := hfree supplied rfl
        obtain ⟨-, values, -, rfl⟩ :=
          (expand_ok_iff ⟨[], []⟩ List.nodup_nil).1 (hexpand .empty)
        obtain ⟨-, hlayout⟩ := (distribute_eq_ok_iff hs).1 hdistribute
        have hnames : env.bindings.map (·.1) = s.names := by
          rw [← Bindings.map_fst_given, hlayout, map_fst_layout]
        constructor
        · intro entry hentry
          refine Bindings.get?_of_mem (hnames ▸ hs) ?_
          rw [← Bindings.mem_given_iff, hlayout]
          exact mem_layout_of_mem_taken hentry
        · rintro htaken ⟨name, v⟩ hmem
          rw [← Bindings.mem_given_iff, hlayout] at hmem
          exact forall_mem_layout (fun items => (Value.isLazyFree_tuple items).2) hvalues
            hkeywords htaken hmem

end Signature

namespace Function

variable {f : Function} {arguments : List (Argument Value)}

/-- The body uses nothing but the values of the parameters: if no sequence is in them, its result
does not depend on the sequences. -/
def IsSteady (f : Function) : Prop := ∀ env, env.IsLazyFree → (f.body env).Steady

/-- A call depends on the sequences only through its arguments and the defaults that it takes. -/
theorem steady_call (hs : f.signature.names.Nodup) (hf : f.IsSteady)
    (hargs : ∀ arg ∈ arguments, arg.value.isLazyFree = true)
    (htaken : (f.signature.taken (keywordsOf arguments)).IsLazyFree) :
    (f.call arguments).Steady := by
  obtain ⟨r, hbind, hfree⟩ := Signature.bind_of_isLazyFree hs hargs
  refine (Run.steady_of_run hbind).bind fun env st st' hrun => hf env ?_
  rw [hbind] at hrun
  cases hrun
  exact (hfree env rfl).2 htaken

theorem pairing_isSteady (s : Signature) : (pairing s).IsSteady :=
  fun env _ => Run.steady_pure env.pairs

theorem summing_isSteady (s : Signature) : (summing s).IsSteady :=
  fun env _ => Run.steady_pure (Value.int env.total)

theorem getting_isSteady (s : Signature) (param : String) : (getting s param).IsSteady :=
  fun env _ => Run.steady_pure (env.valueOf param)

theorem joining_isSteady (s : Signature) (param : String) (sep : Text) :
    (joining s param sep).IsSteady := by
  intro env henv
  obtain ⟨r, hrun, -⟩ := Value.materialize_of_isLazyFree (henv.valueOf param)
  have hjoin : ((env.valueOf param).join sep).Steady :=
    (Run.steady_of_run hrun).bind fun items _ _ _ => Run.steady_lift (joinItems sep items)
  exact hjoin.bind fun t _ _ _ => Run.steady_pure (Value.str t)

/-- Passing values on to a function without sequences in its defaults. -/
theorem forwarding_isSteady (s : Signature) (param : String) {target : Function}
    (hs : target.signature.names.Nodup) (htarget : target.IsSteady)
    (hdefaults : Bindings.IsLazyFree target.signature.defaults) :
    (forwarding s param target).IsSteady := by
  intro env henv
  refine steady_call hs htarget (List.forall_mem_singleton.2 (henv.valueOf param)) ?_
  exact fun entry hentry => hdefaults entry (Signature.mem_taken_iff.1 hentry).1

/-- Joining a parameter that is bound to a sequence gives what the sequence still holds. -/
theorem joining_run {s : Signature} {param : String} {env : Environment} {h : Handle}
    {st st' : Store} {elements : List Value}
    (hbind : (s.bind arguments).run st = some (.ok env, st))
    (henv : env.get? param = some (.lazy h))
    (hrun : (Value.lazy h).materialize.run st = some (.ok elements, st')) (sep : Text) :
    ((joining s param sep).call arguments).run st =
      some ((joinItems sep elements).map .str, st') := by
  have hvalue : env.valueOf param = .lazy h := by rw [Environment.valueOf, henv, Option.getD_some]
  have hjoin : ((env.valueOf param).join sep).run st = some (joinItems sep elements, st') := by
    rw [hvalue, Value.join, Run.run_bind_of_ok hrun, Run.run_lift]
  refine (Run.run_bind_of_ok hbind _).trans ?_
  exact Run.map_eq_some_iff.2 ⟨_, hjoin, rfl⟩

end Function

theorem Session.run_get_bind {α : Type} (session : Session) (use : Session → Action α) :
    (get >>= use).run session = (use session).run session := rfl

/-- A command that uses a function looks it up by its variable. -/
theorem Session.run_functionOf_bind {α : Type} (session : Session) (name : String)
    (use : Function → Action α) : (functionOf name >>= use).run session =
      (session.functions.find? (·.1 == name)).elim
        (some (.error (.undefinedName name), session))
        fun stored => (use stored.2).run session := by
  rw [functionOf, bind_assoc, run_get_bind]
  cases session.functions.find? (·.1 == name) <;> rfl

/-- The functions that a session can define are steady, as long as those that they pass values on to
are and have no sequences in their defaults. -/
theorem Session.BodyExpr.isSteady_of_build {session session' : Session} {s : Signature}
    {body : BodyExpr} {f : Function}
    (hstored : ∀ stored ∈ session.functions, stored.2.IsSteady ∧
      stored.2.signature.names.Nodup ∧ Bindings.IsLazyFree stored.2.signature.defaults)
    (hbuild : (body.build s).run session = some (.ok f, session')) : f.IsSteady := by
  cases body with
  | pairs =>
      cases hbuild
      exact Function.pairing_isSteady s
  | total =>
      cases hbuild
      exact Function.summing_isSteady s
  | param name =>
      cases hbuild
      exact Function.getting_isSteady s name
  | join name sep =>
      cases hbuild
      exact Function.joining_isSteady s name sep
  | forward name target =>
      rw [build, run_functionOf_bind] at hbuild
      cases hfind : session.functions.find? (·.1 == target) with
      | none =>
          rw [hfind] at hbuild
          cases hbuild
      | some stored =>
          rw [hfind] at hbuild
          cases hbuild
          obtain ⟨hsteady, hnames, hdefaults⟩ := hstored stored (List.mem_of_find?_eq_some hfind)
          exact Function.forwarding_isSteady s name hnames hsteady hdefaults

/-- A function is called twice with the same arguments, without sequences. Both calls bind the
arguments to the same values, and the defaults that they take are those that were declared. If no
sequence is in these defaults, the second call gives what the first one gave, and each of them has
the same elements in every state of the sequences. A default that is a sequence has no elements
left for the second call, once the first one took all of them. -/
theorem call_again {name : String} {declarations : List (Declaration Value)} {f : Function}
    (hs : Signature.declare name declarations = .ok f.signature) (hf : f.IsSteady)
    {arguments : List (Argument Value)}
    (hargs : ∀ arg ∈ arguments, arg.value.isLazyFree = true) :
    (∃ bound, (∀ st, (f.signature.bind arguments).run st = some (bound, st)) ∧
      ∀ env, bound = .ok env → ∀ entry ∈ f.signature.taken (keywordsOf arguments),
        env.get? entry.1 = some entry.2) ∧
    ((f.signature.taken (keywordsOf arguments)).IsLazyFree →
      (∀ st result st₁, (f.call arguments).run st = some (result, st₁) →
        ∃ st₂, (f.call arguments).run st₁ = some (result, st₂)) ∧
      ∀ entry ∈ f.signature.taken (keywordsOf arguments), ∃ elements,
        ∀ st, entry.2.materialize.run st = some (elements, st)) ∧
    ∀ entry ∈ f.signature.taken (keywordsOf arguments), ∀ h, entry.2 = .lazy h →
      ∀ st elements st₁, entry.2.materialize.run st = some (.ok elements, st₁) →
        entry.2.materialize.run st₁ = some (.ok [], st₁) := by
  have hnodup := Signature.nodup_of_declare hs
  obtain ⟨bound, hbind, henv⟩ := Signature.bind_of_isLazyFree hnodup hargs
  refine ⟨⟨bound, hbind, fun env hok => (henv env hok).1⟩, fun htaken => ⟨?_, ?_⟩, ?_⟩
  · intro st result st₁ hfirst
    exact (Function.steady_call hnodup hf hargs htaken).exists_run hfirst st₁
  · intro entry hentry
    obtain ⟨elements, hrun, -⟩ := Value.materialize_of_isLazyFree (htaken entry hentry)
    exact ⟨elements, hrun⟩
  · intro entry _ h heq st elements st₁ hrun
    rw [heq] at hrun ⊢
    exact Value.materialize_lazy_again hrun

/-- Joining the items of a list that is the default, while a keyword replaces a sequence. -/
theorem call_again_joining :
    let s : Signature := ⟨"f", [], none,
      [("items", .list [.str (.ofString "a"), .str (.ofString "b")]), ("other", .lazy ⟨0⟩)]⟩
    let f := Function.joining s "items" (.ofString "-")
    let arguments : List (Argument Value) := [.keyword "other" .nothing]
    ∃ st₁ st₂, (f.call arguments).run .empty = some (.ok (.str (.ofString "a-b")), st₁) ∧
      (f.call arguments).run st₁ = some (.ok (.str (.ofString "a-b")), st₂) := by
  intro s f arguments
  have hs : Signature.declare "f" [.keyword "items" (.list [.str (.ofString "a"),
      .str (.ofString "b")]), .keyword "other" (.lazy ⟨0⟩)] = .ok f.signature := by rfl
  have hbuild : (Session.BodyExpr.build s (.join "items" (.ofString "-"))).run Session.start =
      some (.ok f, Session.start) := by rfl
  have hf : f.IsSteady := Session.BodyExpr.isSteady_of_build (List.forall_mem_nil _) hbuild
  have hargs : ∀ arg ∈ arguments, arg.value.isLazyFree = true := by decide
  have htaken : (s.taken (keywordsOf arguments)).IsLazyFree := by
    have heq : s.taken (keywordsOf arguments) =
        [("items", .list [.str (.ofString "a"), .str (.ofString "b")])] := by rfl
    rw [heq]
    exact List.forall_mem_singleton.2 rfl
  have hfirst : (f.call arguments).run .empty =
      some (.ok (.str (.ofString "a-b")), .empty) := by rfl
  obtain ⟨st₂, hsecond⟩ := ((call_again hs hf hargs).2.1 htaken).1 _ _ _ hfirst
  exact ⟨.empty, st₂, hfirst, hsecond⟩

/-- A sequence as default: joining it gives its texts in the first call, and none in the second. -/
theorem call_again_differs :
    let s : Signature := ⟨"f", [], none, [("items", .lazy ⟨0⟩)]⟩
    let f := Function.joining s "items" (.ofString "-")
    let st : Store :=
      ⟨[⟨.eager [.str (.ofString "a"), .str (.ofString "b")] 0, 0⟩], []⟩
    Signature.declare "f" [.keyword "items" (.lazy ⟨0⟩)] = .ok s ∧ f.IsSteady ∧
    ∃ st₁, (f.call []).run st = some (.ok (.str (.ofString "a-b")), st₁) ∧
      (f.call []).run st₁ = some (.ok (.str .empty), st₁) := by
  intro s f st
  have hbind : ∀ t, (s.bind []).run t = some (.ok ⟨[("items", .lazy ⟨0⟩)]⟩, t) := fun t => rfl
  have hstate : st.state ⟨0⟩ = .eager [.str (.ofString "a"), .str (.ofString "b")] 0 := rfl
  have hproduction := funext (Store.production_eager hstate)
  have holds : st.Holds ⟨0⟩ [.str (.ofString "a"), .str (.ofString "b")] :=
    ⟨by simp [hstate], by rw [hproduction]; rfl, by rw [hproduction]; rfl⟩
  obtain ⟨st₁, hrun⟩ := Value.exists_materialize_iff.2 (show (Value.lazy ⟨0⟩).Holds st _ from holds)
  have hagain := Value.materialize_lazy_again hrun
  refine ⟨rfl, Function.joining_isSteady s _ _, st₁, ?_, ?_⟩
  · exact Function.joining_run (hbind st) rfl hrun (.ofString "-")
  · exact Function.joining_run (hbind st₁) rfl hagain (.ofString "-")

end Conformance
