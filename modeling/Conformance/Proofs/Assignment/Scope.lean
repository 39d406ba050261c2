import Conformance.Proofs.Assignment.Unpack
import Conformance.Proofs.Call.Binding
import Conformance.Proofs.Traversal
import Conformance.Session.Run

/-!
# What a scope holds

A scope is read as the map that it stands for: each name has the value that was written to it
last. A change either writes its bindings one after the other, or fails and writes nothing, so
the map after a run is decided by the writes of the changes that succeeded.
-/

namespace Conformance

/-- The value of the last binding of a name. -/
def Bindings.latest? (bindings : Bindings) (name : String) : Option Value :=
  Bindings.get? bindings.reverse name

namespace Bindings

theorem latest?_append (front back : Bindings) (name : String) :
    Bindings.latest? (front ++ back) name = (back.latest? name).or (front.latest? name) := by
  rw [latest?, List.reverse_append, get?_append]
  rfl

theorem latest?_cons (first name : String) (value : Value) (bindings : Bindings) :
    Bindings.latest? ((first, value) :: bindings) name =
      (bindings.latest? name).or (if first = name then some value else none) := by
  calc
    Bindings.latest? ([(first, value)] ++ bindings) name
      = (bindings.latest? name).or (Bindings.get? [(first, value)] name) := latest?_append ..
    _ = (bindings.latest? name).or (if first = name then some value else none) := by
      rw [get?_cons, get?_nil]

theorem isSome_latest?_iff (bindings : Bindings) (name : String) :
    (bindings.latest? name).isSome ↔ name ∈ bindings.map (·.1) := by
  rw [latest?, isSome_get?_iff, List.map_reverse, List.mem_reverse]

theorem latest?_eq_none_iff (bindings : Bindings) (name : String) :
    bindings.latest? name = none ↔ name ∉ bindings.map (·.1) := by
  rw [latest?, get?_eq_none_iff, List.map_reverse, List.mem_reverse]

theorem mem_of_latest? {bindings : Bindings} {name : String} {value : Value}
    (h : bindings.latest? name = some value) : (name, value) ∈ bindings :=
  List.mem_reverse.1 (mem_of_get? h)

/-- Where each name is bound once, its only binding is the last one. -/
theorem latest?_eq_get? {bindings : Bindings} (hnodup : (bindings.map (·.1)).Nodup)
    (name : String) : bindings.latest? name = bindings.get? name := by
  have hreverse : (bindings.reverse.map (·.1)).Nodup := by
    rw [List.map_reverse]
    exact List.nodup_reverse.2 hnodup
  exact get?_of_perm hreverse (List.reverse_perm bindings) name

end Bindings

namespace Scope

/-- The last write of a name counts; a name that is not written keeps its value. -/
theorem get?_write (s : Scope) (bindings : Bindings) (name : String) :
    (s.write bindings).get? name = (bindings.latest? name).or (s.get? name) := by
  induction bindings generalizing s with
  | nil => rfl
  | cons binding rest ih =>
      obtain ⟨first, value⟩ := binding
      have hset : (s.set first value).get? name =
          (if first = name then some value else none).or (s.get? name) := by
        rw [get?_set]
        split <;> rfl
      rw [Bindings.latest?_cons, Option.or_assoc, ← hset]
      exact ih (s.set first value)

theorem load_eq_ok_iff {s : Scope} {name : String} {v : Value} :
    s.load name = .ok v ↔ s.get? name = some v := by
  rw [load]
  cases s.get? name <;> simp

/-- Loading fails for the names that are not bound, and names them. -/
theorem load_eq_error_iff {s : Scope} {name : String} {e : Fault} :
    s.load name = .error e ↔ s.get? name = none ∧ e = .undefinedName name := by
  rw [load]
  cases s.get? name <;> simp [eq_comm]

/-- A scope loads all of some names exactly if all are bound. -/
theorem mapM_load_eq_ok_iff {s : Scope} {names : List String} {values : List Value} :
    names.mapM s.load = .ok values ↔ names.map s.get? = values.map some := by
  rw [mapM_eq_ok_iff, ← List.forall₂_eq_eq_eq, List.forall₂_map_left_iff,
    List.forall₂_map_right_iff]
  simp only [load_eq_ok_iff]

variable {s s' : Scope} {p : Pattern} {names : List String} {values : List Value}

/-- An assignment writes bindings that share out the values among the targets. -/
theorem assign_eq_ok_iff : s.assign p values = .ok s' ↔
    ∃ bindings, Shares p.targets values bindings ∧ s' = s.write bindings := by
  simp only [← Pattern.unpack_eq_ok_iff, assign]
  cases p.unpack values <;> simp [Except.map, eq_comm]

/-- An assignment from names reads all of them in the scope as it is before. -/
theorem assignNames_eq_ok_iff : s.assignNames p names = .ok s' ↔
    ∃ values bindings, names.map s.get? = values.map some ∧ Shares p.targets values bindings ∧
      s' = s.write bindings := by
  simp only [← mapM_load_eq_ok_iff, exists_and_left, ← assign_eq_ok_iff, assignNames]
  cases names.mapM s.load <;> simp [bind, Except.bind]

end Scope

namespace Session

variable {session next : Session}

theorem run_changeScope (f : Scope → Except Fault Scope) (session : Session) :
    (changeScope f).run session = some (match f session.scope with
      | .ok scope => (.ok (.scope scope), { session with scope })
      | .error e => (.error e, session)) := by
  have hget : (changeScope f).run session = (do
      let scope ← liftExcept (f session.scope)
      modify ({ · with scope })
      return .scope scope : Action Answer).run session := rfl
  rw [hget]
  cases f session.scope <;> rfl

theorem run_changeScope_of_ok {f : Scope → Except Fault Scope} {scope : Scope}
    (hf : f session.scope = .ok scope) :
    (changeScope f).run session = some (.ok (.scope scope), { session with scope }) := by
  rw [run_changeScope, hf]

/-- The scope is put in place as a whole, or not at all. -/
theorem changeScope_cases {f : Scope → Except Fault Scope} {result : Except Fault Answer}
    (h : (changeScope f).run session = some (result, next)) :
    (∃ answer, result = .ok answer ∧ f session.scope = .ok next.scope) ∨
    ∃ e, result = .error e ∧ next = session := by
  rw [run_changeScope] at h
  cases hf : f session.scope with
  | ok scope =>
      rw [hf] at h
      cases h
      exact .inl ⟨_, rfl, rfl⟩
  | error e =>
      rw [hf] at h
      cases h
      exact .inr ⟨_, rfl, rfl⟩

theorem run_onStore_bind {α β : Type} (source : Run α) (f : α → Action β) (session : Session) :
    (onStore source >>= f).run session = (source.run session.store).bind fun
      | (.ok a, store) => (f a).run { session with store }
      | (.error e, store) => some (.error e, { session with store }) := by
  rw [ExceptT.run_bind]
  change Option.bind (Option.bind (source.run session.store) _) _ = _
  rw [Option.bind_assoc]
  congr 1
  funext ⟨r, store⟩
  cases r <;> rfl

namespace Change

/-- The names that a change is for, in order. -/
def targets : Change → List String
  | set name _ => [name]
  | assign p _ | assignNames p _ => p.targets.map (·.name)

/-- The bindings that a change writes, in target order. They share out the values of its source
among its targets; names are read before anything is written. -/
inductive Writes (session : Session) : Change → Bindings → Prop
  | set (name : String) (value : Value) : Writes session (.set name value) [(name, value)]
  | assign {p : Pattern} {source : Run (List Value)} {values : List Value} {store : Store}
      {bindings : Bindings} (hsource : source.run session.store = some (.ok values, store))
      (hshares : Shares p.targets values bindings) : Writes session (.assign p source) bindings
  | assignNames {p : Pattern} {names : List String} {values : List Value} {bindings : Bindings}
      (hnames : names.map session.scope.get? = values.map some)
      (hshares : Shares p.targets values bindings) : Writes session (.assignNames p names) bindings

variable {c : Change} {bindings bindings' : Bindings}

theorem Writes.names_eq (h : c.Writes session bindings) : bindings.map (·.1) = c.targets := by
  cases h with
  | set name value => rfl
  | assign hsource hshares => exact hshares.names_eq
  | assignNames hnames hshares => exact hshares.names_eq

theorem Writes.unique (h : c.Writes session bindings) (h' : c.Writes session bindings') :
    bindings = bindings' := by
  cases h with
  | set name value =>
      cases h'
      rfl
  | @assign p source values store _ hsource hshares =>
      cases h' with
      | assign hsource' hshares' =>
          rw [hsource] at hsource'
          cases hsource'
          exact hshares.unique p.one_star hshares'
  | @assignNames p names values _ hnames hshares =>
      cases h' with
      | assignNames hnames' hshares' =>
          have hsome := hnames.symm.trans hnames'
          obtain rfl := List.map_injective_iff.2 (fun _ _ => Option.some.inj) hsome
          exact hshares.unique p.one_star hshares'

/-- A change that has bindings to write succeeds. -/
theorem Writes.exists_make (h : c.Writes session bindings) :
    ∃ answer next, c.make.run session = some (.ok answer, next) := by
  cases h with
  | set name value =>
      rw [make]
      exact ⟨_, _, run_changeScope_of_ok rfl⟩
  | assign hsource hshares =>
      rw [make, run_onStore_bind, hsource]
      exact ⟨_, _, run_changeScope_of_ok (Scope.assign_eq_ok_iff.2 ⟨_, hshares, rfl⟩)⟩
  | assignNames hnames hshares =>
      rw [make]
      exact ⟨_, _, run_changeScope_of_ok
        (Scope.assignNames_eq_ok_iff.2 ⟨_, _, hnames, hshares, rfl⟩)⟩

/-- A change that succeeds writes its bindings; one that fails leaves the scope alone. -/
theorem make_cases {result : Except Fault Answer} (h : c.make.run session = some (result, next)) :
    (∃ answer bindings, result = .ok answer ∧ c.Writes session bindings ∧
      next.scope = session.scope.write bindings) ∨
    ∃ e, result = .error e ∧ next.scope = session.scope := by
  cases c with
  | set name value =>
      rw [make] at h
      obtain ⟨answer, rfl, hscope⟩ | ⟨e, rfl, rfl⟩ := changeScope_cases h
      · exact .inl ⟨answer, _, rfl, .set name value, (Except.ok.inj hscope).symm⟩
      · exact .inr ⟨e, rfl, rfl⟩
  | assign p source =>
      rw [make, run_onStore_bind] at h
      obtain ⟨⟨_ | values, store⟩, hsource, h⟩ := Option.bind_eq_some_iff.1 h
      · cases h
        exact .inr ⟨_, rfl, rfl⟩
      · obtain ⟨answer, rfl, hscope⟩ | ⟨e, rfl, rfl⟩ := changeScope_cases h
        · obtain ⟨bindings, hshares, hwrite⟩ := Scope.assign_eq_ok_iff.1 hscope
          exact .inl ⟨answer, bindings, rfl, .assign hsource hshares, hwrite⟩
        · exact .inr ⟨e, rfl, rfl⟩
  | assignNames p names =>
      rw [make] at h
      obtain ⟨answer, rfl, hscope⟩ | ⟨e, rfl, rfl⟩ := changeScope_cases h
      · obtain ⟨values, bindings, hnames, hshares, hwrite⟩ :=
          Scope.assignNames_eq_ok_iff.1 hscope
        exact .inl ⟨answer, bindings, rfl, .assignNames hnames hshares, hwrite⟩
      · exact .inr ⟨e, rfl, rfl⟩

section Made

variable {result : Except Fault Answer} (h : c.make.run session = some (result, next))

include h

theorem succeeds_iff : (∃ answer, result = .ok answer) ↔ ∃ bindings, c.Writes session bindings := by
  constructor
  · rintro ⟨answer, rfl⟩
    obtain ⟨_, bindings, -, hwrites, -⟩ | ⟨_, herror, -⟩ := make_cases h
    · exact ⟨bindings, hwrites⟩
    · cases herror
  · rintro ⟨bindings, hwrites⟩
    obtain ⟨answer, next', hmake⟩ := hwrites.exists_make
    rw [h] at hmake
    cases hmake
    exact ⟨answer, rfl⟩

theorem scope_eq_of_error {e : Fault} (herror : result = .error e) :
    next.scope = session.scope := by
  obtain ⟨_, _, hok, -⟩ | ⟨_, -, hscope⟩ := make_cases h
  · rw [herror] at hok
    cases hok
  · exact hscope

theorem Writes.scope_eq (hwrites : c.Writes session bindings) :
    next.scope = session.scope.write bindings := by
  obtain ⟨_, bindings', -, hwrites', hscope⟩ | ⟨e, rfl, -⟩ := make_cases h
  · rw [hscope, hwrites.unique hwrites']
  · obtain ⟨answer, hok⟩ := (succeeds_iff h).2 ⟨bindings, hwrites⟩
    cases hok

/-- A change leaves alone the names that are not among its targets. -/
theorem get?_of_not_mem_targets {name : String} (hname : name ∉ c.targets) :
    next.scope.get? name = session.scope.get? name := by
  obtain ⟨_, bindings, -, hwrites, hscope⟩ | ⟨e, -, hscope⟩ := make_cases h
  · rw [← hwrites.names_eq, ← Bindings.latest?_eq_none_iff] at hname
    rw [hscope, Scope.get?_write, hname, Option.none_or]
  · rw [hscope]

/-- A change removes no name. -/
theorem isSome_get?_of_make {name : String} (hname : (session.scope.get? name).isSome) :
    (next.scope.get? name).isSome := by
  obtain ⟨_, bindings, -, -, hscope⟩ | ⟨e, -, hscope⟩ := make_cases h
  · rw [hscope, Scope.get?_write, Option.isSome_or, hname, Bool.or_true]
  · rw [hscope]
    exact hname

end Made

end Change

/-- A run of changes, with the bindings that those that succeeded wrote, in order. -/
inductive Changes (start : Session) : List Bindings → Session → Prop
  | start : Changes start [] start
  | wrote {log : List Bindings} {session next : Session} {answer : Answer} {bindings : Bindings}
      (before : Changes start log session) (c : Change)
      (hmake : c.make.run session = some (.ok answer, next))
      (hwrites : c.Writes session bindings) : Changes start (log ++ [bindings]) next
  | failed {log : List Bindings} {session next : Session} {e : Fault}
      (before : Changes start log session) (c : Change)
      (hmake : c.make.run session = some (.error e, next)) : Changes start log next

/-- After a run each name has the value that was written to it last. -/
theorem Changes.get?_eq {start : Session} {log : List Bindings} (run : Changes start log session)
    (name : String) : session.scope.get? name =
      (Bindings.latest? log.flatten name).or (start.scope.get? name) := by
  induction run with
  | start => rfl
  | @wrote log session next answer bindings before c hmake hwrites ih =>
      calc
        next.scope.get? name
          = (bindings.latest? name).or (session.scope.get? name) := by
            rw [Change.Writes.scope_eq hmake hwrites, Scope.get?_write]
        _ = ((bindings.latest? name).or (Bindings.latest? log.flatten name)).or
              (start.scope.get? name) := by
            rw [ih, Option.or_assoc]
        _ = (Bindings.latest? (log ++ [bindings]).flatten name).or (start.scope.get? name) := by
            rw [List.flatten_append, List.flatten_singleton, Bindings.latest?_append]
  | failed before c hmake ih =>
      rw [Change.scope_eq_of_error hmake rfl]
      exact ih

/-- A run goes on with any change that comes to an end. -/
theorem Changes.exists_make {start session next : Session} {log : List Bindings}
    (run : Changes start log session) {c : Change} {result : Except Fault Answer}
    (hmake : c.make.run session = some (result, next)) :
    ∃ later, Changes start (log ++ later) next := by
  cases result with
  | ok answer =>
      obtain ⟨bindings, hwrites⟩ := (Change.succeeds_iff hmake).1 ⟨answer, rfl⟩
      exact ⟨[bindings], run.wrote c hmake hwrites⟩
  | error e =>
      refine ⟨[], ?_⟩
      rw [List.append_nil]
      exact run.failed c hmake

end Session

open Session in
/-- A scope that is empty at first goes through a run of changes. It then stands for the map that
the writes of the changes that succeeded make, one after the other; loading a name fails exactly
if none of them wrote it. The run goes on with any change. The change succeeds exactly if it has
bindings to write, writes them in target order and leaves the other names alone; a change that
fails leaves the scope as it was, and no change removes a name. -/
theorem scope_of_changes {start session : Session} {log : List Bindings}
    (hstart : start.scope = .empty) (run : Changes start log session) :
    (∀ name, session.scope.get? name = Bindings.latest? log.flatten name) ∧
    (∀ name e, session.scope.load name = .error e ↔
      name ∉ log.flatten.map (·.1) ∧ e = .undefinedName name) ∧
    ∀ (c : Change) result next, c.make.run session = some (result, next) →
      (∃ later, Changes start (log ++ later) next) ∧
      ((∃ answer, result = .ok answer) ↔ ∃ bindings, c.Writes session bindings) ∧
      (∀ bindings, c.Writes session bindings → bindings.map (·.1) = c.targets ∧
        ∀ name, next.scope.get? name = (bindings.latest? name).or (session.scope.get? name)) ∧
      (∀ e, result = .error e → next.scope = session.scope) ∧
      (∀ name, name ∉ c.targets → next.scope.get? name = session.scope.get? name) ∧
      ∀ name, (session.scope.get? name).isSome → (next.scope.get? name).isSome := by
  have hmap : ∀ name, session.scope.get? name = Bindings.latest? log.flatten name := by
    intro name
    rw [run.get?_eq, hstart]
    exact Option.or_none
  refine ⟨hmap, ?_, ?_⟩
  · intro name e
    rw [Scope.load_eq_error_iff, hmap, Bindings.latest?_eq_none_iff]
  · intro c result next hmake
    refine ⟨run.exists_make hmake, Change.succeeds_iff hmake, ?_, fun _ => Change.scope_eq_of_error hmake,
      fun _ => Change.get?_of_not_mem_targets hmake, fun _ => Change.isSome_get?_of_make hmake⟩
    intro bindings hwrites
    refine ⟨hwrites.names_eq, fun name => ?_⟩
    rw [Change.Writes.scope_eq hmake hwrites, Scope.get?_write]

open Session in
/-- A name set, an assignment of too many values, one with a repeated name around a star, and one
from a name that was never written. -/
theorem scope_of_changes_repeated :
    Session.start.scope = .empty ∧ ∃ session,
      Changes Session.start
        [[("a", .int 10)], [("a", .int 1), ("b", .list [.int 2, .int 3]), ("a", .int 4)]] session ∧
      session.scope.get? "a" = some (.int 4) ∧
      session.scope.load "c" = .error (.undefinedName "c") := by
  let plain : Pattern := ⟨[⟨"a", false⟩, ⟨"b", false⟩], by decide⟩
  let starred : Pattern := ⟨[⟨"a", false⟩, ⟨"b", true⟩, ⟨"a", false⟩], by decide⟩
  have run := (Changes.start : Changes Session.start [] Session.start)
    |>.wrote (.set "a" (.int 10)) rfl (.set "a" (.int 10))
    |>.failed (.assign plain (pure [.int 1, .int 2, .int 3])) rfl
    |>.wrote (.assign starred (pure [.int 1, .int 2, .int 3, .int 4])) rfl
      (.assign rfl (.plain "a" _ (.starred "b" [.int 2, .int 3] (.plain "a" _ .nil))))
    |>.failed (.assignNames starred ["a", "c"]) rfl
  obtain ⟨hmap, hload, -⟩ := scope_of_changes rfl run
  exact ⟨rfl, _, run, hmap "a", (hload "c" _).2 ⟨by decide, rfl⟩⟩

end Conformance
