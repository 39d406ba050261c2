import Conformance.Proofs.Sequence.Production
import Conformance.Sequence.Producers
import Conformance.Sequence.Run

/-!
# Uses of one sequence

Pulls, takes, drains and looks at one sequence may follow each other in any order. Whoever holds
the handle uses the same sequence, so the handle stands for all its copies. All uses together are
one series of single pulls, which gives the production from its beginning and misses nothing.
-/

namespace Conformance

/-- A use of a sequence from outside its steps. -/
inductive Use where
  | tryNext
  | next
  | take (limit : ℕ)
  | drain
  | isExhausted
  deriving DecidableEq

/-- What a use yields. -/
inductive Yield where
  | pulled (value : Option Value)
  | values (all : List Value)
  | truth (value : Bool)

/-- The values that were delivered. -/
def Yield.delivered : Yield → List Value
  | pulled value => value.toList
  | values all => all
  | truth _ => []

namespace Use

/-- Uses a sequence. -/
def perform (h : Handle) : Use → Run Yield
  | tryNext => .pulled <$> Sequence.tryNext h
  | next => .pulled <$> Sequence.next h
  | take limit => .values <$> Sequence.take h limit
  | drain => .values <$> Sequence.drain h
  | isExhausted => .truth <$> Sequence.isExhausted h

/-- How many single pulls a use made. A drain, and a take that was given fewer values than it
asked for, went on until one pull gave none. -/
def pulls : Use → Yield → ℕ
  | tryNext, _ | next, _ => 1
  | take limit, yield => min limit (yield.delivered.length + 1)
  | drain, yield => yield.delivered.length + 1
  | isExhausted, _ => 0

/-- Uses a sequence again and again. -/
def performAll (h : Handle) (uses : List Use) : Run (List Yield) := uses.mapM (perform h)

/-- How many single pulls a list of uses made. -/
def pullsOfAll (uses : List Use) (yields : List Yield) : ℕ := (List.zipWith pulls uses yields).sum

end Use

open Store (Pulls)

variable {s s' : Store} {h : Handle}

namespace Sequence

theorem run_next_eq_some_iff (hs : s.state h ≠ .running) {r : Except Fault (Option Value)} :
    (next h).run s = some (r, s') ↔ ∃ value, r = .ok value ∧ s.pull h = some (.ok value, s') := by
  rw [run_next, Option.map_eq_some_iff]
  constructor
  · rintro ⟨⟨r₁, s₁⟩, hpull, heq⟩
    obtain ⟨⟨value, rfl⟩, -⟩ := Store.pull_idle hs hpull
    cases heq
    exact ⟨value, rfl, hpull⟩
  · rintro ⟨value, rfl, hpull⟩
    exact ⟨_, hpull, rfl⟩

/-- A take is a series of pulls that ends with the first none, or with the last value it wants. -/
theorem take_pulls (hs : s.state h ≠ .running) {limit : ℕ} {r : Except Fault (List Value)}
    (hrun : (take h limit).run s = some (r, s')) :
    ∃ values rs, r = .ok values ∧ Pulls h s rs s' ∧ rs.reduceOption = values ∧
      rs.length = min limit (values.length + 1) := by
  induction limit generalizing s r with
  | zero =>
      cases hrun
      exact ⟨[], [], rfl, .refl, rfl, by simp⟩
  | succ limit ih =>
      rw [take, Run.bind_eq_some_iff] at hrun
      simp only [run_next_eq_some_iff hs] at hrun
      obtain ⟨value, s₁, ⟨_, heq, hpull⟩, hrest⟩ | ⟨e, ⟨value, heq, -⟩, -⟩ := hrun
      · cases heq
        cases value with
        | none =>
            cases hrest
            exact ⟨[], [none], rfl, .single hpull, rfl, by simp⟩
        | some v =>
            have hs₁ := (Store.pull_idle hs hpull).2
            obtain ⟨values, s₂, htake, hend⟩ | ⟨e, htake, rfl⟩ := Run.bind_eq_some_iff.1 hrest
            · cases hend
              obtain ⟨_, rs, heq, series, hvalues, hlength⟩ := ih hs₁ htake
              cases heq
              refine ⟨v :: values, some v :: rs, rfl, .pull hpull series, ?_, ?_⟩
              · rw [List.reduceOption_cons_of_some, hvalues]
              · simp [hlength]
            · obtain ⟨_, _, heq, -⟩ := ih hs₁ htake
              cases heq
      · cases heq

end Sequence

namespace Use

/-- A use is a series of single pulls, and yields what these give. -/
theorem perform_pulls (hs : s.state h ≠ .running) {use : Use} {r : Except Fault Yield}
    (hrun : (use.perform h).run s = some (r, s')) :
    ∃ yield rs, r = .ok yield ∧ Pulls h s rs s' ∧ rs.reduceOption = yield.delivered ∧
      rs.length = use.pulls yield ∧ (use = .drain → none ∈ rs) := by
  cases use with
  | tryNext =>
      obtain ⟨_, hpull, rfl⟩ := Run.map_eq_some_iff.1 hrun
      obtain ⟨⟨value, rfl⟩, -⟩ := Store.pull_idle hs hpull
      exact ⟨.pulled value, [value], rfl, .single hpull, List.reduceOption_singleton value, rfl,
        nofun⟩
  | next =>
      obtain ⟨_, hnext, rfl⟩ := Run.map_eq_some_iff.1 hrun
      obtain ⟨value, rfl, hpull⟩ := (Sequence.run_next_eq_some_iff hs).1 hnext
      exact ⟨.pulled value, [value], rfl, .single hpull, List.reduceOption_singleton value, rfl,
        nofun⟩
  | take limit =>
      obtain ⟨_, htake, rfl⟩ := Run.map_eq_some_iff.1 hrun
      obtain ⟨values, rs, rfl, series, hvalues, hlength⟩ := Sequence.take_pulls hs htake
      exact ⟨.values values, rs, rfl, series, hvalues, hlength, nofun⟩
  | drain =>
      obtain ⟨r₁, hdrain, rfl⟩ := Run.map_eq_some_iff.1 hrun
      obtain ⟨values, rfl, series⟩ := (Store.drain_eq_some_iff hs [] r₁).1 hdrain
      refine ⟨.values values, _, rfl, series, ?_, ?_, fun _ => by simp⟩
      · simp [List.reduceOption, Yield.delivered]
      · simp [pulls, Yield.delivered]
  | isExhausted =>
      obtain ⟨_, hexhausted, rfl⟩ := Run.map_eq_some_iff.1 hrun
      rw [Sequence.run_isExhausted] at hexhausted
      cases hexhausted
      exact ⟨.truth _, [], rfl, .refl, rfl, rfl, nofun⟩

/-- Uses that follow each other are one series of single pulls. -/
theorem performAll_pulls (hs : s.state h ≠ .running) {uses : List Use}
    {r : Except Fault (List Yield)} (hrun : (performAll h uses).run s = some (r, s')) :
    ∃ yields rs, r = .ok yields ∧ yields.length = uses.length ∧ Pulls h s rs s' ∧
      rs.reduceOption = yields.flatMap Yield.delivered ∧ rs.length = pullsOfAll uses yields ∧
      (.drain ∈ uses → none ∈ rs) := by
  induction uses generalizing s r with
  | nil =>
      cases hrun
      exact ⟨[], [], rfl, rfl, .refl, rfl, rfl, nofun⟩
  | cons use uses ih =>
      rw [performAll, List.mapM_cons, Run.bind_eq_some_iff] at hrun
      obtain ⟨yield, s₁, huse, hrun⟩ | ⟨e, huse, -⟩ := hrun
      · obtain ⟨_, rs, heq, series, hvalues, hlength, hnone⟩ := perform_pulls hs huse
        cases heq
        have hs₁ := series.state_ne_running hs
        obtain ⟨yields, s₂, huses, hend⟩ | ⟨e, huses, -⟩ := Run.bind_eq_some_iff.1 hrun
        · cases hend
          obtain ⟨_, rs', heq, hcount, series', hvalues', hlength', hnone'⟩ := ih hs₁ huses
          cases heq
          refine ⟨yield :: yields, rs ++ rs', rfl, ?_, series.append series', ?_, ?_, ?_⟩
          · rw [List.length_cons, hcount, List.length_cons]
          · rw [List.reduceOption_append, hvalues, hvalues', List.flatMap_cons]
          · rw [List.length_append, hlength, hlength']
            rfl
          · intro hmem
            rcases List.mem_cons.1 hmem with heq | hmem
            · exact List.mem_append_left _ (hnone heq.symm)
            · exact List.mem_append_right _ (hnone' hmem)
        · obtain ⟨_, _, heq, -⟩ := ih hs₁ huses
          cases heq
      · obtain ⟨_, _, heq, -⟩ := perform_pulls hs huse
        cases heq

end Use

section Ends

variable {s₀ : Store} {n : ℕ}

/-- A drain comes to an end if the production does. -/
theorem Store.Stands.drain_ends (stands : s₀.Stands h n s) (htotal : (s₀.production h).Total)
    (hend : (s₀.production h).length ≠ ⊤) (seen : List Value) :
    ∃ o, s.drain h seen = some o := by
  obtain ⟨last, hlast⟩ := Production.length_ne_top_iff.1 hend
  obtain ⟨left, hleft⟩ : ∃ left, last ≤ n + left := ⟨last, Nat.le_add_left ..⟩
  induction left generalizing s n seen with
  | zero =>
      obtain ⟨value, s₁, hpull⟩ := stands.isSome_pull (htotal.fused n)
      obtain ⟨-, _, heq, hvalue⟩ := stands.pull hpull
      rw [Production.fused_of_none hlast (by simpa using hleft)] at hvalue
      cases heq
      cases hvalue
      exact ⟨_, Store.drain_of_none hpull seen⟩
  | succ left ih =>
      obtain ⟨value, s₁, hpull⟩ := stands.isSome_pull (htotal.fused n)
      cases value with
      | none => exact ⟨_, Store.drain_of_none hpull seen⟩
      | some v =>
          obtain ⟨o, ho⟩ := ih (stands.pull hpull).1 (v :: seen) (by omega)
          exact ⟨o, (Store.drain_of_some hpull seen).trans ho⟩

theorem Store.Stands.take_ends (stands : s₀.Stands h n s) (htotal : (s₀.production h).Total)
    (limit : ℕ) : ∃ o, (Sequence.take h limit).run s = some o := by
  induction limit generalizing s n with
  | zero => exact ⟨_, rfl⟩
  | succ limit ih =>
      obtain ⟨value, s₁, hpull⟩ := stands.isSome_pull (htotal.fused n)
      have hnext := (Sequence.run_next_eq_some_iff stands.ne_running).2 ⟨value, rfl, hpull⟩
      cases value with
      | none =>
          refine ⟨(.ok [], s₁), ?_⟩
          rw [Sequence.take]
          exact Run.run_bind_of_ok hnext _
      | some v =>
          obtain ⟨⟨r, s₂⟩, htake⟩ := ih (stands.pull hpull).1
          have hstands₁ := (stands.pull hpull).1
          obtain ⟨values, _, rfl, -⟩ := Sequence.take_pulls hstands₁.ne_running htake
          refine ⟨(.ok (v :: values), s₂), ?_⟩
          rw [Sequence.take, Run.run_bind_of_ok hnext]
          exact Run.run_bind_of_ok htake _

theorem Use.perform_ends (stands : s₀.Stands h n s) (htotal : (s₀.production h).Total) (use : Use)
    (hdrain : use = .drain → (s₀.production h).length ≠ ⊤) :
    ∃ o, (use.perform h).run s = some o := by
  have hpull := stands.isSome_pull (htotal.fused n)
  cases use with
  | tryNext =>
      obtain ⟨value, s₁, hpull⟩ := hpull
      exact ⟨_, Run.map_eq_ok_iff.2 ⟨value, hpull, rfl⟩⟩
  | next =>
      obtain ⟨value, s₁, hpull⟩ := hpull
      have hnext := (Sequence.run_next_eq_some_iff stands.ne_running).2 ⟨value, rfl, hpull⟩
      exact ⟨_, Run.map_eq_ok_iff.2 ⟨value, hnext, rfl⟩⟩
  | take limit =>
      obtain ⟨o, htake⟩ := stands.take_ends htotal limit
      exact ⟨_, Run.map_eq_some_iff.2 ⟨o.1, htake, rfl⟩⟩
  | drain =>
      obtain ⟨o, ho⟩ := stands.drain_ends htotal (hdrain rfl) []
      exact ⟨_, Run.map_eq_some_iff.2 ⟨o.1, ho, rfl⟩⟩
  | isExhausted =>
      exact ⟨_, Run.map_eq_ok_iff.2 ⟨_, Sequence.run_isExhausted h s, rfl⟩⟩

/-- Uses come to an end if the production does, or if there is no drain among them. -/
theorem Use.performAll_ends (stands : s₀.Stands h n s) (htotal : (s₀.production h).Total)
    (uses : List Use) (hdrain : .drain ∈ uses → (s₀.production h).length ≠ ⊤) :
    ∃ o, (performAll h uses).run s = some o := by
  induction uses generalizing s n with
  | nil => exact ⟨_, rfl⟩
  | cons use uses ih =>
      obtain ⟨⟨r, s₁⟩, huse⟩ := Use.perform_ends stands htotal use
        fun heq => hdrain (heq ▸ List.mem_cons_self ..)
      obtain ⟨yield, rs, rfl, series, -⟩ := Use.perform_pulls stands.ne_running huse
      have hstands₁ := (stands.pulls series).1
      obtain ⟨⟨r, s₂⟩, huses⟩ := ih hstands₁ fun hmem => hdrain (List.mem_cons_of_mem _ hmem)
      obtain ⟨yields, _, rfl, -⟩ := Use.performAll_pulls hstands₁.ne_running huses
      refine ⟨(.ok (yield :: yields), s₂), ?_⟩
      rw [performAll, List.mapM_cons, Run.run_bind_of_ok huse]
      exact Run.run_bind_of_ok huses _

end Ends

/-- A sequence over values or over a generator is used in any way and order, through any of its
handles; a step that pulls its own sequence is refused. Of the uses that come to an end, the
single pulls give the production up to its first none and none from there on, the values
delivered are the values of the production that come before it, and a generator is begun once
for each of them and once for the none. The sequence is exhausted when a pull has given none.
If the calls of the producer end, then uses come to an end unless they drain a production
without end. -/
theorem uses_deliver_production {s : Store} {h : Handle} (hopen : (s.state h).isOpen)
    (uses : List Use) :
    let p := s.production h
    (∀ r s', (Use.performAll h uses).run s = some (r, s') →
      ∃ yields rs, r = .ok yields ∧ yields.length = uses.length ∧
        Pulls h s rs s' ∧ rs.length = Use.pullsOfAll uses yields ∧
        rs.map some = (List.range rs.length).map
          (fun n : ℕ => if (n : ℕ∞) ≤ p.length then p n else some none) ∧
        (∃ m : ℕ, (m : ℕ∞) = min (rs.length : ℕ∞) p.length ∧
          (yields.flatMap Yield.delivered).map (fun v => some (some v)) =
            (List.range m).map p) ∧
        (∀ g past, s.state h = .waiting g past →
          (s'.calls h : ℕ∞) = s.calls h + min (rs.length : ℕ∞) (p.length + 1)) ∧
        (Sequence.isExhausted h).run s' = some (.ok (decide (none ∈ rs)), s')) ∧
    (p.Total → (((Use.performAll h uses).run s).isSome ↔ (.drain ∈ uses → p.length ≠ ⊤))) := by
  intro p
  have hs : s.state h ≠ .running := (Store.Stands.start hopen).ne_running
  constructor
  · intro r s' hrun
    obtain ⟨yields, rs, hr, hcount, series, hvalues, hlength, -⟩ := Use.performAll_pulls hs hrun
    obtain ⟨stands, hrs⟩ := (Store.Stands.start hopen).pulls series
    rw [Nat.zero_add] at stands
    rw [← List.range_eq_range'] at hrs
    refine ⟨yields, rs, hr, hcount, series, hlength, hrs, ?_, fun g past => stands.calls_eq, ?_⟩
    · rw [← hvalues]
      exact Production.exists_values hrs
    · have hexhausted : (s'.state h).isExhausted = decide (none ∈ rs) := by
        rw [Bool.eq_iff_iff, decide_eq_true_iff, Production.none_mem_iff hrs]
        exact stands.isExhausted_iff
      rw [Sequence.run_isExhausted, hexhausted]
  · intro htotal
    constructor
    · intro hsome hdrain
      obtain ⟨⟨r, s'⟩, hrun⟩ := Option.isSome_iff_exists.1 hsome
      obtain ⟨yields, rs, hr, hcount, series, hvalues, hlength, hnone⟩ :=
        Use.performAll_pulls hs hrun
      obtain ⟨-, hrs⟩ := (Store.Stands.start hopen).pulls series
      rw [← List.range_eq_range'] at hrs
      exact ne_top_of_lt ((Production.none_mem_iff hrs).1 (hnone hdrain))
    · intro hdrain
      obtain ⟨o, ho⟩ := Use.performAll_ends (Store.Stands.start hopen) htotal uses hdrain
      rw [ho]
      rfl

/-- A generator that would go on after its first none. -/
theorem uses_deliver_production_scripted :
    let s : Store :=
      ⟨[⟨.waiting (.ofCalls [some (.int 1), none, some (.int 2)]) [], 0⟩], []⟩
    let uses := [.next, .take 2, .drain, .isExhausted]
    (s.state ⟨0⟩).isOpen ∧ ∀ r s', (Use.performAll ⟨0⟩ uses).run s = some (r, s') →
      ∃ rs, Pulls ⟨0⟩ s rs s' ∧
        (s'.calls ⟨0⟩ : ℕ∞) = 0 + min (rs.length : ℕ∞) ((s.production ⟨0⟩).length + 1) := by
  intro s uses
  have hopen : (s.state ⟨0⟩).isOpen := rfl
  refine ⟨hopen, fun r s' hrun => ?_⟩
  obtain ⟨yields, rs, -, -, series, -, -, -, hcalls, -⟩ :=
    (uses_deliver_production hopen uses).1 r s' hrun
  exact ⟨rs, series, hcalls _ _ rfl⟩

end Conformance
