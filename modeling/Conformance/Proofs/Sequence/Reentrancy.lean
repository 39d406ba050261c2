import Mathlib.Data.List.Nodup
import Conformance.Proofs.Sequence.Machine
import Conformance.Sequence.Producers

/-!
# Pulls from inside of steps

Whatever a program and the steps of the generators do, a step is never begun while it is in
progress, a pull from a sequence whose step is in progress changes nothing, and each sequence
goes on as if its own pulls were all that happened.

The invariant says of every moment that the running sequences are those whose steps are in
progress, each once, and that the state of a sequence is what its own deliveries made of it. A
sequence whose step is in progress is put back into the state from which the step was begun.
-/

namespace Conformance

/-- From one step to what is left of it after some exchanges. -/
inductive Step.Leads : Step → List Exchange → Step → Prop
  | refl {t : Step} : Leads t [] t
  | ask {q : Query} {next : q.Answer → Step} {a : q.Answer} {log : List Exchange} {t : Step}
      (tail : Leads (next a) log t) : Leads (.ask q next) (⟨q, a⟩ :: log) t

theorem Step.Leads.answer {t : Step} {log : List Exchange} {q : Query}
    {next : q.Answer → Step} (h : t.Leads log (.ask q next)) (a : q.Answer) :
    t.Leads (log ++ [⟨q, a⟩]) (next a) := by
  generalize hu : Step.ask q next = u at h
  induction h with
  | refl =>
      subst hu
      exact .ask .refl
  | ask tail ih => exact .ask (ih hu)

/-- What one pull that is not refused does to a sequence on its own: the value that it gives, what
its step asked and was told, and the state afterwards. -/
inductive State.Gives : State → Option Value → List Exchange → State → Prop
  | item {items : List Value} {cursor : Nat} {v : Value} (h : items[cursor]? = some v) :
      Gives (eager items cursor) (some v) [] (eager items (cursor + 1))
  | last {items : List Value} {cursor : Nat} (h : items[cursor]? = none) :
      Gives (eager items cursor) none [] exhausted
  | value {g : Generator} {past : Past} {log : List Exchange} {v : Value}
      (h : (g.step past).Leads log (.finish (some v))) :
      Gives (waiting g past) (some v) log (waiting g (log :: past))
  | ended {g : Generator} {past : Past} {log : List Exchange}
      (h : (g.step past).Leads log (.finish none)) : Gives (waiting g past) none log exhausted
  | again : Gives exhausted none [] exhausted

theorem State.Gives.eq_exhausted_of_exhausted {value : Option Value} {log : List Exchange}
    {after : State} (h : exhausted.Gives value log after) : after = .exhausted := by
  cases h
  rfl

theorem State.Gives.eq_exhausted_of_none {state after : State} {log : List Exchange}
    (h : state.Gives none log after) : after = .exhausted := by
  cases h <;> rfl

/-- What a series of deliveries does to a sequence on its own. -/
inductive State.Lives : State → List Delivery → State → Prop
  | refl {state : State} : Lives state [] state
  | more {first state after : State} {ds : List Delivery} {d : Delivery}
      (life : Lives first ds state) (gives : state.Gives d.value d.log after) :
      Lives first (ds ++ [d]) after

/-- A sequence that once gave no value is exhausted for ever. -/
theorem State.Lives.exhausted_of_none {first state : State} {ds : List Delivery}
    (life : first.Lives ds state) (h : ∃ d ∈ ds, d.value = none) : state = .exhausted := by
  induction life with
  | refl => simp at h
  | @more state after ds d life gives ih =>
      obtain ⟨e, he, hnone⟩ := h
      rcases List.mem_append.1 he with he | he
      · rw [ih ⟨e, he, hnone⟩] at gives
        exact gives.eq_exhausted_of_exhausted
      · rw [← List.mem_singleton.1 he, hnone] at gives
        exact gives.eq_exhausted_of_none

/-- The deliveries of one sequence. -/
def deliveriesOf (h : Handle) (ds : List Delivery) : List Delivery :=
  ds.filter (·.sequence = h)

theorem deliveriesOf_self (h : Handle) (ds : List Delivery) (value : Option Value)
    (log : List Exchange) :
    deliveriesOf h (ds ++ [⟨h, value, log⟩]) = deliveriesOf h ds ++ [⟨h, value, log⟩] := by
  simp [deliveriesOf]

theorem deliveriesOf_of_ne {h k : Handle} (hne : h ≠ k) (ds : List Delivery)
    (value : Option Value) (log : List Exchange) :
    deliveriesOf h (ds ++ [⟨k, value, log⟩]) = deliveriesOf h ds := by
  simp [deliveriesOf, Ne.symm hne]

/-- No sequence has a step in progress. -/
def Store.Settled (s : Store) : Prop := ∀ h, s.state h ≠ .running

/-- The steps in progress at a site are what is left, after their exchanges, of the steps with
which their generators go on, and the states of their sequences before these steps have the
property `P`. The innermost step is left with `t`. -/
def Site.Sound (P : Handle → State → Prop) : Step → Site → Prop
  | _, outside _ => True
  | t, inside h g past log q next _ caller =>
    P h (.waiting g past) ∧ (g.step past).Leads log t ∧ caller.Sound P (.ask q next)

namespace Site

variable {P Q : Handle → State → Prop}

theorem Sound.mono {t : Step} {site : Site} (hs : site.Sound P t)
    (hPQ : ∀ h ∈ site.active, ∀ state, P h state → Q h state) : site.Sound Q t := by
  induction site generalizing t with
  | outside => trivial
  | inside h g past log q next seen caller ih =>
      obtain ⟨hP, hlead, hcaller⟩ := hs
      refine ⟨hPQ h (by simp [active]) _ hP, hlead, ih hcaller fun k hk => ?_⟩
      exact hPQ k (by simp [active, hk])

theorem Sound.answer {q : Query} {next : q.Answer → Step} {site : Site}
    (hs : site.Sound P (.ask q next)) (a : q.Answer) :
    (site.learn [⟨q, a⟩]).Sound P (next a) := by
  cases site with
  | outside => trivial
  | inside => exact ⟨hs.1, hs.2.1.answer a, hs.2.2⟩

end Site

/-- What the machine does next is sound for its site. -/
def Control.Sound (P : Handle → State → Prop) : Control → Prop
  | run t site => site.Sound P t
  | ask q next _ site => site.Sound P (.ask q next)

theorem Control.sound_receive {P : Handle → State → Prop} {q : Query}
    {next : q.Answer → Step} {site : Site} (hs : site.Sound P (.ask q next))
    (seen : List Value) (r : Except Fault (Option Value)) :
    (receive seen site q next r).Sound P := by
  cases q with
  | tryNext => exact hs.answer _
  | next => exact hs.answer _
  | drain =>
      obtain e | _ | v := r
      · exact hs.answer _
      · exact hs.answer _
      · exact hs
  | exhausted | describe | resolve => exact hs

namespace Machine

/-- The invariant of a run from the store `s₀` in which the deliveries `ds` were made. -/
structure Sound (s₀ : Store) (ds : List Delivery) (c : Machine) : Prop where
  nodup : c.active.Nodup
  running_iff : ∀ h, c.store.state h = .running ↔ h ∈ c.active
  idle : ∀ h, h ∉ c.active → (s₀.state h).Lives (deliveriesOf h ds) (c.store.state h)
  busy : c.control.Sound fun h state => (s₀.state h).Lives (deliveriesOf h ds) state

/-- The invariant holds at every moment at which no step is in progress. -/
theorem sound_of_idle {c : Machine} (hactive : c.active = []) (hs : c.store.Settled) :
    Sound c.store [] c where
  nodup := hactive ▸ List.nodup_nil
  running_iff h := by simp [hactive, hs h]
  idle h _ := .refl
  busy := by
    obtain ⟨control, s⟩ := c
    cases control with
    | run step site | ask q next seen site =>
        cases site with
        | outside => trivial
        | inside => cases hactive

/-- A delivery of a sequence whose step is not, or no longer, in progress. -/
theorem sound_deliver {s₀ s s' : Store} {ds : List Delivery} {h : Handle} {state : State}
    {value : Option Value} {log : List Exchange} {q : Query} {next : q.Answer → Step}
    {site : Site} (seen : List Value) (r : Except Fault (Option Value))
    (hlife : (s₀.state h).Lives (deliveriesOf h ds) state)
    (hgives : state.Gives value log (s'.state h)) (hh : h ∉ site.active)
    (hsame : ∀ k, k ≠ h → s'.state k = s.state k) (hnodup : site.active.Nodup)
    (hrunning : ∀ k, k ≠ h → (s.state k = .running ↔ k ∈ site.active))
    (hidle : ∀ k, k ≠ h → k ∉ site.active →
      (s₀.state k).Lives (deliveriesOf k ds) (s.state k))
    (hbusy : site.Sound (fun k state => (s₀.state k).Lives (deliveriesOf k ds) state)
      (.ask q next)) :
    Sound s₀ (ds ++ [⟨h, value, log⟩]) ⟨.receive seen site q next r, s'⟩ := by
  constructor
  · rw [active_receive]
    exact hnodup
  · intro k
    rw [active_receive]
    by_cases hk : k = h
    · subst hk
      have hne : s'.state k ≠ .running := by
        intro heq
        rw [heq] at hgives
        cases hgives
      simp [hne, hh]
    · rw [hsame k hk]
      exact hrunning k hk
  · intro k hka
    rw [active_receive] at hka
    by_cases hk : k = h
    · subst hk
      rw [deliveriesOf_self]
      exact hlife.more hgives
    · rw [deliveriesOf_of_ne hk, hsame k hk]
      exact hidle k hk hka
  · apply Control.sound_receive
    apply hbusy.mono
    intro k hk state hstate
    have hne : k ≠ h := by
      rintro rfl
      exact hh hk
    rw [deliveriesOf_of_ne hne]
    exact hstate

/-- A pull keeps the invariant. -/
theorem Sound.pull {s₀ s : Store} {ds : List Delivery} {q : Query} {next : q.Answer → Step}
    {seen : List Value} {site : Site} {h : Handle} (hq : q.pulled? = some h)
    (hc : Sound s₀ ds ⟨.ask q next seen site, s⟩) :
    Sound s₀ (ds ++ deliveries ⟨.ask q next seen site, s⟩) (pull h q next seen site s) := by
  have hidle : ∀ k, k ≠ h → k ∉ site.active →
      (s₀.state k).Lives (deliveriesOf k ds) (s.state k) := fun k _ hk => hc.idle k hk
  have hnot : s.state h ≠ .running → h ∉ site.active := fun hne hh =>
    hne ((hc.running_iff h).2 hh)
  simp only [deliveries, hq, Machine.pull]
  cases hs : s.state h with
  | eager items cursor =>
      have hh := hnot (by simp [hs])
      have hlt : h.index < s.cells.length := Store.index_lt_of_state (by simp [hs])
      refine sound_deliver (s := s) seen _ (hc.idle h hh) ?_ hh ?_ hc.nodup
        (fun k _ => hc.running_iff k) hidle hc.busy
      · rw [hs, Store.state_setState, if_pos ⟨rfl, hlt⟩]
        by_cases hcur : cursor < items.length
        · rw [if_pos hcur, List.getElem?_eq_getElem hcur]
          exact .item (List.getElem?_eq_getElem hcur)
        · have hnone := List.getElem?_eq_none (Nat.le_of_not_lt hcur)
          rw [if_neg hcur, hnone]
          exact .last hnone
      · intro k hk
        rw [Store.state_setState, if_neg fun heq => hk heq.1.symm]
  | running =>
      rw [List.append_nil]
      refine ⟨?_, ?_, ?_, Control.sound_receive hc.busy ..⟩ <;> rw [active_receive]
      · exact hc.nodup
      · exact hc.running_iff
      · exact hc.idle
  | exhausted =>
      have hh := hnot (by simp [hs])
      refine sound_deliver (s := s) seen _ (hc.idle h hh) ?_ hh (fun k _ => rfl) hc.nodup
        (fun k _ => hc.running_iff k) hidle hc.busy
      rw [hs]
      exact .again
  | waiting g past =>
      have hh := hnot (by simp [hs])
      have hlt : h.index < s.cells.length := Store.index_lt_of_state (by simp [hs])
      rw [List.append_nil]
      constructor
      · exact List.nodup_cons.2 ⟨hh, hc.nodup⟩
      · intro k
        rw [Store.state_enter]
        by_cases hk : h = k
        · simp [hk, active, Control.site, Site.active, hk ▸ hlt]
        · rw [if_neg fun heq => hk heq.1]
          have := hc.running_iff k
          simpa [active, Control.site, Site.active, Ne.symm hk] using this
      · intro k hka
        have hk : k ≠ h ∧ k ∉ site.active := by
          simpa [active, Control.site, Site.active] using hka
        rw [Store.state_enter, if_neg fun heq => hk.1 heq.1.symm]
        exact hc.idle k hk.2
      · refine ⟨?_, .refl, hc.busy⟩
        rw [← hs]
        exact hc.idle h hh

/-- A step that finishes delivers for its own sequence, and puts it back. -/
theorem Sound.finish {s₀ s : Store} {ds : List Delivery} {value : Option Value} {h : Handle}
    {g : Generator} {past : Past} {log : List Exchange} {q : Query} {next : q.Answer → Step}
    {seen : List Value} {caller : Site}
    (hc : Sound s₀ ds ⟨.run (.finish value) (.inside h g past log q next seen caller), s⟩) :
    Sound s₀ (ds ++ [⟨h, value, log⟩])
      ⟨.receive seen caller q next (.ok value), s.leave h g (log :: past) value⟩ := by
  obtain ⟨hlife, hlead, hcaller⟩ := hc.busy
  obtain ⟨hh, hnodup⟩ := List.nodup_cons.1 hc.nodup
  have hrun : s.state h = .running := (hc.running_iff h).2 (List.mem_cons_self ..)
  have hlt : h.index < s.cells.length := Store.index_lt_of_state (by simp [hrun])
  have hmem : ∀ k, k ≠ h → (k ∈ h :: caller.active ↔ k ∈ caller.active) := by
    intro k hk
    simp [hk]
  refine sound_deliver (s := s) seen _ hlife ?_ hh ?_ hnodup ?_ ?_ hcaller
  · rw [Store.state_leave, if_pos ⟨rfl, hlt⟩]
    cases value with
    | some v => exact .value hlead
    | none => exact .ended hlead
  · intro k hk
    rw [Store.state_leave, if_neg fun heq => hk heq.1.symm]
  · intro k hk
    rw [← hmem k hk]
    exact hc.running_iff k
  · intro k hk hka
    rw [← hmem k hk] at hka
    exact hc.idle k hka

/-- Every move keeps the invariant. -/
theorem Sound.advance {s₀ : Store} {ds : List Delivery} {c c' : Machine} (hc : Sound s₀ ds c)
    (step : c.advance = some c') : Sound s₀ (ds ++ c.deliveries) c' := by
  obtain ⟨control, s⟩ := c
  -- An answer leaves the store and the steps in progress as they are.
  have hanswer : ∀ (q : Query) (next : q.Answer → Step) (seen : List Value) (site : Site)
      (a : q.Answer), Sound s₀ ds ⟨.ask q next seen site, s⟩ →
      Sound s₀ ds ⟨.answer q next site a, s⟩ := by
    intro q next seen site a hc
    have hactive : active ⟨.answer q next site a, s⟩ = site.active := Site.active_learn ..
    refine ⟨?_, ?_, ?_, Site.Sound.answer hc.busy a⟩ <;> rw [hactive]
    · exact hc.nodup
    · exact hc.running_iff
    · exact hc.idle
  cases control with
  | run tree site =>
      cases tree with
      | ask q next =>
          cases step
          change Sound s₀ (ds ++ []) _
          rw [List.append_nil]
          exact ⟨hc.nodup, hc.running_iff, hc.idle, hc.busy⟩
      | finish value =>
          cases site with
          | outside => cases step
          | inside h g past log q next seen caller =>
              cases step
              exact hc.finish
  | ask q next seen site =>
      cases hq : q.pulled? with
      | some h =>
          rw [advance_ask_of_pulled hq] at step
          cases step
          exact hc.pull hq
      | none =>
          rw [deliveries, hq, List.append_nil]
          cases q <;> cases hq <;> cases step
          · exact hanswer _ _ _ _ _ hc
          · exact hanswer _ _ _ _ _ hc
          · exact hanswer _ _ _ _ _ hc

theorem Sound.runs {s₀ : Store} {ds ds' : List Delivery} {c c' : Machine} (hc : Sound s₀ ds c)
    (run : c.Runs ds' c') : Sound s₀ (ds ++ ds') c' := by
  induction run with
  | refl =>
      rw [List.append_nil]
      exact hc
  | move run step ih =>
      rw [← List.append_assoc]
      exact ih.advance step

theorem Runs.sound {s₀ : Store} (hs₀ : s₀.Settled) {program : Step} {ds : List Delivery}
    {c : Machine} (run : (start program s₀).Runs ds c) : Sound s₀ ds c :=
  (sound_of_idle rfl hs₀).runs run

end Machine

/-- The sequence from which a question pulls, and the answer that refuses the pull. -/
def Query.refusal? : (q : Query) → Option (Handle × q.Answer)
  | tryNext h => some (h, .error .generatorRunning)
  | next h => some (h, none)
  | drain h => some (h, .error .generatorRunning)
  | exhausted _ | describe _ | resolve _ => none

theorem Query.ask_of_refusal {q : Query} {h : Handle} {a : q.Answer}
    (hq : q.refusal? = some (h, a)) {s : Store} (hs : s.state h = .running) :
    q.ask s = some (a, s) := by
  have hpull := Store.pull_running hs
  cases q <;> cases hq
  · simpa using hpull
  · simp [hpull, Except.toOption]
  · simpa using Store.drain_of_error hpull []

theorem Machine.advance_of_refusal {q : Query} {h : Handle} {a : q.Answer}
    (hq : q.refusal? = some (h, a)) {s : Store} (hs : s.state h = .running)
    (next : q.Answer → Step) (seen : List Value) (site : Site) :
    Machine.advance ⟨.ask q next seen site, s⟩ = some ⟨.answer q next site a, s⟩ := by
  cases q <;> cases hq <;> simp [advance, pull, hs, Control.receive, Except.toOption]

/-- Pulls may come from inside of steps, through any sequences and to any depth. From a store in
which no step is in progress, a program and its machine come to the same end, if to any. At every
moment on the way no step is in progress twice; a pull from a sequence whose step is in progress
is refused and leaves the whole store as it is; and when all steps have ended no sequence is left
running, each is as its own deliveries made it, and those that gave no value are exhausted. -/
theorem reentrant_pulls {s₀ : Store} (hs₀ : s₀.Settled) (program : Step) :
    (∀ value log s, program.run s₀ = some (value, log, s) ↔
      ∃ ds, (Machine.start program s₀).Runs ds ⟨.run (.finish value) (.outside log), s⟩) ∧
    ∀ ds c, (Machine.start program s₀).Runs ds c →
      c.active.Nodup ∧
      (∀ q next seen site h a, c.control = .ask q next seen site → q.refusal? = some (h, a) →
        h ∈ c.active → q.ask c.store = some (a, c.store) ∧
          c.advance = some ⟨.answer q next site a, c.store⟩) ∧
      (c.active = [] → c.store.Settled ∧ ∀ h,
        (s₀.state h).Lives (deliveriesOf h ds) (c.store.state h) ∧
        ((∃ d ∈ deliveriesOf h ds, d.value = none) → c.store.state h = .exhausted)) := by
  refine ⟨fun value log s => Machine.run_eq_some_iff_reaches, fun ds c run => ?_⟩
  have hc := run.sound hs₀
  refine ⟨hc.nodup, ?_, ?_⟩
  · intro q next seen site h a hcontrol hq hh
    have hrun := (hc.running_iff h).2 hh
    obtain ⟨control, s⟩ := c
    subst hcontrol
    exact ⟨Query.ask_of_refusal hq hrun, Machine.advance_of_refusal hq hrun next seen site⟩
  · intro hnone
    constructor
    · intro h hrun
      have hh := (hc.running_iff h).1 hrun
      rw [hnone] at hh
      exact List.not_mem_nil hh
    · intro h
      have hlife := hc.idle h (by simp [hnone])
      exact ⟨hlife, hlife.exhausted_of_none⟩

/-- A generator that pulls itself in each of its steps. -/
theorem reentrant_pulls_self :
    let s : Store := ⟨[⟨.waiting (.watcher "g" .tryNext 1) [], 0⟩], [("g", ⟨0⟩)]⟩
    s.Settled ∧ ∀ ds c, (Machine.start (.ask (.drain ⟨0⟩) fun _ => .finish none) s).Runs ds c →
      c.active.Nodup := by
  intro s
  have hs : s.Settled := by
    rintro ⟨_ | i⟩ <;> simp [s, Store.state]
  exact ⟨hs, fun ds c run => ((reentrant_pulls hs _).2 ds c run).1⟩

end Conformance
