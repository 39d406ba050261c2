import Mathlib.Data.List.Perm.Subperm
import Conformance.Proofs.Sequence.Reentrancy
import Conformance.Proofs.Sequence.Series

/-!
# How deep steps nest

Generators may pull each other in cycles, and nothing in what they ask gets smaller on the way. What
gets smaller is the number of generators that wait: a step in progress is not begun again, so each
nested step takes one of them, and gives it back at its end. So steps nest no deeper than there are
generators at the beginning, and a pull comes to an end unless one of the steps in progress drains
a sequence for ever.
-/

namespace Conformance

/-! ## Generators that wait -/

/-- A generator waits for its next step. -/
def State.isWaiting : State → Bool
  | waiting .. => true
  | eager .. | running | exhausted => false

namespace Store

/-- The sequences whose generators wait for their next step. -/
def generators (s : Store) : List Handle :=
  ((List.range s.cells.length).map Handle.mk).filter fun h => (s.state h).isWaiting

variable {s : Store} {h : Handle}

theorem mem_generators_iff : h ∈ s.generators ↔ (s.state h).isWaiting = true := by
  rw [generators, List.mem_filter, and_iff_right_iff_imp]
  intro hwaiting
  refine List.mem_map.2 ⟨h.index, List.mem_range.2 (index_lt_of_state fun hs => ?_), rfl⟩
  rw [hs] at hwaiting
  cases hwaiting

/-- No computation adds a generator. -/
theorem generators_outcome :
    (∀ s h r s', Store.pull s h = some (r, s') → s'.generators ⊆ s.generators) ∧
    (∀ s h seen r s', Store.drain s h seen = some (r, s') → s'.generators ⊆ s.generators) ∧
    (∀ q s a s', Query.ask q s = some (a, s') → s'.generators ⊆ s.generators) ∧
    (∀ step s value log s', Step.run step s = some (value, log, s') →
      s'.generators ⊆ s.generators) := by
  apply rel_outcome
  case refl =>
    exact fun s => List.Subset.refl s.generators
  case trans =>
    exact fun first second => List.Subset.trans second first
  case eager =>
    intro s h items cursor hs k hk
    rw [mem_generators_iff, state_setState] at hk
    rw [mem_generators_iff]
    split at hk
    · split at hk <;> cases hk
    · exact hk
  case waiting =>
    intro s h g past value log s' hs step k hk
    rw [mem_generators_iff, state_leave] at hk
    by_cases hhk : h = k
    · rw [mem_generators_iff, ← hhk, hs]
      rfl
    · rw [if_neg fun heq => hhk heq.1, ← mem_generators_iff] at hk
      have hbefore := step hk
      rwa [mem_generators_iff, state_enter, if_neg fun heq => hhk heq.1, ← mem_generators_iff]
        at hbefore

/-- The generators that wait while a step is in progress are among the others. -/
theorem generators_enter {g : Generator} {past : Past} (hs : s.state h = .waiting g past)
    {handles : List Handle} (hsub : s.generators ⊆ handles) :
    (s.enter h).generators ⊆ handles.erase h := by
  have hlt : h.index < s.cells.length := index_lt_of_state (by simp [hs])
  intro k hk
  rw [mem_generators_iff, state_enter] at hk
  by_cases hhk : h = k
  · rw [if_pos ⟨hhk, hlt⟩] at hk
    cases hk
  · rw [if_neg fun heq => hhk heq.1, ← mem_generators_iff] at hk
    exact (List.mem_erase_of_ne (Ne.symm hhk)).2 (hsub hk)

end Store

namespace Machine

variable {c c' : Machine} {outer inner handles : List Handle}

/-! ## Pulls that end -/

/-- The machine comes to a drain that gets ever more values, at a site around which the steps of
these sequences, the outermost ones, are in progress. -/
def DrainsForever (outer : List Handle) (c : Machine) : Prop :=
  ∃ h next site, outer <:+ site.active ∧
    ∀ n, ∃ seen s, seen.length = n ∧ c.Reaches ⟨.ask (.drain h) next seen site, s⟩

theorem DrainsForever.of_reaches (hreach : c.Reaches c') (h : c'.DrainsForever outer) :
    c.DrainsForever outer := by
  obtain ⟨k, next, site, houter, hlong⟩ := h
  refine ⟨k, next, site, houter, fun n => ?_⟩
  obtain ⟨seen, s, hlength, hseen⟩ := hlong n
  exact ⟨seen, s, hlength, hreach.trans hseen⟩

theorem DrainsForever.mono (houter : outer <:+ inner) (h : c.DrainsForever inner) :
    c.DrainsForever outer := by
  obtain ⟨k, next, site, hinner, hlong⟩ := h
  exact ⟨k, next, site, houter.trans hinner, hlong⟩

/-- Among these generators, a pull ends unless inside of its step a sequence is drained for
ever. -/
def PullsEndAmong (handles : List Handle) : Prop :=
  ∀ (s : Store) (h : Handle) (q : Query) (next : q.Answer → Step) (seen : List Value)
    (site : Site), s.generators ⊆ handles → q.pulled? = some h →
    (∃ r s', s.pull h = some (r, s')) ∨
      DrainsForever (h :: site.active) ⟨.ask q next seen site, s⟩

variable {s : Store}

/-- A drain ends unless it pulls for ever, or something that it pulls does. -/
theorem PullsEndAmong.drain (hends : PullsEndAmong handles) (hs : s.generators ⊆ handles)
    (h : Handle) (next : Except Fault (List Value) → Step) (site : Site) :
    (∃ r s', s.drain h [] = some (r, s')) ∨
      DrainsForever site.active ⟨.ask (.drain h) next [] site, s⟩ := by
  by_contra hneither
  obtain ⟨hnever, hfinite⟩ := not_or.1 hneither
  -- After any number of values the drain has still not ended, so it goes on.
  have hlong : ∀ n, ∃ seen s', seen.length = n ∧
      Reaches ⟨.ask (.drain h) next [] site, s⟩ ⟨.ask (.drain h) next seen site, s'⟩ ∧
      s'.generators ⊆ handles ∧ s'.drain h seen = s.drain h [] := by
    intro n
    induction n with
    | zero => exact ⟨[], s, rfl, .refl _, hs, rfl⟩
    | succ n ih =>
        obtain ⟨seen, s', hlength, hreach, hs', hdrain⟩ := ih
        obtain ⟨r, s'', hpull⟩ | hforever := hends s' h (.drain h) next seen site hs' rfl
        · obtain e | _ | v := r
          · exact absurd ⟨_, _, hdrain.symm.trans (Store.drain_of_error hpull seen)⟩ hnever
          · exact absurd ⟨_, _, hdrain.symm.trans (Store.drain_of_none hpull seen)⟩ hnever
          · refine ⟨v :: seen, s'', by simp [hlength], ?_, ?_, ?_⟩
            · exact hreach.trans (reaches_outcome.1 _ _ _ _ hpull (.drain h) next seen site rfl)
            · exact List.Subset.trans (Store.generators_outcome.1 _ _ _ _ hpull) hs'
            · rw [← hdrain, Store.drain_of_some hpull]
        · exact absurd ((hforever.mono (List.suffix_cons ..)).of_reaches hreach) hfinite
  apply hfinite
  refine ⟨h, next, site, List.suffix_refl _, fun n => ?_⟩
  obtain ⟨seen, s', hlength, hreach, -⟩ := hlong n
  exact ⟨seen, s', hlength, hreach⟩

theorem PullsEndAmong.ask (hends : PullsEndAmong handles) (hs : s.generators ⊆ handles)
    (q : Query) (next : q.Answer → Step) (site : Site) : (∃ a s', q.ask s = some (a, s')) ∨
      DrainsForever site.active ⟨.ask q next [] site, s⟩ := by
  cases q with
  | tryNext h =>
      obtain ⟨r, s', hpull⟩ | hforever := hends s h (.tryNext h) next [] site hs rfl
      · exact .inl ⟨r, s', by simpa using hpull⟩
      · exact .inr (hforever.mono (List.suffix_cons ..))
  | next h =>
      obtain ⟨r, s', hpull⟩ | hforever := hends s h (.next h) next [] site hs rfl
      · exact .inl ⟨r.toOption.join, s', by simp [hpull]⟩
      · exact .inr (hforever.mono (List.suffix_cons ..))
  | drain h =>
      obtain ⟨r, s', hdrain⟩ | hforever := hends.drain hs h next site
      · exact .inl ⟨r, s', by simpa using hdrain⟩
      · exact .inr hforever
  | exhausted h => exact .inl ⟨_, s, Query.ask_exhausted h s⟩
  | describe h => exact .inl ⟨_, s, Query.ask_describe h s⟩
  | resolve name => exact .inl ⟨_, s, Query.ask_resolve name s⟩

/-- A step ends after finitely many questions, unless one of them is never answered. -/
theorem PullsEndAmong.run (hends : PullsEndAmong handles) (hs : s.generators ⊆ handles)
    (step : Step) (site : Site) : (∃ value log s', step.run s = some (value, log, s')) ∨
      DrainsForever site.active ⟨.run step site, s⟩ := by
  induction step generalizing s site with
  | finish value => exact .inl ⟨value, [], s, Step.run_finish value s⟩
  | ask q next ih =>
      have hbegin : Reaches ⟨.run (.ask q next) site, s⟩ ⟨.ask q next [] site, s⟩ := .single rfl
      obtain ⟨a, s', hask⟩ | hforever := hends.ask hs q next site
      · have hs' := List.Subset.trans (Store.generators_outcome.2.2.1 _ _ _ _ hask) hs
        have hreach := hbegin.trans (reaches_outcome.2.2.1 _ _ _ _ hask next site)
        obtain ⟨value, log, s'', hrun⟩ | hforever := ih a hs' (site.learn [⟨q, a⟩])
        · exact .inl ⟨value, ⟨q, a⟩ :: log, s'', by simp [Step.run_ask, hask, hrun]⟩
        · rw [← site.active_learn [⟨q, a⟩]]
          exact .inr (hforever.of_reaches hreach)
      · exact .inr (hforever.of_reaches hbegin)

/-- Each nested step takes one generator from those that wait. -/
theorem pullsEndAmong (handles : List Handle) : PullsEndAmong handles := by
  intro s h q next seen site hs hq
  cases hstate : s.state h with
  | eager => exact .inl ⟨_, _, Store.pull_eager hstate⟩
  | running => exact .inl ⟨_, _, Store.pull_running hstate⟩
  | exhausted => exact .inl ⟨_, _, Store.pull_exhausted hstate⟩
  | waiting g past =>
      have hmem : h ∈ handles := hs (Store.mem_generators_iff.2 (by rw [hstate]; rfl))
      have hlt : (handles.erase h).length < handles.length := by
        rw [List.length_erase_of_mem hmem]
        exact Nat.sub_one_lt_of_lt (List.length_pos_of_mem hmem)
      have hbegin : Reaches ⟨.ask q next seen site, s⟩
          ⟨.run (g.step past) (.inside h g past [] q next seen site), s.enter h⟩ := by
        apply Reaches.single
        rw [advance_ask_of_pulled hq, pull, hstate]
      obtain ⟨value, log, s', hrun⟩ | hforever :=
        (pullsEndAmong (handles.erase h)).run (Store.generators_enter hstate hs) (g.step past)
          (.inside h g past [] q next seen site)
      · exact .inl ⟨.ok value, _, by rw [Store.pull_waiting hstate, hrun]; rfl⟩
      · exact .inr (hforever.of_reaches hbegin)
termination_by handles.length

end Machine

/-! ## Questions that steps ask -/

/-- All that the step may ask has a property. -/
inductive Step.Asks (P : Query → Prop) : Step → Prop
  | finish (value : Option Value) : Asks P (.finish value)
  | ask {q : Query} {next : q.Answer → Step} (hq : P q) (hnext : ∀ a, (next a).Asks P) :
      Asks P (.ask q next)

/-- All that a generator may ask in its steps has a property. -/
def Generator.Asks (P : Query → Prop) (g : Generator) : Prop := ∀ past, (g.step past).Asks P

def State.Asks (P : Query → Prop) : State → Prop
  | waiting g _ => g.Asks P
  | eager .. | running | exhausted => True

def Store.Asks (P : Query → Prop) (s : Store) : Prop := ∀ h, (s.state h).Asks P

/-- The steps in progress at a site, and their generators later, ask only what has a property. -/
def Site.Asks (P : Query → Prop) : Site → Prop
  | outside _ => True
  | inside _ g _ _ q next _ caller => g.Asks P ∧ (Step.ask q next).Asks P ∧ caller.Asks P

def Control.Asks (P : Query → Prop) : Control → Prop
  | run step site => step.Asks P ∧ site.Asks P
  | ask q next _ site => (Step.ask q next).Asks P ∧ site.Asks P

structure Machine.Asks (P : Query → Prop) (c : Machine) : Prop where
  control : c.control.Asks P
  store : c.store.Asks P

variable {P : Query → Prop}

theorem Store.Asks.setState {s : Store} (hs : s.Asks P) (h : Handle) {state : State}
    (hstate : state.Asks P) : (s.setState h state).Asks P := by
  intro k
  rw [state_setState]
  split
  · exact hstate
  · exact hs k

theorem Store.Asks.enter {s : Store} (hs : s.Asks P) (h : Handle) : (s.enter h).Asks P := by
  intro k
  rw [state_enter]
  split
  · trivial
  · exact hs k

theorem Control.asks_answer {q : Query} {next : q.Answer → Step} {site : Site}
    (hnext : (Step.ask q next).Asks P) (hsite : site.Asks P) (a : q.Answer) :
    (answer q next site a).Asks P := by
  cases hnext with
  | ask hq hnext =>
      refine ⟨hnext a, ?_⟩
      cases site <;> exact hsite

theorem Control.asks_receive {q : Query} {next : q.Answer → Step} {site : Site}
    (hnext : (Step.ask q next).Asks P) (hsite : site.Asks P) (seen : List Value)
    (r : Except Fault (Option Value)) : (receive seen site q next r).Asks P := by
  cases q with
  | tryNext | next => exact asks_answer hnext hsite _
  | drain =>
      obtain e | _ | v := r
      · exact asks_answer hnext hsite _
      · exact asks_answer hnext hsite _
      · exact ⟨hnext, hsite⟩
  | exhausted | describe | resolve => exact ⟨hnext, hsite⟩

namespace Machine

theorem Asks.pull {q : Query} {next : q.Answer → Step} {seen : List Value} {site : Site}
    {s : Store} (h : Handle) (hc : Asks P ⟨.ask q next seen site, s⟩) :
    Asks P (pull h q next seen site s) := by
  obtain ⟨⟨hnext, hsite⟩, hs⟩ := hc
  unfold Machine.pull
  cases hstate : s.state h with
  | eager items cursor =>
      refine ⟨Control.asks_receive hnext hsite .., Store.Asks.setState hs h ?_⟩
      split <;> trivial
  | running | exhausted => exact ⟨Control.asks_receive hnext hsite .., hs⟩
  | waiting g past =>
      have hg : g.Asks P := by
        have hstateAsks := hs h
        rwa [hstate] at hstateAsks
      exact ⟨⟨hg past, hg, hnext, hsite⟩, Store.Asks.enter hs h⟩

/-- Every move keeps to what the steps may ask. -/
theorem Asks.advance {c c' : Machine} (hc : c.Asks P) (step : c.advance = some c') :
    c'.Asks P := by
  obtain ⟨control, s⟩ := c
  obtain ⟨hcontrol, hs⟩ := hc
  cases control with
  | run tree site =>
      cases tree with
      | ask q next =>
          cases step
          exact ⟨hcontrol, hs⟩
      | finish value =>
          cases site with
          | outside => cases step
          | inside h g past log q next seen caller =>
              cases step
              obtain ⟨-, hg, hnext, hcaller⟩ := hcontrol
              refine ⟨Control.asks_receive hnext hcaller .., Store.Asks.setState hs h ?_⟩
              split
              · exact hg
              · trivial
  | ask q next seen site =>
      cases hq : q.pulled? with
      | some h =>
          rw [advance_ask_of_pulled hq] at step
          cases step
          exact Asks.pull h ⟨hcontrol, hs⟩
      | none =>
          cases q <;> cases hq <;> cases step <;>
            exact ⟨Control.asks_answer hcontrol.1 hcontrol.2 _, hs⟩

theorem Asks.reaches {c c' : Machine} (hc : c.Asks P) (hreach : c.Reaches c') : c'.Asks P := by
  obtain ⟨ds, run⟩ := hreach
  induction run with
  | refl => exact hc
  | move run step ih => exact ih.advance step

theorem asks_start {program : Step} {s : Store} (hprogram : program.Asks P) (hs : s.Asks P) :
    Asks P (start program s) :=
  ⟨⟨hprogram, trivial⟩, hs⟩

end Machine

/-- A question is answered from at most one pull. -/
def Query.IsSingle : Query → Prop
  | drain _ => False
  | tryNext _ | next _ | exhausted _ | describe _ | resolve _ => True

/-- A watcher asks which sequence it watches, and looks at it. -/
theorem Generator.asks_watcher (name : String) {look : Generator.Look} (hlook : look ≠ .drain)
    (limit : ℕ) : (Generator.watcher name look limit).Asks Query.IsSingle := by
  intro past
  dsimp only [watcher]
  split
  · exact .finish none
  · refine .ask trivial fun found => ?_
    cases found with
    | none => exact .finish none
    | some h =>
        cases look with
        | drain => exact absurd rfl hlook
        | next | describe | exhausted => exact .ask trivial fun _ => .finish _
        | tryNext => exact .ask trivial fun r => by cases r <;> exact .finish _

/-- Where nothing is drained, nothing is drained for ever. -/
theorem Machine.Asks.not_drainsForever {c : Machine} (hc : c.Asks Query.IsSingle)
    (outer : List Handle) : ¬ c.DrainsForever outer := by
  rintro ⟨h, next, site, -, hlong⟩
  obtain ⟨seen, s, -, hreach⟩ := hlong 0
  cases (hc.reaches hreach).control.1 with
  | ask hq => exact hq

/-- Programs and generators that drain nothing come to an end. -/
theorem Step.Asks.run_ends {program : Step} {s : Store} (hprogram : program.Asks Query.IsSingle)
    (hs : s.Asks Query.IsSingle) : ∃ value log s', program.run s = some (value, log, s') ∧
      s'.Asks Query.IsSingle ∧ s'.generators ⊆ s.generators := by
  have hstart := Machine.asks_start hprogram hs
  obtain ⟨value, log, s', hrun⟩ | hforever :=
    (Machine.pullsEndAmong s.generators).run (List.Subset.refl _) program (.outside [])
  · have hend := hstart.reaches (Machine.run_eq_some_iff_reaches.1 hrun)
    exact ⟨value, log, s', hrun, hend.store, Store.generators_outcome.2.2.2 _ _ _ _ _ hrun⟩
  · exact absurd hforever (hstart.not_drainsForever _)

/-! ## The depth of nesting -/

theorem State.Gives.isWaiting {state after : State} {value : Option Value} {log : List Exchange}
    (gives : state.Gives value log after) (h : after.isWaiting = true) :
    state.isWaiting = true := by
  cases gives with
  | value => rfl
  | item | last | ended | again => cases h

/-- A generator that waits has been there from the beginning. -/
theorem State.Lives.isWaiting {first state : State} {ds : List Delivery}
    (life : first.Lives ds state) (h : state.isWaiting = true) : first.isWaiting = true := by
  induction life with
  | refl => exact h
  | more life gives ih => exact ih (gives.isWaiting h)

theorem Site.Sound.exists_waiting {P : Handle → State → Prop} {step : Step} {site : Site}
    (hs : site.Sound P step) : ∀ h ∈ site.active, ∃ g past, P h (.waiting g past) := by
  induction site generalizing step with
  | outside => exact nofun
  | inside h g past log q next seen caller ih =>
      exact List.forall_mem_cons.2 ⟨⟨g, past, hs.1⟩, ih hs.2.2⟩

namespace Machine

variable {s₀ : Store} {ds : List Delivery} {c : Machine}

/-- Only steps of generators that were there at the beginning are in progress. -/
theorem Sound.active_subset (hc : Sound s₀ ds c) : c.active ⊆ s₀.generators := by
  intro h hh
  have hsite : ∃ step, c.control.site.Sound
      (fun h state => (s₀.state h).Lives (deliveriesOf h ds) state) step := by
    obtain ⟨control, s⟩ := c
    cases control with
    | run step site => exact ⟨step, hc.busy⟩
    | ask q next seen site => exact ⟨.ask q next, hc.busy⟩
  obtain ⟨step, hsite⟩ := hsite
  obtain ⟨g, past, life⟩ := hsite.exists_waiting h hh
  exact Store.mem_generators_iff.2 (life.isWaiting rfl)

end Machine

/-- Pulls come to an end however generators pull each other. Where no step drains a sequence, every
program that drains none comes to an end and leaves no more generators, and so does every pull.
Where steps drain sequences, a pull comes to an end unless, in one of the steps that it leads to, a
drain goes on for ever. From a moment at which no step is in progress, the steps in progress are at
all times those of different sequences whose generators waited at that moment, so they nest no
deeper than there were such sequences. -/
theorem nested_pulls_end :
    (∀ (s : Store) (program : Step), s.Asks Query.IsSingle → program.Asks Query.IsSingle →
      ∃ value log s', program.run s = some (value, log, s') ∧ s'.Asks Query.IsSingle ∧
        s'.generators ⊆ s.generators) ∧
    (∀ (s : Store) (h : Handle), s.Asks Query.IsSingle → ∃ r s', s.pull h = some (r, s')) ∧
    (∀ (s : Store) (h : Handle), (∃ r s', s.pull h = some (r, s')) ∨
      (Machine.start (.ask (.tryNext h) fun _ => .finish none) s).DrainsForever [h]) ∧
    ∀ (c₀ c : Machine) (ds : List Delivery), c₀.active = [] → c₀.store.Settled → c₀.Runs ds c →
      c.active.Nodup ∧ c.active ⊆ c₀.store.generators ∧
      c.active.length ≤ c₀.store.generators.length := by
  have hcases : ∀ (s : Store) (h : Handle), (∃ r s', s.pull h = some (r, s')) ∨
      (Machine.start (.ask (.tryNext h) fun _ => .finish none) s).DrainsForever [h] := by
    intro s h
    obtain hends | hforever := Machine.pullsEndAmong s.generators s h (.tryNext h)
      (fun _ => .finish none) [] (.outside []) (List.Subset.refl _) rfl
    · exact .inl hends
    · exact .inr (hforever.of_reaches (.single rfl))
  refine ⟨fun s program hs hprogram => hprogram.run_ends hs, fun s h hs => ?_, hcases, ?_⟩
  · have hstart := Machine.asks_start (P := Query.IsSingle)
      (.ask (q := .tryNext h) trivial fun _ => .finish none) hs
    exact (hcases s h).resolve_right (hstart.not_drainsForever _)
  · intro c₀ c ds hactive hsettled run
    have hc := (Machine.sound_of_idle hactive hsettled).runs run
    have hsub := hc.active_subset
    exact ⟨hc.nodup, hsub, (List.subperm_of_subset hc.nodup hsub).length_le⟩

/-- Two generators that pull each other, and a program that pulls from both. -/
theorem nested_pulls_end_cycle :
    let s : Store := ⟨[⟨.waiting (.watcher "right" .tryNext 2) [], 0⟩,
      ⟨.waiting (.watcher "left" .next 2) [], 0⟩], [("left", ⟨0⟩), ("right", ⟨1⟩)]⟩
    let program : Step := .ask (.tryNext ⟨0⟩) fun _ => .ask (.next ⟨1⟩) fun _ => .finish none
    s.Asks Query.IsSingle ∧ program.Asks Query.IsSingle ∧ s.Settled ∧
      (∃ value log s', program.run s = some (value, log, s')) ∧
      (∃ r s', s.pull ⟨0⟩ = some (r, s')) ∧
      ∀ ds c, (Machine.start program s).Runs ds c → c.active.length ≤ 2 := by
  intro s program
  have hasks : s.Asks Query.IsSingle := by
    rintro ⟨_ | _ | i⟩
    · exact Generator.asks_watcher "right" (by decide) 2
    · exact Generator.asks_watcher "left" (by decide) 2
    · trivial
  have hprogram : program.Asks Query.IsSingle :=
    .ask trivial fun _ => .ask trivial fun _ => .finish none
  have hs : s.Settled := by
    rintro ⟨_ | _ | i⟩ <;> simp [s, Store.state]
  obtain ⟨hruns, hpulls, -, hdepth⟩ := nested_pulls_end
  obtain ⟨value, log, s', hrun, -⟩ := hruns s program hasks hprogram
  refine ⟨hasks, hprogram, hs, ⟨value, log, s', hrun⟩, hpulls s ⟨0⟩ hasks, fun ds c run => ?_⟩
  exact (hdepth _ c ds rfl hs run).2.2

end Conformance
