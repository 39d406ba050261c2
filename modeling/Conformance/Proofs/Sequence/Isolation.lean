import Conformance.Proofs.Sequence.Agreement
import Conformance.Proofs.Sequence.Consumers
import Conformance.Proofs.Sequence.Contents

/-!
# Sequences that pull from no other

The steps of a generator may pull from other sequences. If they pull from none but their own, where
they are refused, then a pull from outside leaves every other sequence as it was. Such steps may
still look at other sequences, as long as they take nothing from them.
-/

namespace Conformance

/-- The step pulls from no sequence but `h`. -/
inductive Step.PullsOnly (h : Handle) : Step → Prop
  | finish (value : Option Value) : PullsOnly h (.finish value)
  | ask {q : Query} {next : q.Answer → Step} (hq : ∀ k, q.pulled? = some k → k = h)
      (hnext : ∀ a, (next a).PullsOnly h) : PullsOnly h (.ask q next)

/-- The steps of the generator behind `h`, if there is one, pull from no sequence but `h`. -/
def State.PullsOnly (h : Handle) : State → Prop
  | waiting g _ => ∀ past, (g.step past).PullsOnly h
  | eager .. | running | exhausted => True

variable {s s' : Store} {h k : Handle}

theorem Query.exists_refusal {q : Query} (hq : q.pulled? = some h) :
    ∃ a, q.refusal? = some (h, a) := by
  cases q <;> cases hq <;> exact ⟨_, rfl⟩

/-- While the step of `h` is in progress, questions that pull at most from `h` change nothing. -/
theorem Query.ask_of_running {q : Query} (hq : ∀ k, q.pulled? = some k → k = h)
    (hs : s.state h = .running) : ∃ a, q.ask s = some (a, s) := by
  cases hpulled : q.pulled? with
  | some k =>
      obtain rfl := hq k hpulled
      obtain ⟨a, ha⟩ := exists_refusal hpulled
      exact ⟨a, ask_of_refusal ha hs⟩
  | none => cases q <;> cases hpulled <;> exact ⟨_, by rw [Query.ask]⟩

/-- A step that pulls at most from its own sequence ends, and leaves the store as it was. -/
theorem Step.PullsOnly.run {step : Step} (hstep : step.PullsOnly h) (hs : s.state h = .running) :
    ∃ value log, step.run s = some (value, log, s) := by
  induction hstep with
  | finish value => exact ⟨value, [], Step.run_finish value s⟩
  | ask hq _ ih =>
      obtain ⟨a, ha⟩ := Query.ask_of_running hq hs
      obtain ⟨value, log, hrun⟩ := ih a
      exact ⟨value, ⟨_, a⟩ :: log, by simp [Step.run_ask, ha, hrun]⟩

namespace Store

/-- A sequence is left as it was: in its state, and without another call of its generator. -/
structure Keeps (s s' : Store) (k : Handle) : Prop where
  state : s'.state k = s.state k
  calls : s'.calls k = s.calls k

theorem Keeps.refl (s : Store) (k : Handle) : s.Keeps s k := ⟨rfl, rfl⟩

theorem Keeps.trans {s'' : Store} (first : s.Keeps s' k) (second : s'.Keeps s'' k) :
    s.Keeps s'' k :=
  ⟨second.state.trans first.state, second.calls.trans first.calls⟩

/-- Only sequences of `P` were used on the way, and none that was exhausted. Sequences that pull
from no others still do not. -/
structure UsesOnly (P : Handle → Prop) (s s' : Store) : Prop where
  quiet : ∀ k, (s.state k).PullsOnly k → (s'.state k).PullsOnly k
  keeps : ∀ k, ¬ P k ∨ s.state k = .exhausted → s.Keeps s' k

namespace UsesOnly

variable {P Q : Handle → Prop} {s'' : Store}

theorem refl (P : Handle → Prop) (s : Store) : UsesOnly P s s := ⟨fun _ => id, fun k _ => .refl s k⟩

theorem trans (first : UsesOnly P s s') (second : UsesOnly P s' s'') : UsesOnly P s s'' where
  quiet k hk := second.quiet k (first.quiet k hk)
  keeps k hk := by
    have hfirst := first.keeps k hk
    rw [← hfirst.state] at hk
    exact hfirst.trans (second.keeps k hk)

theorem mono (h : UsesOnly P s s') (hPQ : ∀ k, P k → Q k) : UsesOnly Q s s' where
  quiet := h.quiet
  keeps k hk := h.keeps k (hk.imp_left (mt (hPQ k)))

theorem of_others (hs : s.state h ≠ .exhausted) (hown : (s'.state h).PullsOnly h)
    (hothers : ∀ k, k ≠ h → s.Keeps s' k) : UsesOnly (· = h) s s' where
  quiet k hk := by
    by_cases heq : k = h
    · exact heq ▸ hown
    · rwa [(hothers k heq).state]
  keeps k hk := by
    apply hothers
    rintro rfl
    exact hk.elim (fun hne => hne rfl) hs

end UsesOnly

/-- A pull uses no other sequence. -/
theorem pull_usesOnly (hquiet : (s.state h).PullsOnly h) {r : Except Fault (Option Value)}
    (hpull : s.pull h = some (r, s')) : UsesOnly (· = h) s s' := by
  cases hs : s.state h with
  | running =>
      rw [pull_running hs] at hpull
      cases hpull
      exact .refl _ s
  | exhausted =>
      rw [pull_exhausted hs] at hpull
      cases hpull
      exact .refl _ s
  | eager items cursor =>
      rw [pull_eager hs] at hpull
      cases hpull
      have hlt : h.index < s.cells.length := index_lt_of_state (by simp [hs])
      apply UsesOnly.of_others (by simp [hs])
      · rw [state_setState, if_pos ⟨rfl, hlt⟩]
        split <;> trivial
      · intro k hk
        exact ⟨by rw [state_setState, if_neg fun heq => hk heq.1.symm], calls_setState ..⟩
  | waiting g past =>
      have hlt : h.index < s.cells.length := index_lt_of_state (by simp [hs])
      have henter : (s.enter h).state h = .running := by rw [state_enter, if_pos ⟨rfl, hlt⟩]
      rw [hs] at hquiet
      obtain ⟨value, log, hrun⟩ := (hquiet past).run henter
      rw [pull_waiting hs, hrun] at hpull
      cases hpull
      apply UsesOnly.of_others (by simp [hs])
      · rw [state_leave, if_pos ⟨rfl, by rwa [length_enter]⟩]
        split
        · exact hquiet
        · trivial
      · intro k hk
        refine ⟨state_leave_enter_of_ne hk .., ?_⟩
        rw [calls_leave, calls_enter, if_neg fun heq => hk heq.1.symm, Nat.add_zero]

/-- A drain uses no other sequence. -/
theorem drain_usesOnly (hquiet : (s.state h).PullsOnly h) {seen : List Value}
    {r : Except Fault (List Value)} (hdrain : s.drain h seen = some (r, s')) :
    UsesOnly (· = h) s s' := by
  revert hquiet
  refine drain_induction
    (motive := fun s _ _ s' => (s.state h).PullsOnly h → UsesOnly (· = h) s s')
    ?more ?last ?refused hdrain
  case more =>
    intro s s₁ s₂ v seen r hpull ih hquiet
    have first := pull_usesOnly hquiet hpull
    exact first.trans (ih (first.quiet h hquiet))
  case last | refused =>
    intros
    exact pull_usesOnly ‹_› ‹_›

/-- The sequence `h` gives all that it holds, pulled once and in order, and then none. -/
structure Exhausts (h : Handle) (s : Store) (values : List Value) (s' : Store) : Prop where
  holds : s.Holds h values
  pulls : Pulls h s (values.map some ++ [none]) s'
  exhausted : s'.state h = .exhausted

theorem exhausts_of_drain {values : List Value} (hdrain : s.drain h [] = some (.ok values, s')) :
    Exhausts h s values s' := by
  have holds := exists_drain_iff.1 ⟨s', hdrain⟩
  obtain ⟨_, heq, pulls⟩ := (drain_eq_some_iff holds.ne_running [] _).1 hdrain
  cases heq
  exact ⟨holds, pulls, state_of_drain hdrain⟩

end Store

/-- A sequence in this state comes to an end, whatever the other sequences are like. -/
def State.IsFinite (h : Handle) (state : State) : Prop :=
  ∀ s : Store, s.state h = state → ∃ values, s.Holds h values

namespace State

theorem isFinite_exhausted (h : Handle) : exhausted.IsFinite h :=
  fun _ hs => ⟨[], .of_exhausted hs⟩

theorem isFinite_eager (h : Handle) (items : List Value) (cursor : ℕ) :
    (eager items cursor).IsFinite h :=
  fun _ hs => ⟨_, Store.exists_drain_iff.1 ⟨_, Store.drain_eager hs []⟩⟩

theorem isFinite_ofValues (h : Handle) (items : List Value) (past : Past) :
    (waiting (.ofValues items) past).IsFinite h := by
  intro s hs
  obtain ⟨s', hdrain, -⟩ := Store.drain_ofValues hs []
  exact ⟨_, Store.exists_drain_iff.1 ⟨s', hdrain⟩⟩

theorem pullsOnly_ofValues (h : Handle) (items : List Value) (past : Past) :
    (waiting (.ofValues items) past).PullsOnly h :=
  fun _ => .finish _

end State

end Conformance
