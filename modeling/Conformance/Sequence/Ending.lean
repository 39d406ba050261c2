import Conformance.Sequence.Producers
import Conformance.Sequence.Run

/-!
# Computations that come to an end

Pulls and drains come to an end when each generator of the store gives the values of a list:
its steps ask nothing, and after the last value it gives none. Such stores are called listed.
-/

namespace Conformance

/-- The states in which a generator, if there is one, waits and gives the values of a list. -/
def State.Listed : State → Prop
  | waiting g _ => ∃ items, g = Generator.ofValues items
  | running => False
  | eager .. | exhausted => True

/-- The state gives at most `n` values before it gives none. -/
def State.AtMost (n : Nat) : State → Prop
  | eager items cursor => items.length - cursor ≤ n
  | waiting g past => ∃ items, g = Generator.ofValues items ∧ items.length - past.length ≤ n
  | running => False
  | exhausted => True

theorem State.Listed.atMost {state : State} (h : state.Listed) : ∃ n, state.AtMost n := by
  cases state with
  | eager items cursor => exact ⟨items.length - cursor, Nat.le_refl _⟩
  | waiting g past =>
    obtain ⟨items, rfl⟩ := h
    exact ⟨items.length - past.length, items, rfl, Nat.le_refl _⟩
  | running => exact h.elim
  | exhausted => exact ⟨0, trivial⟩

namespace Store

/-- All sequences are listed. -/
def Listed (s : Store) : Prop := ∀ h, (s.state h).Listed

theorem listed_empty : Store.empty.Listed := fun _ => trivial

theorem Listed.allocate {s : Store} (hs : s.Listed) {state : State} (hstate : state.Listed) :
    (s.allocate state).2.Listed := by
  intro h
  rw [state_allocate]
  split
  · exact hstate
  · exact hs h

theorem Listed.setState {s : Store} (hs : s.Listed) (h : Handle) {state : State}
    (hstate : state.Listed) : (s.setState h state).Listed := by
  intro k
  rw [state_setState]
  split
  · exact hstate
  · exact hs k

/-- The step of a listed generator asks nothing. -/
theorem pull_ofValues {s : Store} {h : Handle} {items : List Value} {past : Past}
    (hstate : s.state h = .waiting (.ofValues items) past) :
    s.pull h = some (.ok items[past.length]?,
      (s.enter h).leave h (.ofValues items) ([] :: past) items[past.length]?) := by
  have hstep : (Generator.ofValues items).step past = .finish items[past.length]? := by
    cases hi : items[past.length]? <;> simp [Generator.ofValues, Generator.ofCalls, hi]
  rw [Store.pull, hstate]
  simp [hstep]

/-- A pull on a listed sequence gives one of the values left, or none, and concerns no other
sequence. -/
theorem Listed.pull {s : Store} (hs : s.Listed) {h : Handle} {n : Nat}
    (hn : (s.state h).AtMost n) :
    ∃ value s', s.pull h = some (.ok value, s') ∧ s'.Listed ∧
      (value.isSome → 0 < n ∧ (s'.state h).AtMost (n - 1)) ∧
      (value = none → s'.state h = .exhausted) ∧ ∀ k, k ≠ h → s'.state k = s.state k := by
  cases hstate : s.state h with
  | eager items cursor =>
    rw [hstate] at hn
    have hlt := index_lt_of_state (s := s) (h := h) (by simp [hstate])
    refine ⟨items[cursor]?, _, pull_eager hstate, hs.setState h (by split <;> trivial), ?_, ?_, ?_⟩
    · intro hv
      have hc : cursor < items.length := by simpa using hv
      simp only [State.AtMost] at hn
      rw [state_setState, if_pos ⟨rfl, hlt⟩, if_pos hc]
      exact ⟨by omega, by simp only [State.AtMost]; omega⟩
    · intro hv
      have hc : ¬ cursor < items.length := by simpa using hv
      rw [state_setState, if_pos ⟨rfl, hlt⟩, if_neg hc]
    · intro k hk
      rw [state_setState, if_neg (fun hh => hk hh.1.symm)]
  | waiting g past =>
    have hlt := index_lt_of_state (s := s) (h := h) (by simp [hstate])
    rw [hstate] at hn
    obtain ⟨items, rfl, hn⟩ := hn
    refine ⟨_, _, pull_ofValues hstate, ?_, fun hv => ?_, fun hv => ?_, fun k hk => ?_⟩
    · intro k
      rw [state_leave, state_enter, length_enter]
      by_cases hk : h = k
      · rw [if_pos ⟨hk, hlt⟩]
        split
        · exact ⟨items, rfl⟩
        · trivial
      · rw [if_neg (fun hh => hk hh.1), if_neg (fun hh => hk hh.1)]
        exact hs k
    · have hc : past.length < items.length := by simpa using hv
      rw [state_leave, if_pos ⟨rfl, by simpa using hlt⟩, if_pos hv]
      exact ⟨by omega, items, rfl, by simp only [List.length_cons]; omega⟩
    · rw [state_leave, if_pos ⟨rfl, by simpa using hlt⟩, hv]
      rfl
    · rw [state_leave, if_neg (fun hh => hk hh.1.symm), state_enter,
        if_neg (fun hh => hk hh.1.symm)]
  | running => exact (hstate ▸ hs h : State.running.Listed).elim
  | exhausted =>
    exact ⟨none, s, pull_exhausted hstate, hs, nofun, fun _ => hstate, fun _ _ => rfl⟩

/-- A drain of a listed sequence comes to an end, after which the sequence is exhausted and the
others are as they were. -/
theorem Listed.drain {s : Store} (hs : s.Listed) (h : Handle) (seen : List Value) :
    ∃ values s', s.drain h seen = some (.ok values, s') ∧ s'.Listed ∧
      s'.state h = .exhausted ∧ ∀ k, k ≠ h → s'.state k = s.state k := by
  obtain ⟨n, hn⟩ := (hs h).atMost
  induction n generalizing s seen with
  | zero =>
    obtain ⟨value, s', hpull, hs', hvalue, hnone, hframe⟩ := hs.pull hn
    cases value with
    | none => exact ⟨_, s', drain_of_none hpull seen, hs', hnone rfl, hframe⟩
    | some v => exact absurd (hvalue rfl).1 (Nat.lt_irrefl 0)
  | succ n ih =>
    obtain ⟨value, s', hpull, hs', hvalue, hnone, hframe⟩ := hs.pull hn
    cases value with
    | none => exact ⟨_, s', drain_of_none hpull seen, hs', hnone rfl, hframe⟩
    | some v =>
      obtain ⟨values, s'', hdrain, hs'', hend, hframe'⟩ := ih hs' (v :: seen) (hvalue rfl).2
      exact ⟨values, s'', (drain_of_some hpull seen).trans hdrain, hs'', hend,
        fun k hk => (hframe' k hk).trans (hframe k hk)⟩

end Store

/-- A computation that comes to an end from each store with a property, and leaves such a
store. -/
def EndsIn {ε α : Type} (I : Store → Prop) (x : ExceptT ε (StateT Store Option) α) : Prop :=
  ∀ s : Store, I s → ∃ result s', x.run s = some (result, s') ∧ I s'

/-- A computation that comes to an end from each listed store, and leaves a listed store. -/
abbrev Ends {ε α : Type} (x : ExceptT ε (StateT Store Option) α) : Prop := EndsIn Store.Listed x

namespace EndsIn

variable {ε α β : Type} {I : Store → Prop}

theorem pure (a : α) : EndsIn I (pure a : ExceptT ε (StateT Store Option) α) :=
  fun s hs => ⟨.ok a, s, rfl, hs⟩

theorem throw (e : ε) : EndsIn I (throw e : ExceptT ε (StateT Store Option) α) :=
  fun s hs => ⟨.error e, s, rfl, hs⟩

theorem liftExcept (result : Except ε α) :
    EndsIn I (liftExcept result : ExceptT ε (StateT Store Option) α) := by
  cases result with
  | ok a => exact pure a
  | error e => exact throw e

theorem bind {x : ExceptT ε (StateT Store Option) α}
    {f : α → ExceptT ε (StateT Store Option) β} (hx : EndsIn I x) (hf : ∀ a, EndsIn I (f a)) :
    EndsIn I (x >>= f) := by
  intro s hs
  obtain ⟨result, s', hrun, hs'⟩ := hx s hs
  cases result with
  | ok a =>
    obtain ⟨result, s'', hrun', hs''⟩ := hf a s' hs'
    refine ⟨result, s'', ?_, hs''⟩
    rw [ExceptT.run_bind]
    exact (congrArg (Option.bind · _) hrun).trans hrun'
  | error e =>
    refine ⟨.error e, s', ?_, hs'⟩
    rw [ExceptT.run_bind]
    exact congrArg (Option.bind · _) hrun

theorem mapM {f : α → ExceptT ε (StateT Store Option) β} (hf : ∀ a, EndsIn I (f a))
    (items : List α) : EndsIn I (items.mapM f) := by
  induction items with
  | nil => exact pure []
  | cons a rest ih =>
    rw [List.mapM_cons]
    exact bind (hf a) fun b => bind ih fun bs => pure (b :: bs)

end EndsIn

theorem Sequence.make_ends {state : State} (hstate : state.Listed) : Ends (make state) :=
  fun _ hs => ⟨.ok _, _, rfl, hs.allocate hstate⟩

theorem Value.materialize_ends (v : Value) : Ends v.materialize := by
  intro s hs
  unfold materialize
  split
  case h_4 h =>
    obtain ⟨values, s', hdrain, hs', -⟩ := hs.drain h []
    exact ⟨.ok values, s', hdrain, hs'⟩
  case h_5 => exact EndsIn.throw _ s hs
  all_goals exact EndsIn.pure _ s hs

end Conformance
