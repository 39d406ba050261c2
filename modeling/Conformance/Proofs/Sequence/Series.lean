import Conformance.Sequence.Pull

/-!
# Series of single pulls

A drain, and a take, is a series of single pulls from one sequence. What a pull leaves as it was
is said once for all computations on a store: the steps in progress stay in progress and are not
begun again, and no other steps are in progress at the end.
-/

namespace Conformance

namespace Store

/-- What no computation changes: which steps are in progress, and how often these were begun. -/
structure Evolves (s s' : Store) : Prop where
  length : s'.cells.length = s.cells.length
  running_iff : ∀ h, s'.state h = .running ↔ s.state h = .running
  calls : ∀ h, s.state h = .running → s'.calls h = s.calls h

namespace Evolves

variable {s s₁ s₂ : Store}

theorem refl (s : Store) : s.Evolves s := ⟨rfl, fun _ => Iff.rfl, fun _ _ => rfl⟩

theorem trans (first : s.Evolves s₁) (second : s₁.Evolves s₂) : s.Evolves s₂ where
  length := second.length.trans first.length
  running_iff h := (second.running_iff h).trans (first.running_iff h)
  calls h hs := (second.calls h ((first.running_iff h).2 hs)).trans (first.calls h hs)

theorem setState {h : Handle} {state : State} (hs : s.state h ≠ .running)
    (hstate : state ≠ .running) : s.Evolves (s.setState h state) where
  length := length_setState ..
  running_iff k := by
    rw [state_setState]
    split
    · next hk =>
        rw [← hk.1]
        exact ⟨fun heq => absurd heq hstate, fun heq => absurd heq hs⟩
    · exact Iff.rfl
  calls k _ := calls_setState ..

/-- A step between its beginning and its end. -/
theorem leave {h : Handle} {g : Generator} {past : Past} {value : Option Value}
    (hs : s.state h ≠ .running) (step : (s.enter h).Evolves s₁) :
    s.Evolves (s₁.leave h g past value) where
  length := by simp [step.length]
  running_iff k := by
    have hk := step.running_iff k
    rw [state_enter] at hk
    rw [state_leave, step.length, length_enter]
    by_cases hhk : h = k ∧ h.index < s.cells.length
    · rw [if_pos hhk]
      rw [hhk.1] at hs
      constructor
      · split <;> exact nofun
      · exact fun heq => absurd heq hs
    · rw [if_neg hhk] at hk ⊢
      exact hk
  calls k hk := by
    have hne : h ≠ k := by
      rintro rfl
      exact hs hk
    have henter : (s.enter h).state k = .running := by
      rw [state_enter, if_neg fun heq => hne heq.1, hk]
    rw [calls_leave, step.calls k henter, calls_enter, if_neg fun heq => hne heq.1, Nat.add_zero]

end Evolves

/-- A relation between stores that single pulls keep, if steps do, is kept by all computations. -/
theorem rel_outcome {R : Store → Store → Prop} (refl : ∀ s, R s s)
    (trans : ∀ {s₁ s₂ s₃}, R s₁ s₂ → R s₂ s₃ → R s₁ s₃)
    (eager : ∀ s h items cursor, s.state h = .eager items cursor → R s (s.setState h
      (if cursor < items.length then .eager items (cursor + 1) else .exhausted)))
    (waiting : ∀ s h g past value log s', s.state h = .waiting g past → R (s.enter h) s' →
      R s (s'.leave h g (log :: past) value)) :
    (∀ s h r s', Store.pull s h = some (r, s') → R s s') ∧
    (∀ s h seen r s', Store.drain s h seen = some (r, s') → R s s') ∧
    (∀ q s a s', Query.ask q s = some (a, s') → R s s') ∧
    (∀ step s value log s', Step.run step s = some (value, log, s') → R s s') := by
  apply @outcome_induction (fun s _ _ s' => R s s') (fun s _ _ _ s' => R s s')
    (fun _ s _ s' => R s s') (fun _ s _ _ s' => R s s')
  case eager => exact eager
  case waiting => exact waiting
  case more =>
    intro s s₁ s₂ h v seen r first second
    exact trans first second
  case ask =>
    intro q next s s₁ s₂ answer value log first second
    exact trans first second
  case last | refused | tryNext | next | drain =>
    intros
    assumption
  all_goals
    intros
    exact refl _

/-- The frame of pulls, drains, questions and steps. -/
theorem evolves_outcome :
    (∀ s h r s', Store.pull s h = some (r, s') → s.Evolves s') ∧
    (∀ s h seen r s', Store.drain s h seen = some (r, s') → s.Evolves s') ∧
    (∀ q s a s', Query.ask q s = some (a, s') → s.Evolves s') ∧
    (∀ step s value log s', Step.run step s = some (value, log, s') → s.Evolves s') := by
  apply rel_outcome Evolves.refl Evolves.trans
  case eager =>
    intro s h items cursor hs
    refine Evolves.setState (by simp [hs]) ?_
    split <;> exact nofun
  case waiting =>
    intro s h g past value log s' hs step
    exact Evolves.leave (by simp [hs]) step

variable {s s' : Store} {h : Handle}

/-- A pull on a generator between two steps runs one step. It leaves the sequence between two
steps again, or exhausted, and the rest of the store as the step left it. -/
theorem pull_waiting_cases {g : Generator} {past : Past} (hs : s.state h = .waiting g past)
    {r : Except Fault (Option Value)} (hpull : s.pull h = some (r, s')) :
    ∃ value log t, (g.step past).run (s.enter h) = some (value, log, t) ∧ r = .ok value ∧
      s'.state h = (if value.isSome then .waiting g (log :: past) else .exhausted) ∧
      s'.enter h = t.enter h ∧ s'.calls h = s.calls h + 1 := by
  rw [pull_waiting hs] at hpull
  obtain ⟨⟨value, log, t⟩, hrun, heq⟩ := Option.map_eq_some_iff.1 hpull
  obtain ⟨rfl, rfl⟩ := Prod.mk.inj heq
  have hframe := evolves_outcome.2.2.2 _ _ _ _ _ hrun
  have hlt : h.index < s.cells.length := index_lt_of_state (by simp [hs])
  have hlt' : h.index < t.cells.length := by
    rw [hframe.length, length_enter]
    exact hlt
  have henter : (s.enter h).state h = .running := by
    rw [state_enter, if_pos ⟨rfl, hlt⟩]
  refine ⟨value, log, t, hrun, rfl, ?_, ?_, ?_⟩
  · rw [state_leave, if_pos ⟨rfl, hlt'⟩]
  · rw [leave, enter_setState]
  · calc
      (t.leave h g (log :: past) value).calls h = t.calls h := calls_leave ..
      _ = (s.enter h).calls h := hframe.calls h henter
      _ = s.calls h + 1 := by rw [calls_enter, if_pos ⟨rfl, hlt⟩]

/-- A pull on a sequence whose step is not in progress is not refused. -/
theorem pull_idle (hs : s.state h ≠ .running) {r : Except Fault (Option Value)}
    (hpull : s.pull h = some (r, s')) : (∃ value, r = .ok value) ∧ s'.state h ≠ .running := by
  constructor
  · cases hstate : s.state h with
    | running => exact absurd hstate hs
    | eager =>
        rw [pull_eager hstate] at hpull
        cases hpull
        exact ⟨_, rfl⟩
    | exhausted =>
        rw [pull_exhausted hstate] at hpull
        cases hpull
        exact ⟨_, rfl⟩
    | waiting =>
        obtain ⟨value, _, _, -, hr, -⟩ := pull_waiting_cases hstate hpull
        exact ⟨value, hr⟩
  · have hframe := evolves_outcome.1 s h r s' hpull
    rwa [Ne, hframe.running_iff]

/-- A series of single pulls from a sequence, with what each of them gave. -/
inductive Pulls (h : Handle) : Store → List (Option Value) → Store → Prop
  | refl {s : Store} : Pulls h s [] s
  | pull {s s₁ s₂ : Store} {value : Option Value} {rest : List (Option Value)}
      (first : s.pull h = some (.ok value, s₁)) (later : Pulls h s₁ rest s₂) :
      Pulls h s (value :: rest) s₂

namespace Pulls

theorem single {value : Option Value} (hpull : s.pull h = some (.ok value, s')) :
    Pulls h s [value] s' :=
  .pull hpull .refl

theorem append {s₁ s₂ : Store} {rs rs' : List (Option Value)} (first : Pulls h s rs s₁)
    (second : Pulls h s₁ rs' s₂) : Pulls h s (rs ++ rs') s₂ := by
  induction first with
  | refl => exact second
  | pull hpull _ ih => exact .pull hpull (ih second)

theorem state_ne_running {rs : List (Option Value)} (series : Pulls h s rs s')
    (hs : s.state h ≠ .running) : s'.state h ≠ .running := by
  induction series with
  | refl => exact hs
  | pull hpull _ ih => exact ih (pull_idle hs hpull).2

end Pulls

/-- A drain is a series of pulls of which only the last gives nothing. -/
theorem drain_eq_some_iff (hs : s.state h ≠ .running) (seen : List Value)
    (r : Except Fault (List Value)) : s.drain h seen = some (r, s') ↔
      ∃ values, r = .ok (seen.reverse ++ values) ∧
        Pulls h s (values.map some ++ [none]) s' := by
  constructor
  · intro hdrain
    revert hs
    refine drain_induction
      (motive := fun s seen r s' => s.state h ≠ .running →
        ∃ values, r = .ok (seen.reverse ++ values) ∧
          Pulls h s (values.map some ++ [none]) s') ?more ?last ?refused hdrain
    case more =>
      intro s s₁ s₂ v seen r hpull ih hs
      obtain ⟨values, hr, series⟩ := ih (pull_idle hs hpull).2
      exact ⟨v :: values, by simpa using hr, .pull hpull series⟩
    case last =>
      intro s s' seen hpull hs
      exact ⟨[], by simp, .single hpull⟩
    case refused =>
      intro s s' seen e hpull hs
      obtain ⟨value, heq⟩ := (pull_idle hs hpull).1
      cases heq
  · rintro ⟨values, rfl, series⟩
    clear hs
    induction values generalizing s seen with
    | nil =>
        cases series with
        | pull hpull later =>
            cases later
            simpa using drain_of_none hpull seen
    | cons v values ih =>
        cases series with
        | pull hpull later =>
            rw [drain_of_some hpull, ih (v :: seen) later]
            simp

end Store
end Conformance
