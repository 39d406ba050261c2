import Conformance.Sequence.Store

/-!
# Pulling from sequences

A pull asks a sequence for its next value. A pull on a generator runs one step; the sequence is
marked as running meanwhile, so that a pull from inside the step, through whatever other
sequences, is refused and changes nothing. After the first step without a value a generator is
never run again.

Steps nest: a step may pull on a second generator, whose step may pull on a third. A drain need
not come to an end, and then neither does the step that waits for it. A computation without end
has no outcome, which is written `none`.
-/

namespace Conformance

mutual

/-- Pulls from a sequence: the value, if the sequence gives one, and the store afterwards. -/
def Store.pull (s : Store) (h : Handle) : Option (Except Fault (Option Value) × Store) :=
  match s.state h with
  | .eager items cursor =>
    match items[cursor]? with
    | some v => some (.ok (some v), s.setState h (.eager items (cursor + 1)))
    | none => some (.ok none, s.setState h .exhausted)
  | .running => some (.error .generatorRunning, s)
  | .exhausted => some (.ok none, s)
  | .waiting g past => do
    let (value, log, s) ← g.step past |>.run (s.enter h)
    return (.ok value, s.leave h g (log :: past) value)
partial_fixpoint

/-- Pulls until the sequence gives nothing. The values come after those already seen, which are
kept latest first. -/
def Store.drain (s : Store) (h : Handle) (seen : List Value) :
    Option (Except Fault (List Value) × Store) := do
  match ← s |>.pull h with
  | (.ok (some v), s) => s |>.drain h (v :: seen)
  | (.ok none, s) => return (.ok seen.reverse, s)
  | (.error e, s) => return (.error e, s)
partial_fixpoint

/-- The answer to a question, and the store afterwards. -/
def Query.ask (q : Query) (s : Store) : Option (q.Answer × Store) :=
  match q with
  | .tryNext h => s |>.pull h
  | .next h => do
    let (result, s) ← s |>.pull h
    return (result.toOption.join, s)
  | .drain h => s |>.drain h []
  | .exhausted h => some ((s.state h).isExhausted, s)
  | .describe h => some ((s.state h).describe, s)
  | .resolve name => some (s.resolve name, s)
partial_fixpoint

/-- Runs a step to its end: what it finishes with, what it asked and was told, and the store
afterwards. -/
def Step.run (step : Step) (s : Store) : Option (Option Value × List Exchange × Store) :=
  match step with
  | .finish value => some (value, [], s)
  | .ask q next => do
    let (answer, s) ← q |>.ask s
    let (value, log, s) ← next answer |>.run s
    return (value, ⟨q, answer⟩ :: log, s)
partial_fixpoint

end

namespace Store

variable {s s' : Store} {h : Handle}

theorem pull_eager {items : List Value} {cursor : Nat} (hs : s.state h = .eager items cursor) :
    s.pull h = some (.ok items[cursor]?, s.setState h
      (if cursor < items.length then .eager items (cursor + 1) else .exhausted)) := by
  rw [pull, hs]
  by_cases hc : cursor < items.length <;> simp [hc]

theorem pull_running (hs : s.state h = .running) :
    s.pull h = some (.error .generatorRunning, s) := by
  rw [pull, hs]

theorem pull_exhausted (hs : s.state h = .exhausted) : s.pull h = some (.ok none, s) := by
  rw [pull, hs]

theorem pull_waiting {g : Generator} {past : Past} (hs : s.state h = .waiting g past) :
    s.pull h = ((g.step past).run (s.enter h)).map fun (value, log, s) =>
      (.ok value, s.leave h g (log :: past) value) := by
  rw [pull]
  simp only [hs]
  cases (g.step past).run (s.enter h) <;> rfl

theorem drain_of_some {v : Value} (hp : s.pull h = some (.ok (some v), s')) (seen : List Value) :
    s.drain h seen = s'.drain h (v :: seen) := by
  rw [drain, hp]
  rfl

theorem drain_of_none (hp : s.pull h = some (.ok none, s')) (seen : List Value) :
    s.drain h seen = some (.ok seen.reverse, s') := by
  rw [drain, hp]
  rfl

theorem drain_of_error {e : Fault} (hp : s.pull h = some (.error e, s')) (seen : List Value) :
    s.drain h seen = some (.error e, s') := by
  rw [drain, hp]
  rfl

theorem drain_of_pull_eq_none (hp : s.pull h = none) (seen : List Value) :
    s.drain h seen = none := by
  rw [drain, hp]
  rfl

end Store

@[simp] theorem Step.run_finish (value : Option Value) (s : Store) :
    (Step.finish value).run s = some (value, [], s) := by
  rw [Step.run]

theorem Step.run_ask (q : Query) (next : q.Answer → Step) (s : Store) :
    (Step.ask q next).run s = (q.ask s).bind fun (answer, s) =>
      ((next answer).run s).map fun (value, log, s) => (value, ⟨q, answer⟩ :: log, s) := by
  rw [Step.run]
  cases q.ask s with
  | none => rfl
  | some o =>
      obtain ⟨answer, s⟩ := o
      exact (Option.map_eq_bind ..).symm

@[simp] theorem Query.ask_tryNext (h : Handle) (s : Store) :
    (Query.tryNext h).ask s = s.pull h := by
  rw [Query.ask]

@[simp] theorem Query.ask_next (h : Handle) (s : Store) :
    (Query.next h).ask s = (s.pull h).map fun (result, s) => (result.toOption.join, s) := by
  rw [Query.ask]
  cases s.pull h <;> rfl

@[simp] theorem Query.ask_drain (h : Handle) (s : Store) :
    (Query.drain h).ask s = s.drain h [] := by
  rw [Query.ask]

@[simp] theorem Query.ask_exhausted (h : Handle) (s : Store) :
    (Query.exhausted h).ask s = some ((s.state h).isExhausted, s) := by
  rw [Query.ask]

@[simp] theorem Query.ask_describe (h : Handle) (s : Store) :
    (Query.describe h).ask s = some ((s.state h).describe, s) := by
  rw [Query.ask]

@[simp] theorem Query.ask_resolve (name : String) (s : Store) :
    (Query.resolve name).ask s = some (s.resolve name, s) := by
  rw [Query.ask]

/-- What holds of the outcomes of pulls, drains, questions and steps, by induction on how they
come about. -/
theorem outcome_induction
    {pullP : Store → Handle → Except Fault (Option Value) → Store → Prop}
    {drainP : Store → Handle → List Value → Except Fault (List Value) → Store → Prop}
    {askP : (q : Query) → Store → q.Answer → Store → Prop}
    {runP : Step → Store → Option Value → List Exchange → Store → Prop}
    (eager : ∀ s h items cursor, s.state h = .eager items cursor →
      pullP s h (.ok items[cursor]?) (s.setState h
        (if cursor < items.length then .eager items (cursor + 1) else .exhausted)))
    (running : ∀ s h, s.state h = .running → pullP s h (.error .generatorRunning) s)
    (exhausted : ∀ s h, s.state h = .exhausted → pullP s h (.ok none) s)
    (waiting : ∀ s h g past value log s', s.state h = .waiting g past →
      runP (g.step past) (s.enter h) value log s' →
      pullP s h (.ok value) (s'.leave h g (log :: past) value))
    (more : ∀ s s₁ s₂ h v seen r, pullP s h (.ok (some v)) s₁ → drainP s₁ h (v :: seen) r s₂ →
      drainP s h seen r s₂)
    (last : ∀ s s' h seen, pullP s h (.ok none) s' → drainP s h seen (.ok seen.reverse) s')
    (refused : ∀ s s' h seen e, pullP s h (.error e) s' → drainP s h seen (.error e) s')
    (tryNext : ∀ s s' h r, pullP s h r s' → askP (.tryNext h) s r s')
    (next : ∀ s s' h r, pullP s h r s' → askP (.next h) s r.toOption.join s')
    (drain : ∀ s s' h r, drainP s h [] r s' → askP (.drain h) s r s')
    (isExhausted : ∀ s h, askP (.exhausted h) s (s.state h).isExhausted s)
    (describe : ∀ s h, askP (.describe h) s (s.state h).describe s)
    (resolve : ∀ s name, askP (.resolve name) s (s.resolve name) s)
    (finish : ∀ value s, runP (.finish value) s value [] s)
    (ask : ∀ q next s s₁ s₂ answer value log, askP q s answer s₁ →
      runP (next answer) s₁ value log s₂ → runP (.ask q next) s value (⟨q, answer⟩ :: log) s₂) :
    (∀ s h r s', Store.pull s h = some (r, s') → pullP s h r s') ∧
    (∀ s h seen r s', Store.drain s h seen = some (r, s') → drainP s h seen r s') ∧
    (∀ q s answer s', Query.ask q s = some (answer, s') → askP q s answer s') ∧
    (∀ step s value log s', Step.run step s = some (value, log, s') →
      runP step s value log s') := by
  have all := Store.pull.mutual_partial_correctness
    (fun s h o => pullP s h o.1 o.2) (fun step s o => runP step s o.1 o.2.1 o.2.2)
    (fun q s o => askP q s o.1 o.2) (fun s h seen o => drainP s h seen o.1 o.2)
    ?pull ?run ?ask ?drain
  case pull =>
    rintro run ih s h ⟨r, s'⟩ hp
    cases hs : s.state h with
    | eager items cursor =>
      rw [hs] at hp
      have hcase := eager s h items cursor hs
      by_cases hc : cursor < items.length
      · simp only [hc, if_true, List.getElem?_eq_getElem] at hp hcase
        cases hp
        exact hcase
      · simp only [hc, if_false, List.getElem?_eq_none (Nat.le_of_not_lt hc)] at hp hcase
        cases hp
        exact hcase
    | running =>
      rw [hs] at hp
      cases hp
      exact running s h hs
    | exhausted =>
      rw [hs] at hp
      cases hp
      exact exhausted s h hs
    | waiting g past =>
      rw [hs] at hp
      obtain ⟨⟨value, log, s₁⟩, hrun, hp⟩ := Option.bind_eq_some_iff.1 hp
      cases hp
      exact waiting s h g past value log s₁ hs (ih _ _ _ hrun)
  case run =>
    rintro run askq ihRun ihAsk step s ⟨value, log, s'⟩ hr
    cases step with
    | finish =>
      cases hr
      exact finish value s
    | ask q following =>
      obtain ⟨⟨answer, s₁⟩, hask, hr⟩ := Option.bind_eq_some_iff.1 hr
      obtain ⟨⟨value, log, s₂⟩, hrun, hr⟩ := Option.bind_eq_some_iff.1 hr
      cases hr
      exact ask q following s s₁ s' answer value _ (ihAsk _ _ _ hask) (ihRun _ _ _ hrun)
  case ask =>
    rintro pull drainAfter ihPull ihDrain q s ⟨answer, s'⟩ ha
    cases q with
    | tryNext h => exact tryNext s s' h answer (ihPull _ _ _ ha)
    | next h =>
      obtain ⟨⟨r, s₁⟩, hpull, ha⟩ := Option.bind_eq_some_iff.1 ha
      cases ha
      exact next s s' h r (ihPull _ _ _ hpull)
    | drain h => exact drain s s' h answer (ihDrain _ _ _ _ ha)
    | exhausted h =>
      cases ha
      exact isExhausted s h
    | describe h =>
      cases ha
      exact describe s h
    | resolve name =>
      cases ha
      exact resolve s name
  case drain =>
    rintro pull drainAfter ihPull ihDrain s h seen ⟨r, s'⟩ hd
    obtain ⟨⟨r₁, s₁⟩, hpull, hd⟩ := Option.bind_eq_some_iff.1 hd
    match r₁ with
    | .ok (some v) => exact more s s₁ s' h v seen r (ihPull _ _ _ hpull) (ihDrain _ _ _ _ hd)
    | .ok none =>
      cases hd
      exact last s s' h seen (ihPull _ _ _ hpull)
    | .error e =>
      cases hd
      exact refused s s' h seen e (ihPull _ _ _ hpull)
  exact ⟨fun s h r s' hp => all.1 s h (r, s') hp,
    fun s h seen r s' hp => all.2.2.2 s h seen (r, s') hp,
    fun q s answer s' hp => all.2.2.1 q s (answer, s') hp,
    fun step s value log s' hp => all.2.1 step s (value, log, s') hp⟩

/-- What holds of the drains of one sequence, by induction on their pulls. -/
theorem Store.drain_induction {h : Handle}
    {motive : Store → List Value → Except Fault (List Value) → Store → Prop}
    (more : ∀ s s₁ s₂ v seen r, s.pull h = some (.ok (some v), s₁) →
      motive s₁ (v :: seen) r s₂ → motive s seen r s₂)
    (last : ∀ s s' seen, s.pull h = some (.ok none, s') → motive s seen (.ok seen.reverse) s')
    (refused : ∀ s s' seen e, s.pull h = some (.error e, s') → motive s seen (.error e) s')
    {s s' : Store} {seen : List Value} {r : Except Fault (List Value)}
    (hdrain : s.drain h seen = some (r, s')) : motive s seen r s' := by
  have all := @outcome_induction
    (fun s k r s' => s.pull k = some (r, s'))
    (fun s k seen r s' => s.drain k seen = some (r, s') ∧ (k = h → motive s seen r s'))
    (fun q s answer s' => q.ask s = some (answer, s'))
    (fun step s value log s' => step.run s = some (value, log, s'))
    (fun s k items cursor hs => Store.pull_eager hs)
    (fun s k hs => Store.pull_running hs)
    (fun s k hs => Store.pull_exhausted hs)
    ?waiting ?more ?last ?refused
    (fun s s' k r hp => by simpa using hp)
    (fun s s' k r hp => by simp [hp])
    (fun s s' k r hd => by simpa using hd.1)
    (fun s k => Query.ask_exhausted k s)
    (fun s k => Query.ask_describe k s)
    (fun s name => Query.ask_resolve name s)
    (fun value s => Step.run_finish value s)
    ?ask
  case waiting =>
    intro s k g past value log s' hs hrun
    rw [Store.pull_waiting hs, hrun]
    rfl
  case more =>
    rintro s s₁ s₂ k v seen r hpull ⟨hd, ih⟩
    refine ⟨(Store.drain_of_some hpull seen).trans hd, ?_⟩
    rintro rfl
    exact more s s₁ s₂ v seen r hpull (ih rfl)
  case last =>
    intro s s' k seen hpull
    refine ⟨Store.drain_of_none hpull seen, ?_⟩
    rintro rfl
    exact last s s' seen hpull
  case refused =>
    intro s s' k seen e hpull
    refine ⟨Store.drain_of_error hpull seen, ?_⟩
    rintro rfl
    exact refused s s' seen e hpull
  case ask =>
    intro q next s s₁ s₂ answer value log hask hrun
    simp [Step.run_ask, hask, hrun]
  exact (all.2.1 s h seen r s' hdrain).2 rfl

end Conformance
