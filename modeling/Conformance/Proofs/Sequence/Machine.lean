import Conformance.Sequence.Pull

/-!
# Nested steps, one move at a time

A machine runs a program on a store one move at a time. At each moment it shows the steps that are
in progress, each with the question of the caller for whose sake it was begun. The program may
come to no end; the machine then goes through all that the program does.

## Implementation notes

The program is a step that belongs to no sequence. What it asks may depend on what it was told, so
it stands for every series of operations from outside.

-/

namespace Conformance

/-- The sequence from which a question pulls. -/
def Query.pulled? : Query → Option Handle
  | tryNext h | next h | drain h => some h
  | exhausted _ | describe _ | resolve _ => none

/-- The place in which a program or a step runs, with all steps around it. -/
inductive Site where
  /-- Outside all steps, after the exchanges of `log`. -/
  | outside (log : List Exchange)
  /-- In a step of a sequence after the exchanges of `log`. The caller pulled for a question and
  goes on with `next`; if the question is a drain, it has already seen some values. -/
  | inside (sequence : Handle) (generator : Generator) (past : Past) (log : List Exchange)
      (query : Query) (next : query.Answer → Step) (seen : List Value) (caller : Site)

namespace Site

/-- The sequences whose steps are in progress, the innermost first. -/
def active : Site → List Handle
  | outside _ => []
  | inside h _ _ _ _ _ _ caller => h :: caller.active

/-- The site after more exchanges. -/
def learn (more : List Exchange) : Site → Site
  | outside log => outside (log ++ more)
  | inside h g past log q next seen caller => inside h g past (log ++ more) q next seen caller

@[simp] theorem learn_nil (site : Site) : site.learn [] = site := by
  cases site <;> simp [learn]

@[simp] theorem learn_learn (site : Site) (first second : List Exchange) :
    (site.learn first).learn second = site.learn (first ++ second) := by
  cases site <;> simp [learn]

@[simp] theorem active_learn (site : Site) (more : List Exchange) :
    (site.learn more).active = site.active := by
  cases site <;> rfl

end Site

/-- What the machine does next. -/
inductive Control where
  /-- Runs what is left of a program or of a step. -/
  | run (step : Step) (site : Site)
  /-- Answers a question of a site, which then goes on with `next`. -/
  | ask (query : Query) (next : query.Answer → Step) (seen : List Value) (site : Site)

namespace Control

/-- The site at which the machine is. -/
def site : Control → Site
  | run _ site => site
  | ask _ _ _ site => site

/-- Hands an answer to the site that asked. -/
def answer (q : Query) (next : q.Answer → Step) (site : Site) (a : q.Answer) : Control :=
  run (next a) (site.learn [⟨q, a⟩])

/-- Hands the result of a pull to the site that asked. A drain that was given a value goes on. -/
def receive (seen : List Value) (site : Site) :
    (q : Query) → (q.Answer → Step) → Except Fault (Option Value) → Control
  | .tryNext h, next, r => answer (.tryNext h) next site r
  | .next h, next, r => answer (.next h) next site r.toOption.join
  | .drain h, next, .ok (some v) => ask (.drain h) next (v :: seen) site
  | .drain h, next, .ok none => answer (.drain h) next site (.ok seen.reverse)
  | .drain h, next, .error e => answer (.drain h) next site (.error e)
  | q, next, _ => ask q next seen site

@[simp] theorem active_receive (seen : List Value) (site : Site) (q : Query)
    (next : q.Answer → Step) (r : Except Fault (Option Value)) :
    (receive seen site q next r).site.active = site.active := by
  cases q <;> try rfl
  · simp [receive, answer, Control.site]
  · simp [receive, answer, Control.site]
  · rcases r with e | _ | v <;> simp [receive, answer, Control.site]

end Control

/-- The machine at one moment. -/
structure Machine where
  control : Control
  store : Store

namespace Machine

/-- The moment at which a program begins. -/
def start (program : Step) (s : Store) : Machine := ⟨.run program (.outside []), s⟩

/-- The sequences whose steps are in progress. -/
def active (c : Machine) : List Handle := c.control.site.active

@[simp] theorem active_receive (seen : List Value) (site : Site) (q : Query)
    (next : q.Answer → Step) (r : Except Fault (Option Value)) (s : Store) :
    active ⟨.receive seen site q next r, s⟩ = site.active :=
  Control.active_receive ..

/-- A pull from a sequence for a question: its result, or the beginning of a step. -/
def pull (h : Handle) (q : Query) (next : q.Answer → Step) (seen : List Value) (site : Site)
    (s : Store) : Machine :=
  match s.state h with
  | .eager items cursor => ⟨.receive seen site q next (.ok items[cursor]?), s.setState h
      (if cursor < items.length then .eager items (cursor + 1) else .exhausted)⟩
  | .running => ⟨.receive seen site q next (.error .generatorRunning), s⟩
  | .exhausted => ⟨.receive seen site q next (.ok none), s⟩
  | .waiting g past => ⟨.run (g.step past) (.inside h g past [] q next seen site), s.enter h⟩

/-- One move. There is none after the end of the program. -/
def advance : Machine → Option Machine
  | ⟨.run (.finish _) (.outside _), _⟩ => none
  | ⟨.run (.finish value) (.inside h g past log q next seen caller), s⟩ =>
    some ⟨.receive seen caller q next (.ok value), s.leave h g (log :: past) value⟩
  | ⟨.run (.ask q next) site, s⟩ => some ⟨.ask q next [] site, s⟩
  | ⟨.ask (.tryNext h) next seen site, s⟩ => some (pull h (.tryNext h) next seen site s)
  | ⟨.ask (.next h) next seen site, s⟩ => some (pull h (.next h) next seen site s)
  | ⟨.ask (.drain h) next seen site, s⟩ => some (pull h (.drain h) next seen site s)
  | ⟨.ask (.exhausted h) next _ site, s⟩ =>
    some ⟨.answer (.exhausted h) next site (s.state h).isExhausted, s⟩
  | ⟨.ask (.describe h) next _ site, s⟩ =>
    some ⟨.answer (.describe h) next site (s.state h).describe, s⟩
  | ⟨.ask (.resolve name) next _ site, s⟩ =>
    some ⟨.answer (.resolve name) next site (s.resolve name), s⟩

theorem advance_ask_of_pulled {q : Query} {h : Handle} (hq : q.pulled? = some h)
    (next : q.Answer → Step) (seen : List Value) (site : Site) (s : Store) :
    advance ⟨.ask q next seen site, s⟩ = some (pull h q next seen site s) := by
  cases q <;> cases hq <;> rfl

end Machine

/-- A pull that was not refused, at the moment at which it ends. -/
structure Delivery where
  sequence : Handle
  /-- The value that the sequence gave, if it gave one. -/
  value : Option Value
  /-- What the step of a generator asked and was told. -/
  log : List Exchange

namespace Machine

/-- The pulls that end with the next move. -/
def deliveries : Machine → List Delivery
  | ⟨.run (.finish value) (.inside h _ _ log _ _ _ _), _⟩ => [⟨h, value, log⟩]
  | ⟨.run _ _, _⟩ => []
  | ⟨.ask q _ _ _, s⟩ =>
    match q.pulled? with
    | none => []
    | some h =>
      match s.state h with
      | .eager items cursor => [⟨h, items[cursor]?, []⟩]
      | .exhausted => [⟨h, none, []⟩]
      | .running | .waiting .. => []

/-- The machine comes from one moment to another, and meanwhile some pulls end. -/
inductive Runs (c : Machine) : List Delivery → Machine → Prop
  | refl : Runs c [] c
  | move {ds : List Delivery} {c₁ c₂ : Machine} (run : Runs c ds c₁)
      (step : c₁.advance = some c₂) : Runs c (ds ++ c₁.deliveries) c₂

theorem Runs.trans {c₁ c₂ c₃ : Machine} {ds ds' : List Delivery} (first : c₁.Runs ds c₂)
    (second : c₂.Runs ds' c₃) : c₁.Runs (ds ++ ds') c₃ := by
  induction second with
  | refl => simpa using first
  | move run step ih =>
      rw [← List.append_assoc]
      exact ih.move step

theorem Runs.single {c₁ c₂ : Machine} (step : c₁.advance = some c₂) :
    c₁.Runs c₁.deliveries c₂ :=
  Runs.refl.move step

/-- The machine comes from one moment to another. -/
def Reaches (c₁ c₂ : Machine) : Prop := ∃ ds, c₁.Runs ds c₂

theorem Reaches.refl (c : Machine) : c.Reaches c := ⟨[], .refl⟩

theorem Reaches.trans {c₁ c₂ c₃ : Machine} (first : c₁.Reaches c₂) (second : c₂.Reaches c₃) :
    c₁.Reaches c₃ := by
  obtain ⟨ds, first⟩ := first
  obtain ⟨ds', second⟩ := second
  exact ⟨ds ++ ds', first.trans second⟩

theorem Reaches.single {c₁ c₂ : Machine} (step : c₁.advance = some c₂) : c₁.Reaches c₂ :=
  ⟨_, Runs.single step⟩

/-- The machine does all that pulls, drains, questions and steps do. -/
theorem reaches_outcome :
    (∀ s h r s', Store.pull s h = some (r, s') → ∀ q next seen site, q.pulled? = some h →
      Reaches ⟨.ask q next seen site, s⟩ ⟨.receive seen site q next r, s'⟩) ∧
    (∀ s h seen r s', Store.drain s h seen = some (r, s') → ∀ next site,
      Reaches ⟨.ask (.drain h) next seen site, s⟩ ⟨.answer (.drain h) next site r, s'⟩) ∧
    (∀ q s a s', Query.ask q s = some (a, s') → ∀ next site,
      Reaches ⟨.ask q next [] site, s⟩ ⟨.answer q next site a, s'⟩) ∧
    (∀ step s value log s', Step.run step s = some (value, log, s') → ∀ site,
      Reaches ⟨.run step site, s⟩ ⟨.run (.finish value) (site.learn log), s'⟩) := by
  apply outcome_induction
  case eager =>
    intro s h items cursor hs q next seen site hq
    apply Reaches.single
    rw [advance_ask_of_pulled hq, pull, hs]
  case running =>
    intro s h hs q next seen site hq
    apply Reaches.single
    rw [advance_ask_of_pulled hq, pull, hs]
  case exhausted =>
    intro s h hs q next seen site hq
    apply Reaches.single
    rw [advance_ask_of_pulled hq, pull, hs]
  case waiting =>
    intro s h g past value log s' hs hrun q next seen site hq
    have hbegin : Reaches ⟨.ask q next seen site, s⟩
        ⟨.run (g.step past) (.inside h g past [] q next seen site), s.enter h⟩ := by
      apply Reaches.single
      rw [advance_ask_of_pulled hq, pull, hs]
    exact (hbegin.trans (hrun _)).trans (Reaches.single rfl)
  case more =>
    intro s s₁ s₂ h v seen r hpull hdrain next site
    exact (hpull (.drain h) next seen site rfl).trans (hdrain next site)
  case last =>
    intro s s' h seen hpull next site
    exact hpull (.drain h) next seen site rfl
  case refused =>
    intro s s' h seen e hpull next site
    exact hpull (.drain h) next seen site rfl
  case tryNext =>
    intro s s' h r hpull next site
    exact hpull (.tryNext h) next [] site rfl
  case next =>
    intro s s' h r hpull next site
    exact hpull (.next h) next [] site rfl
  case drain =>
    intro s s' h r hdrain next site
    exact hdrain next site
  case isExhausted =>
    intro s h next site
    exact Reaches.single rfl
  case describe =>
    intro s h next site
    exact Reaches.single rfl
  case resolve =>
    intro s name next site
    exact Reaches.single rfl
  case finish =>
    intro value s site
    rw [Site.learn_nil]
    exact Reaches.refl _
  case ask =>
    intro q next s s₁ s₂ a value log hask hrun site
    have hbegin : Reaches ⟨.run (.ask q next) site, s⟩ ⟨.ask q next [] site, s⟩ :=
      Reaches.single rfl
    have htail := hrun (site.learn [⟨q, a⟩])
    rw [Site.learn_learn] at htail
    exact (hbegin.trans (hask next site)).trans htail

end Machine

/-- What a question comes to once a pull for it had a result. -/
def Query.resume (q : Query) (seen : List Value) (r : Except Fault (Option Value)) (s : Store) :
    Option (q.Answer × Store) :=
  match q, r with
  | .tryNext _, r => some (r, s)
  | .next _, r => some (r.toOption.join, s)
  | .drain h, .ok (some v) => s.drain h (v :: seen)
  | .drain _, .ok none => some (.ok seen.reverse, s)
  | .drain _, .error e => some (.error e, s)
  | q, _ => q.ask s

/-- What a question comes to when a drain has seen some values. -/
def Query.askAfter (q : Query) (seen : List Value) (s : Store) : Option (q.Answer × Store) :=
  match q with
  | .drain h => s.drain h seen
  | q => q.ask s

theorem Query.askAfter_of_pulled {q : Query} {h : Handle} (hq : q.pulled? = some h)
    (seen : List Value) (s : Store) :
    q.askAfter seen s = (s.pull h).bind fun (r, s) => q.resume seen r s := by
  cases q <;> cases hq
  case tryNext =>
    simp only [askAfter, resume, ask_tryNext]
    cases s.pull h <;> rfl
  case next =>
    simp only [askAfter, resume, ask_next]
    cases s.pull h <;> rfl
  case drain =>
    cases hp : s.pull h with
    | none => simp [askAfter, Store.drain_of_pull_eq_none hp]
    | some o =>
        obtain ⟨e | _ | v, s'⟩ := o
        · simp [askAfter, resume, Store.drain_of_error hp]
        · simp [askAfter, resume, Store.drain_of_none hp]
        · simp [askAfter, resume, Store.drain_of_some hp]

/-- What is told at the end of a program. -/
abbrev Result := Option Value × List Exchange × Store

/-- What the program comes to once the step at a site has finished. -/
def Site.finish (value : Option Value) (more : List Exchange) (s : Store) :
    Site → Option Result
  | outside log => some (value, log ++ more, s)
  | inside h g past log q next seen caller =>
    (q.resume seen (.ok value) (s.leave h g ((log ++ more) :: past) value)).bind fun told =>
      ((next told.1).run told.2).bind fun (value, log, s) =>
        caller.finish value (⟨q, told.1⟩ :: log) s

/-- What the program comes to once the question of a site is answered. -/
def Site.goOn (site : Site) (q : Query) (next : q.Answer → Step) (told : q.Answer × Store) :
    Option Result :=
  ((next told.1).run told.2).bind fun (value, log, s) => site.finish value (⟨q, told.1⟩ :: log) s

theorem Site.finish_inside (h : Handle) (g : Generator) (past : Past) (log more : List Exchange)
    (q : Query) (next : q.Answer → Step) (seen : List Value) (caller : Site)
    (value : Option Value) (s : Store) :
    (inside h g past log q next seen caller).finish value more s =
      (q.resume seen (.ok value) (s.leave h g ((log ++ more) :: past) value)).bind
        (caller.goOn q next) :=
  rfl

theorem Site.finish_learn (site : Site) (value : Option Value) (more log : List Exchange)
    (s : Store) : (site.learn more).finish value log s = site.finish value (more ++ log) s := by
  cases site <;> simp [learn, finish]

namespace Machine

/-- What the program comes to from a moment on. -/
def outcome (c : Machine) : Option Result :=
  match c.control with
  | .run step site => (step.run c.store).bind fun (value, log, s) => site.finish value log s
  | .ask q next seen site => (q.askAfter seen c.store).bind (site.goOn q next)

theorem outcome_run (step : Step) (site : Site) (s : Store) : outcome ⟨.run step site, s⟩ =
    (step.run s).bind fun (value, log, s) => site.finish value log s :=
  rfl

theorem outcome_ask (q : Query) (next : q.Answer → Step) (seen : List Value) (site : Site)
    (s : Store) :
    outcome ⟨.ask q next seen site, s⟩ = (q.askAfter seen s).bind (site.goOn q next) :=
  rfl

theorem outcome_answer (q : Query) (next : q.Answer → Step) (site : Site) (a : q.Answer)
    (s : Store) : outcome ⟨.answer q next site a, s⟩ = site.goOn q next (a, s) := by
  rw [Control.answer, outcome_run]
  simp only [Site.finish_learn, List.singleton_append, Site.goOn]

theorem outcome_receive (q : Query) (next : q.Answer → Step) (seen : List Value) (site : Site)
    (r : Except Fault (Option Value)) (s : Store) :
    outcome ⟨.receive seen site q next r, s⟩ = (q.resume seen r s).bind (site.goOn q next) := by
  cases q with
  | tryNext h => rw [Control.receive, outcome_answer, Query.resume, Option.bind_some]
  | next h => rw [Control.receive, outcome_answer, Query.resume, Option.bind_some]
  | drain h =>
      obtain e | _ | v := r
      · rw [Control.receive, outcome_answer, Query.resume, Option.bind_some]
      · rw [Control.receive, outcome_answer, Query.resume, Option.bind_some]
      · rfl
  | exhausted | describe | resolve => rfl

theorem outcome_pull {q : Query} {h : Handle} (hq : q.pulled? = some h)
    (next : q.Answer → Step) (seen : List Value) (site : Site) (s : Store) :
    outcome (pull h q next seen site s) = outcome ⟨.ask q next seen site, s⟩ := by
  rw [outcome_ask, Query.askAfter_of_pulled hq, pull]
  cases hs : s.state h with
  | eager items cursor =>
      rw [Store.pull_eager hs, Option.bind_some]
      exact outcome_receive ..
  | running =>
      rw [Store.pull_running hs, Option.bind_some]
      exact outcome_receive ..
  | exhausted =>
      rw [Store.pull_exhausted hs, Option.bind_some]
      exact outcome_receive ..
  | waiting g past =>
      rw [Store.pull_waiting hs]
      change outcome ⟨.run (g.step past) (.inside h g past [] q next seen site), s.enter h⟩ = _
      rw [outcome_run]
      cases (g.step past).run (s.enter h) <;> rfl

/-- A move does not change what the program comes to. -/
theorem outcome_advance {c c' : Machine} (step : c.advance = some c') :
    c.outcome = c'.outcome := by
  obtain ⟨control, s⟩ := c
  cases control with
  | run tree site =>
      cases tree with
      | ask q next =>
          cases step
          rw [outcome_run, Step.run_ask, outcome_ask]
          have hfirst : q.askAfter [] s = q.ask s := by
            cases q <;> simp [Query.askAfter]
          rw [hfirst]
          cases q.ask s with
          | none => rfl
          | some told =>
              obtain ⟨a, s⟩ := told
              simp only [Option.bind_some, Site.goOn]
              cases (next a).run s <;> rfl
      | finish value =>
          cases site with
          | outside => cases step
          | inside h g past log q next seen caller =>
              cases step
              rw [outcome_run, outcome_receive, Step.run_finish, Option.bind_some]
              simp only [Site.finish_inside, List.append_nil]
  | ask q next seen site =>
      cases q
      case tryNext h =>
        cases step
        exact (outcome_pull rfl ..).symm
      case next h =>
        cases step
        exact (outcome_pull rfl ..).symm
      case drain h =>
        cases step
        exact (outcome_pull rfl ..).symm
      all_goals
        cases step
        rw [outcome_answer, outcome_ask]
        simp [Query.askAfter]

theorem Runs.outcome_eq {c c' : Machine} {ds : List Delivery} (run : c.Runs ds c') :
    c.outcome = c'.outcome := by
  induction run with
  | refl => rfl
  | move run step ih => exact ih.trans (outcome_advance step)

/-- The machine comes to the end of a program exactly when the program comes to an end, and then
with the same outcome. -/
theorem run_eq_some_iff_reaches {program : Step} {s s' : Store} {value : Option Value}
    {log : List Exchange} :
    program.run s = some (value, log, s') ↔
      (start program s).Reaches ⟨.run (.finish value) (.outside log), s'⟩ := by
  constructor
  · intro h
    exact reaches_outcome.2.2.2 program s value log s' h (.outside [])
  · rintro ⟨ds, run⟩
    have heq := run.outcome_eq
    rw [start, outcome_run, outcome_run, Step.run_finish] at heq
    cases hrun : program.run s with
    | none => simp [hrun, Site.finish] at heq
    | some o =>
        obtain ⟨value', log', s''⟩ := o
        simpa [hrun, Site.finish] using heq

end Machine

end Conformance
