import Conformance.Sequence.Pull

/-!
# Computations that use sequences

A computation uses sequences and may fail; what it pulled stays pulled when it fails. Like the
pulls that it makes, it need not come to an end.
-/

namespace Conformance

/-- A computation that uses sequences and may fail. What it pulled stays pulled when it fails. -/
abbrev Run := ExceptT Fault (StateT Store Option)

namespace Run

variable {ε α β : Type} {s s' : Store}

/-- A computation goes on after its first part, or fails with it. -/
theorem run_bind (x : ExceptT ε (StateT Store Option) α)
    (f : α → ExceptT ε (StateT Store Option) β) (s : Store) :
    (x >>= f).run s = (x.run s).bind fun
      | (.ok a, s) => (f a).run s
      | (.error e, s) => some (.error e, s) := by
  rw [ExceptT.run_bind]
  change Option.bind (x.run s) _ = _
  congr 1
  funext ⟨r, s⟩
  cases r <;> rfl

theorem run_bind_of_ok {x : ExceptT ε (StateT Store Option) α} {a : α}
    (hx : x.run s = some (.ok a, s')) (f : α → ExceptT ε (StateT Store Option) β) :
    (x >>= f).run s = (f a).run s' := by
  rw [run_bind, hx]
  rfl

theorem run_bind_of_error {x : ExceptT ε (StateT Store Option) α} {e : ε}
    (hx : x.run s = some (.error e, s')) (f : α → ExceptT ε (StateT Store Option) β) :
    (x >>= f).run s = some (.error e, s') := by
  rw [run_bind, hx]
  rfl

theorem bind_eq_some_iff {x : ExceptT ε (StateT Store Option) α}
    {f : α → ExceptT ε (StateT Store Option) β} {r : Except ε β} :
    (x >>= f).run s = some (r, s') ↔
      (∃ a s₁, x.run s = some (.ok a, s₁) ∧ (f a).run s₁ = some (r, s')) ∨
      ∃ e, x.run s = some (.error e, s') ∧ r = .error e := by
  rw [run_bind, Option.bind_eq_some_iff]
  constructor
  · rintro ⟨⟨e | a, s₁⟩, hx, h⟩
    · cases h
      exact .inr ⟨e, hx, rfl⟩
    · exact .inl ⟨a, s₁, hx, h⟩
  · rintro (⟨a, s₁, hx, h⟩ | ⟨e, hx, rfl⟩)
    · exact ⟨_, hx, h⟩
    · exact ⟨_, hx, rfl⟩

theorem bind_eq_ok_iff {x : ExceptT ε (StateT Store Option) α}
    {f : α → ExceptT ε (StateT Store Option) β} {b : β} :
    (x >>= f).run s = some (.ok b, s') ↔
      ∃ a s₁, x.run s = some (.ok a, s₁) ∧ (f a).run s₁ = some (.ok b, s') := by
  rw [bind_eq_some_iff]
  simp

theorem map_eq_some_iff {f : α → β} {x : Run α} {r : Except Fault β} :
    (f <$> x).run s = some (r, s') ↔ ∃ r₀, x.run s = some (r₀, s') ∧ r = r₀.map f := by
  rw [ExceptT.run_map]
  change Option.bind (x.run s) _ = _ ↔ _
  rw [Option.bind_eq_some_iff]
  constructor
  · rintro ⟨⟨r₀, s₀⟩, hx, heq⟩
    cases heq
    exact ⟨r₀, hx, rfl⟩
  · rintro ⟨r₀, hx, rfl⟩
    exact ⟨_, hx, rfl⟩

theorem map_eq_ok_iff {f : α → β} {x : Run α} {b : β} :
    (f <$> x).run s = some (.ok b, s') ↔ ∃ a, x.run s = some (.ok a, s') ∧ f a = b := by
  rw [map_eq_some_iff]
  constructor
  · rintro ⟨e | a, hx, heq⟩
    · cases heq
    · cases heq
      exact ⟨a, hx, rfl⟩
  · rintro ⟨a, hx, rfl⟩
    exact ⟨_, hx, rfl⟩

theorem run_lift (x : Except ε α) (s : Store) :
    (liftExcept x : ExceptT ε (StateT Store Option) α).run s = some (x, s) := by
  cases x <;> rfl

theorem lift_eq_ok_iff {x : Except Fault α} {a : α} :
    (liftExcept x : Run α).run s = some (.ok a, s') ↔ x = .ok a ∧ s = s' := by
  cases x with
  | error e => exact ⟨nofun, nofun⟩
  | ok b =>
    constructor
    · intro h
      cases h
      exact ⟨rfl, rfl⟩
    · rintro ⟨h, rfl⟩
      cases h
      rfl

end Run

namespace Sequence

/-- A computation that puts one question. -/
def ask (q : Query) : Run q.Answer := ExceptT.mk fun s => do
  let (answer, s) ← q.ask s
  return (.ok answer, s)

/-- A new sequence in the given state. -/
def make (state : State) : Run Handle :=
  modifyGet fun s => s.allocate state

/-- A new sequence over values laid out beforehand. -/
def ofValues (items : List Value) : Run Handle := make (.eager items 0)

/-- A new sequence over a generator. -/
def ofGenerator (g : Generator) : Run Handle := make (.waiting g [])

/-- The next value of a sequence. Fails when a step of the sequence is in progress. -/
def tryNext (h : Handle) : Run (Option Value) := ExceptT.mk fun s => s.pull h

/-- The next value of a sequence. A sequence whose step is in progress gives none. -/
def next (h : Handle) : Run (Option Value) := ask (.next h)

/-- All values that a sequence still gives. -/
def drain (h : Handle) : Run (List Value) := ExceptT.mk fun s => s.drain h []

/-- The next values of a sequence, at most the given number of them. It pulls no more often than
that, and not again after the sequence gave none. -/
def take (h : Handle) : Nat → Run (List Value)
  | 0 => pure []
  | n + 1 => do
    match ← next h with
    | some v => return v :: (← take h n)
    | none => return []

end Sequence

/-- Pulls until a pull gives nothing, as a refused pull does too. The values come after those
already seen, which are kept latest first. -/
def Store.collect (s : Store) (h : Handle) (seen : List Value) : Option (List Value × Store) := do
  match ← (Query.next h).ask s with
  | (some v, s) => s |>.collect h (v :: seen)
  | (none, s) => return (seen.reverse, s)
partial_fixpoint

namespace Sequence

/-- All values that a sequence gives until a pull gives none. -/
def collect (h : Handle) : Run (List Value) := ExceptT.mk fun s => do
  let (values, s) ← s.collect h []
  return (.ok values, s)

/-- Whether a sequence has given its last value. -/
def isExhausted (h : Handle) : Run Bool := ask (.exhausted h)

theorem run_next (h : Handle) (s : Store) :
    (next h).run s = (s.pull h).map fun (r, s) => (.ok r.toOption.join, s) := by
  unfold next ask
  change Option.bind _ _ = _
  rw [Query.ask_next]
  cases s.pull h <;> rfl

@[simp] theorem run_isExhausted (h : Handle) (s : Store) :
    (isExhausted h).run s = some (.ok (s.state h).isExhausted, s) := by
  unfold isExhausted ask
  change Option.bind _ _ = _
  rw [Query.ask_exhausted]
  rfl

end Sequence

namespace Value

/-- The elements of a text: a text of one codepoint for each codepoint. -/
def ofChars (t : Text) : List Value := t.chars.map fun c => str (Text.singleton c)

/-- A sequence over the elements of a value. A lazy value gives its own sequence. -/
def iterate (v : Value) : Run Handle :=
  match v with
  | str t => Sequence.ofValues (ofChars t)
  | list items | tuple items => Sequence.ofValues items
  | lazy h => pure h
  | _ => throw (.notIterable v.type)

/-- The elements of a value. A lazy value is drained. -/
def materialize (v : Value) : Run (List Value) :=
  match v with
  | str t => pure (ofChars t)
  | list items | tuple items => pure items
  | lazy h => Sequence.drain h
  | _ => throw (.notIterable v.type)

end Value

end Conformance
