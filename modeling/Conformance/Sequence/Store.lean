import Conformance.Value

/-!
# Lazy sequences and their store

A lazy sequence gives its values one at a time. It is backed by values laid out beforehand and a
cursor, or by a generator: a step that computes the next value on demand.

While it runs, the step of a generator may use other sequences, and its own. What it does is
therefore a finite tree: it finishes, or it asks one question and goes on with the answer. What
a step does may depend on all that earlier steps of its generator asked and were told, so the
producer of a generator is a function of that past.

The store holds the state of every sequence. A sequence whose step is in progress is marked as
running; one that has given its last value is exhausted and never gives another.
-/

namespace Conformance

/-- The questions that a step may ask while it runs. -/
inductive Query where
  /-- A pull on a sequence, that tells a running sequence apart. -/
  | tryNext (sequence : Handle)
  /-- A pull on a sequence, that takes a running sequence for one that gives nothing. -/
  | next (sequence : Handle)
  /-- All that a sequence still gives. -/
  | drain (sequence : Handle)
  /-- Whether a sequence is exhausted. -/
  | exhausted (sequence : Handle)
  /-- The description of the state of a sequence. -/
  | describe (sequence : Handle)
  /-- The sequence that a name stands for at this moment. -/
  | resolve (name : String)

/-- The answers to a question. -/
abbrev Query.Answer : Query → Type
  | tryNext _ => Except Fault (Option Value)
  | next _ => Option Value
  | drain _ => Except Fault (List Value)
  | exhausted _ => Bool
  | describe _ => String
  | resolve _ => Option Handle

/-- What one step of a generator does: it finishes with a value or with none, or it asks a
question and goes on. -/
inductive Step where
  | finish (value : Option Value)
  | ask (query : Query) (next : query.Answer → Step)

/-- A question together with its answer. -/
structure Exchange where
  query : Query
  answer : query.Answer

/-- What the earlier steps of a generator asked and were told, the latest step first. -/
abbrev Past := List (List Exchange)

/-- A generator. -/
structure Generator where
  /-- What the next step does after a given past. -/
  step : Past → Step

/-- The state of a sequence. -/
inductive State where
  /-- Values laid out beforehand, of which the first `cursor` were given. -/
  | eager (items : List Value) (cursor : Nat)
  /-- A generator between two steps. -/
  | waiting (generator : Generator) (past : Past)
  /-- A generator whose step is in progress. -/
  | running
  /-- A sequence that has given its last value. -/
  | exhausted

namespace State

/-- Whether the sequence may still give a value to a pull from outside its step. -/
def isOpen : State → Bool
  | eager .. | waiting .. => true
  | running | exhausted => false

/-- Whether the sequence has given its last value. -/
def isExhausted : State → Bool
  | exhausted => true
  | _ => false

/-- The description of a state. -/
def describe : State → String
  | eager items cursor => s!"LazySequence(eager {cursor}/{items.length})"
  | waiting .. => "LazySequence(generator)"
  | running => "LazySequence(running)"
  | exhausted => "LazySequence(exhausted)"

end State

/-- A sequence: its state, and how often a step of its generator was begun. -/
structure Cell where
  state : State
  calls : Nat

/-- The state of all sequences, and the names under which steps find them. -/
structure Store where
  /-- The sequences, in the order in which they were made. -/
  cells : List Cell
  /-- The names that stand for sequences. -/
  names : List (String × Handle)

namespace Store

/-- The store without any sequence. -/
def empty : Store := ⟨[], []⟩

/-- The state of a sequence. A handle that names no sequence counts as exhausted. -/
def state (s : Store) (h : Handle) : State :=
  match s.cells[h.index]? with
  | some cell => cell.state
  | none => .exhausted

/-- How often a step of the generator behind a sequence was begun. -/
def calls (s : Store) (h : Handle) : Nat :=
  match s.cells[h.index]? with
  | some cell => cell.calls
  | none => 0

/-- The store with a sequence in another state. -/
def setState (s : Store) (h : Handle) (state : State) : Store :=
  { s with cells := s.cells.modify h.index fun cell => { cell with state } }

/-- The store at the moment at which a step of a generator begins. -/
def enter (s : Store) (h : Handle) : Store :=
  { s with cells := s.cells.modify h.index fun cell => ⟨.running, cell.calls + 1⟩ }

/-- The store at the moment at which a step ends. A step that gave no value is the last. -/
def leave (s : Store) (h : Handle) (g : Generator) (past : Past) (value : Option Value) : Store :=
  s.setState h (if value.isSome then .waiting g past else .exhausted)

theorem state_setState (s : Store) (h k : Handle) (state : State) :
    (s.setState h state).state k =
      if h = k ∧ h.index < s.cells.length then state else s.state k := by
  cases h; cases k
  simp only [Store.state, setState, List.getElem?_modify, Handle.mk.injEq]
  grind

theorem state_enter (s : Store) (h k : Handle) :
    (s.enter h).state k = if h = k ∧ h.index < s.cells.length then .running else s.state k := by
  cases h; cases k
  simp only [Store.state, enter, List.getElem?_modify, Handle.mk.injEq]
  grind

theorem state_leave (s : Store) (h k : Handle) (g : Generator) (past : Past)
    (value : Option Value) :
    (s.leave h g past value).state k = if h = k ∧ h.index < s.cells.length then
      (if value.isSome then .waiting g past else .exhausted) else s.state k :=
  state_setState ..

@[simp] theorem calls_setState (s : Store) (h k : Handle) (state : State) :
    (s.setState h state).calls k = s.calls k := by
  simp only [calls, setState, List.getElem?_modify]
  grind

@[simp] theorem calls_leave (s : Store) (h k : Handle) (g : Generator) (past : Past)
    (value : Option Value) : (s.leave h g past value).calls k = s.calls k :=
  calls_setState ..

theorem calls_enter (s : Store) (h k : Handle) :
    (s.enter h).calls k = s.calls k + if h = k ∧ h.index < s.cells.length then 1 else 0 := by
  cases h; cases k
  simp only [calls, enter, List.getElem?_modify, Handle.mk.injEq]
  grind

@[simp] theorem length_setState (s : Store) (h : Handle) (state : State) :
    (s.setState h state).cells.length = s.cells.length := by
  simp [setState]

@[simp] theorem length_enter (s : Store) (h : Handle) :
    (s.enter h).cells.length = s.cells.length := by
  simp [enter]

@[simp] theorem length_leave (s : Store) (h : Handle) (g : Generator) (past : Past)
    (value : Option Value) : (s.leave h g past value).cells.length = s.cells.length :=
  length_setState ..

/-- Beginning a step forgets in which state the sequence was. -/
@[simp] theorem enter_setState (s : Store) (h : Handle) (state : State) :
    (s.setState h state).enter h = s.enter h := by
  simp only [enter, setState, Store.mk.injEq, and_true]
  apply List.ext_getElem?
  intro i
  simp only [List.getElem?_modify]
  grind

/-- A handle that names no sequence counts as exhausted. -/
theorem index_lt_of_state {s : Store} {h : Handle} (hne : s.state h ≠ .exhausted) :
    h.index < s.cells.length := by
  apply Nat.lt_of_not_le
  intro hle
  apply hne
  simp [Store.state, List.getElem?_eq_none hle]

/-- Adds a sequence. -/
def allocate (s : Store) (state : State) : Handle × Store :=
  (⟨s.cells.length⟩, { s with cells := s.cells ++ [⟨state, 0⟩] })

theorem state_allocate (s : Store) (state : State) (h : Handle) :
    (s.allocate state).2.state h = if h.index = s.cells.length then state else s.state h := by
  simp only [allocate, Store.state, List.getElem?_append]
  grind

/-- The sequence that a name stands for. -/
def resolve (s : Store) (name : String) : Option Handle :=
  (s.names.find? (·.1 == name)).map (·.2)

end Store

end Conformance
