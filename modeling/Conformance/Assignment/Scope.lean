import Conformance.Assignment.Unpack

/-!
# Scopes

A scope binds names to values. An assignment unpacks first and writes afterwards, so it writes
all of its targets or none. An assignment from names reads all of them before it writes.
-/

namespace Conformance

/-- The names bound so far and their values. -/
structure Scope where
  entries : Bindings
  deriving DecidableEq

namespace Scope

/-- The scope without names. -/
def empty : Scope := ⟨[]⟩

/-- The value of a name. -/
def get? (s : Scope) (name : String) : Option Value := s.entries.get? name

/-- The value of a name that has to be bound. -/
def load (s : Scope) (name : String) : Except Fault Value :=
  match s.get? name with
  | some value => .ok value
  | none => .error (.undefinedName name)

/-- The entries with one name bound to a value, in its old place if it had one. -/
def put (name : String) (value : Value) : Bindings → Bindings
  | [] => [(name, value)]
  | entry :: rest => if entry.1 = name then (name, value) :: rest else entry :: put name value rest

/-- Binds a name. -/
def set (s : Scope) (name : String) (value : Value) : Scope := ⟨put name value s.entries⟩

theorem get?_put (name other : String) (value : Value) (entries : Bindings) :
    (put name value entries).get? other =
      if name = other then some value else entries.get? other := by
  induction entries with
  | nil => simp [put, Bindings.get?_cons]
  | cons entry rest ih =>
    obtain ⟨first, old⟩ := entry
    by_cases he : first = name
    · subst he
      by_cases h : first = other <;> simp [put, Bindings.get?_cons, h]
    · simp only [put, he, if_false, Bindings.get?_cons, ih]
      by_cases h : first = other
      · have hn : name ≠ other := fun hn => he (h.trans hn.symm)
        simp [h, hn]
      · simp [h]

@[simp] theorem get?_set (s : Scope) (name other : String) (value : Value) :
    (s.set name value).get? other = if name = other then some value else s.get? other :=
  get?_put name other value s.entries

/-- Binds names one after the other. -/
def write (s : Scope) (bindings : Bindings) : Scope :=
  bindings.foldl (fun s entry => s.set entry.1 entry.2) s

/-- Unpacks values into the targets of a pattern. -/
def assign (s : Scope) (p : Pattern) (values : List Value) : Except Fault Scope :=
  (p.unpack values).map s.write

/-- Unpacks the values of some names into the targets of a pattern. -/
def assignNames (s : Scope) (p : Pattern) (names : List String) : Except Fault Scope := do
  s.assign p (← names.mapM s.load)

end Scope

end Conformance
