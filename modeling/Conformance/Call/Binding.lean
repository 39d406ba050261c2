import Conformance.Call.Signature
import Conformance.Sequence.Run

/-!
# Binding arguments to parameters

A call gives a list of arguments: positional values, spreads that contribute the elements of a
value, and keywords. Binding first expands the arguments from left to right, which drains lazy
spreads. Then it distributes the positional values over the fixed parameters from the front,
gives the surplus to the variadic parameter, lets keywords fill what is still open, and ends with
the defaults.
-/

namespace Conformance

/-- One argument of a call. -/
inductive Argument (α : Type) where
  | positional (value : α)
  | spread (value : α)
  | keyword (name : String) (value : α)

/-- The argument with its value computed. -/
def Argument.mapM {m : Type → Type} [Monad m] {α β : Type} (f : α → m β) :
    Argument α → m (Argument β)
  | positional value => positional <$> f value
  | spread value => spread <$> f value
  | keyword name value => keyword name <$> f value

/-- Names with their values, in order. -/
abbrev Bindings := List (String × Value)

/-- The value of the first binding of a name. -/
def Bindings.get? (bindings : Bindings) (name : String) : Option Value :=
  (bindings.find? (·.1 == name)).map (·.2)

@[simp] theorem Bindings.get?_nil (name : String) : Bindings.get? [] name = none := rfl

theorem Bindings.get?_cons (first other : String) (value : Value) (bindings : Bindings) :
    Bindings.get? ((first, value) :: bindings) other =
      if first = other then some value else bindings.get? other := by
  by_cases h : first = other
  · simp [Bindings.get?, h]
  · have hb : (first == other) = false := by simpa using h
    simp [Bindings.get?, hb, h]

/-- The values that the parameters of a function have in a call, in declaration order. -/
structure Environment where
  bindings : Bindings
  deriving DecidableEq

/-- The value of a parameter. -/
def Environment.get? (env : Environment) (name : String) : Option Value := env.bindings.get? name

/-- The arguments of a call after expansion. -/
structure Supplied where
  /-- The positional values, those of spreads included. -/
  positionals : List Value
  /-- The keywords with their values, in call order. -/
  keywords : Bindings

/-- Expands arguments from left to right, after what was supplied before them. A repeated
keyword is refused whether or not the function declares it. -/
def expand (function : String) : List (Argument Value) → Supplied → Run Supplied
  | [], supplied => pure supplied
  | .positional value :: rest, supplied =>
    expand function rest { supplied with positionals := supplied.positionals ++ [value] }
  | .spread value :: rest, supplied => do
    let values ← value.materialize
    expand function rest { supplied with positionals := supplied.positionals ++ values }
  | .keyword name value :: rest, supplied =>
    if supplied.keywords.any (·.1 == name) then throw (.multipleValues function name)
    else expand function rest { supplied with keywords := supplied.keywords ++ [(name, value)] }

namespace Signature

/-- Checks keywords in call order. `filled` are the fixed parameters that have a positional
value. -/
def checkKeywords (s : Signature) (filled : List String) : Bindings → Except Fault Unit
  | [] => .ok ()
  | (name, _) :: rest =>
    if name ∈ filled then .error (.multipleValues s.name name)
    else if name ∈ s.fixed ∨ name ∈ s.defaults.map (·.1) then s.checkKeywords filled rest
    else .error (.unexpectedKeyword s.name name)

/-- Gives each fixed parameter its value: positional values from the front, then keywords. -/
def fillFixed (s : Signature) (keywords : Bindings) :
    List String → List Value → Except Fault Bindings
  | [], _ => .ok []
  | name :: rest, value :: values => do
    return (name, value) :: (← s.fillFixed keywords rest values)
  | name :: rest, [] =>
    match keywords.get? name with
    | some value => do return (name, value) :: (← s.fillFixed keywords rest [])
    | none => .error (.missingArgument s.name name)

/-- Distributes expanded arguments over the parameters. -/
def distribute (s : Signature) (supplied : Supplied) : Except Fault Environment := do
  let surplus := supplied.positionals.drop s.fixed.length
  if s.variadic.isNone ∧ surplus ≠ [] then
    throw (.tooManyPositional s.name s.fixed.length supplied.positionals.length)
  s.checkKeywords (s.fixed.take supplied.positionals.length) supplied.keywords
  let fixed ← s.fillFixed supplied.keywords s.fixed supplied.positionals
  let rest := s.variadic.toList.map fun name => (name, Value.tuple surplus)
  let keyed := s.defaults.map fun (name, default) =>
    (name, (supplied.keywords.get? name).getD default)
  return ⟨fixed ++ rest ++ keyed⟩

/-- Binds the arguments of a call to the parameters. -/
def bind (s : Signature) (arguments : List (Argument Value)) : Run Environment := do
  let supplied ← expand s.name arguments ⟨[], []⟩
  liftExcept (s.distribute supplied)

end Signature

end Conformance
