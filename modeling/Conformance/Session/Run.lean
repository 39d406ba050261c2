import Conformance.Session.Command

/-!
# Running a session

A command runs to its end or fails with a fault. A failed command keeps what it pulled and does
not end the session.
-/

namespace Conformance

/-- The state of a session. -/
structure Session where
  /-- The lazy sequences. -/
  store : Store
  values : Bindings
  functions : List (String × Function)
  scope : Scope

namespace Session

/-- The state in which a session begins. -/
def start : Session := ⟨Store.empty, [], [], Scope.empty⟩

/-- A computation on the state of a session that may fail. -/
abbrev Action := ExceptT Fault (StateT Session Option)

/-- A computation on the lazy sequences of a session. -/
def onStore {α : Type} (run : Run α) : Action α := ExceptT.mk fun session => do
  let (result, store) ← run.run session.store
  return (result, { session with store })

/-- Stores a value in a variable. Steps find the sequences of variables by name. -/
def setVariable (name : String) (value : Value) : Action Answer := do
  modify fun session =>
    let values := Scope.put name value session.values
    let names := values.filterMap fun (name, value) => value.sequence?.map (name, ·)
    { session with values, store := { session.store with names } }
  return .value value

/-- The value of a variable. -/
def variableValue (name : String) : Action Value := do
  match (← get).values.get? name with
  | some value => return value
  | none => throw (.undefinedName name)

/-- The sequence of a variable. -/
def sequence (name : String) : Action Handle := do
  let value ← variableValue name
  match value.sequence? with
  | some h => return h
  | none => throw (.notIterable value.type)

/-- The function stored under a name. -/
def functionOf (name : String) : Action Function := do
  match (← get).functions.find? (·.1 == name) with
  | some (_, f) => return f
  | none => throw (.undefinedName name)

mutual

/-- The value of an expression. -/
def Expr.eval : Expr → Action Value
  | .nothing => return .nothing
  | .bool b => return .bool b
  | .int n => return .int n
  | .str t => return .str t
  | .list items => return .list (← evalAll items)
  | .tuple items => return .tuple (← evalAll items)
  | .eager items => return .lazy (← onStore (Sequence.ofValues (← evalAll items)))
  | .generated items =>
    return .lazy (← onStore (Sequence.ofGenerator (.ofValues (← evalAll items))))
  | .variable name => variableValue name

/-- The values of some expressions, in order. -/
def evalAll : List Expr → Action (List Value)
  | [] => return []
  | e :: rest => return (← e.eval) :: (← evalAll rest)

end

/-- The item of a script. -/
def evalItem : Option Expr → Action (Option Value)
  | some e => some <$> e.eval
  | none => return none

/-- The pattern that a command writes down. -/
def PatternExpr.build : PatternExpr → Except Fault Pattern
  | .written text => Pattern.parse text
  | .listed targets => Pattern.ofTargets targets

/-- The signature that a command writes down. -/
def SignatureExpr.build (e : SignatureExpr) : Action Signature := do
  liftExcept (Signature.declare e.name (← e.declarations.mapM (·.mapM Expr.eval)))

/-- The arguments that a command writes down. -/
def evalArguments (arguments : List (Argument Expr)) : Action (List (Argument Value)) :=
  arguments.mapM (·.mapM Expr.eval)

/-- The function that a command writes down. -/
def BodyExpr.build (signature : Signature) : BodyExpr → Action Function
  | .pairs => return .pairing signature
  | .total => return .summing signature
  | .param name => return .getting signature name
  | .join name sep => return .joining signature name sep
  | .forward name target => return .forwarding signature name (← functionOf target)

/-- Stores a generator in a variable. -/
def setGenerator (var : String) (g : Generator) : Action Answer := do
  setVariable var (.lazy (← onStore (Sequence.ofGenerator g)))

/-- Changes the scope and shows it. -/
def changeScope (change : Scope → Except Fault Scope) : Action Answer := do
  let scope ← liftExcept (change (← get).scope)
  modify ({ · with scope })
  return .scope scope

/-- The changes of a scope. -/
inductive Change where
  | set (name : String) (value : Value)
  /-- Unpacks what a source gives, once it gave all of it. -/
  | assign (pattern : Pattern) (source : Run (List Value))
  | assignNames (pattern : Pattern) (names : List String)

/-- Makes a change and shows the scope. -/
def Change.make : Change → Action Answer
  | .set name value => changeScope fun scope => .ok (scope.set name value)
  | .assign pattern source => do
    let values ← onStore source
    changeScope (·.assign pattern values)
  | .assignNames pattern names => changeScope (·.assignNames pattern names)

/-- What a command does. -/
def perform : Command → Action Answer
  | .store var value => do setVariable var (← value.eval)
  | .inspect value => return .inspected (← value.eval)
  | .materialize value => do return .values (← onStore (← value.eval).materialize)
  | .equal left right => do
    let left ← left.eval
    let right ← right.eval
    return .truth (left = right)
  | .join sep value => do return .value (.str (← onStore ((← value.eval).join sep)))
  | .joinSequence sep source => do
    return .value (.str (← onStore (Sequence.join sep (← sequence source))))
  | .iterate var value => do
    setVariable var (.lazy (← onStore (← value.eval).iterate))
  | .script var items => do setGenerator var (.ofCalls (← items.mapM evalItem))
  | .calls source => do return .number ((← get).store.calls (← sequence source))
  | .range var start by_ limit => setGenerator var (.range start by_ limit)
  | .watch var source look limit => setGenerator var (.watcher source look limit)
  | .share var source => do setVariable var (.lazy (← sequence source))
  | .next source => do return .maybe (← onStore (Sequence.next (← sequence source)))
  | .tryNext source => do return .maybe (← onStore (Sequence.tryNext (← sequence source)))
  | .take source count => do
    return .values (← onStore (Sequence.take (← sequence source) count))
  | .drain source => do return .values (← onStore (Sequence.drain (← sequence source)))
  | .exhausted source => do
    return .truth (← onStore (Sequence.isExhausted (← sequence source)))
  | .sameSequence left right => do
    let left ← sequence left
    let right ← sequence right
    return .truth (left = right)
  | .declare signature => do return .signature (← signature.build)
  | .bind signature arguments asked => do
    let signature ← signature.build
    let arguments ← evalArguments arguments
    let env ← onStore (signature.bind arguments)
    return .bound env arguments.length (asked.map env.get?)
  | .bindBoth signature left right => do
    let signature ← signature.build
    let left ← evalArguments left
    let right ← evalArguments right
    let leftEnv ← onStore (signature.bind left)
    let rightEnv ← onStore (signature.bind right)
    return .truth (leftEnv = rightEnv)
  | .define var signature body => do
    let f ← body.build (← signature.build)
    modify fun session => { session with functions := (var, f) :: session.functions }
    return .function f
  | .call function arguments => do
    let f ← functionOf function
    return .value (← onStore (f.call (← evalArguments arguments)))
  | .readTarget text => do return .target (← liftExcept (Target.parse text.toList))
  | .readPattern pattern => do return .pattern (← liftExcept pattern.build)
  | .unpack pattern value => do
    let pattern ← liftExcept pattern.build
    return .bindings (← onStore (pattern.unpackValue (← value.eval)))
  | .unpackSequence pattern source => do
    let pattern ← liftExcept pattern.build
    return .bindings (← onStore (pattern.unpackSequence (← sequence source)))
  | .assign pattern value => do
    let pattern ← liftExcept pattern.build
    (Change.assign pattern (← value.eval).materialize).make
  | .assignSequence pattern source => do
    let pattern ← liftExcept pattern.build
    (Change.assign pattern (Sequence.collect (← sequence source))).make
  | .assignNames pattern names => do
    let pattern ← liftExcept pattern.build
    (Change.assignNames pattern names).make
  | .setName name value => do (Change.set name (← value.eval)).make
  | .getName name => do return .maybe ((← get).scope.get? name)
  | .loadName name => do return .value (← liftExcept ((← get).scope.load name))
  | .showScope => do return .scope (← get).scope

/-- Runs one command. A command that pulls without end has no outcome. -/
def step (session : Session) (command : Command) : Option (Except Fault Answer × Session) :=
  (perform command).run session

end Session

end Conformance
