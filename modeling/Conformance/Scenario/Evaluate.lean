import Conformance.Assignment.Scope
import Conformance.Call.Function
import Conformance.Scenario.Operation
import Conformance.Scenario.Result
import Conformance.Text.Slice
import Conformance.Text.Strip

/-!
# Evaluating scenarios

A scenario is evaluated on its own: it starts without sequences and names. Its TOML values are
converted first, its result is converted back.
-/

namespace Conformance

namespace Scenario

/-- The value of some TOML values: a list, or a generator of the values. -/
def sequence (items : List Toml) (lazy : Bool) : Eval Value := do
  let values ← ofConversion (toValues items)
  if lazy then return .lazy (← ofRun (Sequence.ofGenerator (.ofValues values)))
  else return .list values

/-- The declaration of a parameter with a default. -/
def defaultDeclaration (entry : String × Toml) : Eval (Declaration Value) := do
  return .keyword entry.1 (← ofConversion (toValue entry.2))

/-- The signature of the parameters of a scenario. -/
def signature (params : Params) : Eval Signature := do
  let defaults ← params.defaults.mapM defaultDeclaration
  ofResult (Signature.declare params.name
    (params.fixed.map .fixed ++ params.variadic.toList.map .variadic ++ defaults))

/-- An argument of a call. -/
def argument : Arg → Eval (Argument Value)
  | .positional t => do return .positional (← ofConversion (toValue t))
  | .spread t => do return .spread (← ofConversion (toValue t))
  | .spreadLazy items => do return .spread (← sequence items true)
  | .keyword name t => do return .keyword name (← ofConversion (toValue t))

/-- The function that passes all its positional arguments on to another. -/
def forwarder (f : Function) : Function := .forwarding ⟨"g", [], some "args", []⟩ "args" f

/-- A local name with its value. -/
def localBinding (entry : String × Toml) : Except Nonsense (String × Value) :=
  (toValue entry.2).map fun value => (entry.1, value)

/-- The values that the targets of a pattern have in a scope. -/
def written (scope : Scope) (p : Pattern) : Except Fault Bindings :=
  p.targets.mapM fun target => (scope.load target.name).map fun value => (target.name, value)

/-- The number that stands for an order. -/
def orderNumber : Ordering → Int
  | .lt => -1
  | .eq => 0
  | .gt => 1

/-- What an operation gives. -/
inductive Outcome where
  | value (v : Value)
  | bindings (b : Bindings)

/-- The TOML value of an outcome. -/
def Outcome.toToml : Outcome → Eval Toml
  | value v => Scenario.toToml v
  | bindings b => bindingsToToml b

/-- What an operation gives. -/
def Operation.outcome : Operation → Eval Outcome
  | .len t => return .value (.int t.length)
  | .index t i => return .value (.str (← ofResult (t.index i)))
  | .slice t start stop step => return .value (.str (← ofResult (t.slice start stop step)))
  | .concat a b => return .value (.str (a ++ b))
  | .replicate t times => return .value (.str (← ofResult (t.replicate times)))
  | .compare a b => return .value (.int (orderNumber (a.compare b)))
  | .str t => return .value (.str (← ofConversion (toValue t)).display)
  | .split t sep => return .value (.list ((← ofResult (t.split sep)).map .str))
  | .words t => return .value (.list (t.words.map .str))
  | .strip t set => return .value (.str (t.strip set))
  | .stripLeft t set => return .value (.str (t.stripLeft set))
  | .stripRight t set => return .value (.str (t.stripRight set))
  | .join sep items lazy => do
    let items ← sequence items lazy
    return .value (.str (← ofRun (items.join sep)))
  | .replace t old new => return .value (.str (t.replace old new))
  | .startsWith t lead => return .value (.bool (t.startsWith lead))
  | .endsWith t tail => return .value (.bool (t.endsWith tail))
  | .contains t sub => return .value (.bool (t.contains sub))
  | .find t sub => return .value (.int (t.find sub))
  | .count t sub => return .value (.int (t.count sub))
  | .bind params args => do
    let signature ← signature params
    let args ← args.mapM argument
    return .bindings (← ofRun (signature.bind args)).bindings
  | .call params args forward => do
    let f := Function.summing (← signature params)
    let args ← args.mapM argument
    return .value (← ofRun ((if forward then forwarder f else f).call args))
  | .unpack targets values lazy => do
    let pattern ← ofResult (Pattern.parse targets)
    let values ← sequence values lazy
    return .bindings (← ofRun (pattern.unpackValue values))
  | .assign targets locals sources => do
    let pattern ← ofResult (Pattern.parse targets)
    let scope := Scope.empty.write (← ofConversion (locals.mapM localBinding))
    let scope ← ofResult (scope.assignNames pattern sources)
    return .bindings (← ofResult (written scope pattern))

/-- The TOML value of an operation. -/
def Operation.run (op : Operation) : Eval Toml := do
  (← op.outcome).toToml

/-! The generators of a scenario give the values of a list, so every scenario comes to an end. -/

theorem sequence_ends (items : List Toml) (lazy : Bool) : Ends (sequence items lazy) := by
  apply EndsIn.bind (EndsIn.liftExcept _)
  intro values
  cases lazy with
  | false => exact EndsIn.pure _
  | true =>
    exact EndsIn.bind (ofRun_ends (Sequence.make_ends ⟨values, rfl⟩)) fun h => EndsIn.pure _

theorem signature_ends (params : Params) : Ends (signature params) := by
  apply EndsIn.bind
  · exact EndsIn.mapM (fun entry => EndsIn.bind (EndsIn.liftExcept _) fun v => EndsIn.pure _) _
  · exact fun defaults => EndsIn.liftExcept _

theorem argument_ends (arg : Arg) : Ends (argument arg) := by
  cases arg with
  | spreadLazy items => exact EndsIn.bind (sequence_ends items true) fun v => EndsIn.pure _
  | _ => exact EndsIn.bind (EndsIn.liftExcept _) fun v => EndsIn.pure _

theorem expand_ends (function : String) (args : List (Argument Value)) (supplied : Supplied) :
    Ends (expand function args supplied) := by
  induction args generalizing supplied with
  | nil => exact EndsIn.pure _
  | cons arg rest ih =>
    cases arg with
    | positional v => exact ih _
    | spread v => exact EndsIn.bind v.materialize_ends fun values => ih _
    | keyword name v =>
      unfold expand
      split
      · exact EndsIn.throw _
      · exact ih _

theorem bind_ends (s : Signature) (args : List (Argument Value)) : Ends (s.bind args) :=
  EndsIn.bind (expand_ends _ _ _) fun _ => EndsIn.liftExcept _

theorem summing_ends (s : Signature) (args : List (Argument Value)) :
    Ends ((Function.summing s).call args) :=
  EndsIn.bind (bind_ends s args) fun _ => EndsIn.pure _

theorem Operation.outcome_ends (op : Operation) : Ends op.outcome := by
  cases op with
  | join sep items lazy =>
    apply EndsIn.bind (sequence_ends items lazy)
    intro v
    apply EndsIn.bind (ofRun_ends (EndsIn.bind v.materialize_ends fun _ => EndsIn.liftExcept _))
    exact fun t => EndsIn.pure _
  | bind params args =>
    apply EndsIn.bind (signature_ends params)
    intro s
    apply EndsIn.bind (EndsIn.mapM argument_ends args)
    intro args
    exact EndsIn.bind (ofRun_ends (bind_ends s args)) fun env => EndsIn.pure _
  | call params args forward =>
    apply EndsIn.bind (signature_ends params)
    intro s
    apply EndsIn.bind (EndsIn.mapM argument_ends args)
    intro args
    apply EndsIn.bind (ofRun_ends ?_) fun v => EndsIn.pure _
    cases forward with
    | false => exact summing_ends s args
    | true => exact EndsIn.bind (bind_ends _ args) fun env => summing_ends s _
  | unpack targets values lazy =>
    apply EndsIn.bind (EndsIn.liftExcept _)
    intro pattern
    apply EndsIn.bind (sequence_ends values lazy)
    intro v
    apply EndsIn.bind (ofRun_ends (EndsIn.bind v.materialize_ends fun _ => EndsIn.liftExcept _))
    exact fun bindings => EndsIn.pure _
  | assign targets locals sources =>
    apply EndsIn.bind (EndsIn.liftExcept _)
    intro pattern
    apply EndsIn.bind (EndsIn.liftExcept _)
    intro values
    apply EndsIn.bind (EndsIn.liftExcept _)
    intro scope
    exact EndsIn.bind (EndsIn.liftExcept _) fun bindings => EndsIn.pure _
  | index | slice | replicate | str | split =>
    exact EndsIn.bind (EndsIn.liftExcept _) fun v => EndsIn.pure _
  | _ => exact EndsIn.pure _

theorem Outcome.toToml_ends (o : Outcome) : Ends o.toToml := by
  cases o with
  | value v => exact Scenario.toToml_ends v
  | bindings b => exact bindingsToToml_ends b

theorem Operation.isSome_run (op : Operation) : (op.run.run Store.empty).isSome := by
  have hends : Ends op.run := op.outcome_ends.bind Outcome.toToml_ends
  obtain ⟨result, s', hrun, -⟩ := hends Store.empty Store.listed_empty
  simp [hrun]

/-- The result of a scenario. -/
def evaluate (op : Operation) : Except EvalError Toml :=
  ((op.run.run Store.empty).get op.isSome_run).1

end Scenario

end Conformance
