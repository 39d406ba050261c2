/-!
# Faults

A fault is the cause for which an operation on values fails. Each cause belongs to one category
and has one message; both are read off the cause.
-/

namespace Conformance

/-- The categories of faults that a script can tell apart. -/
inductive Category where
  | index
  | arity
  | name
  | type
  | value
  deriving DecidableEq, Repr

namespace Category

/-- The label of a category in scenarios and messages. -/
def label : Category → String
  | index => "index"
  | arity => "arity"
  | name => "name"
  | type => "type"
  | value => "value"

/-- The category that a label names, if it names one. -/
def ofLabel? (text : String) : Option Category :=
  [index, arity, name, type, value].find? (·.label == text)

@[simp] theorem ofLabel?_label (c : Category) : ofLabel? c.label = some c := by
  cases c <;> decide

end Category

/-- The types of values, as a message names them. -/
inductive ValueType where
  | nothing
  | bool
  | int
  | str
  | list
  | tuple
  | generator
  deriving DecidableEq, Repr

/-- The name of a type in messages. -/
def ValueType.name : ValueType → String
  | .nothing => "NoneType"
  | .bool => "bool"
  | .int => "int"
  | .str => "str"
  | .list => "list"
  | .tuple => "tuple"
  | .generator => "generator"

/-- The causes for which an operation on values fails. -/
inductive Fault where
  /-- A text of the given length has no position of the given index. -/
  | indexOutOfRange (index : Int) (length : Nat)
  /-- A pattern of `expected` single targets met another number of values. -/
  | unpackMismatch (expected got : Nat) (starred : Bool)
  /-- More positional values than fixed parameters, and nothing to take the rest. -/
  | tooManyPositional (function : String) (expected given : Nat)
  /-- A pattern with two starred targets. -/
  | multipleStarred
  /-- A keyword that names no parameter open to keywords. -/
  | unexpectedKeyword (function name : String)
  /-- A fixed parameter that nothing fills. -/
  | missingArgument (function name : String)
  /-- A parameter that two arguments fill. -/
  | multipleValues (function name : String)
  /-- A parameter list that declares a name twice. -/
  | duplicateParameter (function name : String)
  /-- A name that was never bound. -/
  | undefinedName (name : String)
  /-- A value of a type that has no elements to produce. -/
  | notIterable (type : ValueType)
  /-- A value other than a text among the items to join. -/
  | joinItemNotText (position : Nat) (type : ValueType)
  /-- An empty separator. -/
  | emptySeparator
  /-- A slice that never moves. -/
  | zeroSliceStep
  /-- A repetition that would be longer than a text may be. -/
  | repeatTooLarge (length : Nat) (times : Int)
  /-- A pull on a sequence whose step is in progress. -/
  | generatorRunning
  /-- A target that is no identifier. -/
  | invalidTarget (text : String)
  deriving DecidableEq, Repr

namespace Fault

/-- The category to which a cause belongs. -/
def category : Fault → Category
  | indexOutOfRange .. => .index
  | unpackMismatch .. | tooManyPositional .. | multipleStarred => .arity
  | unexpectedKeyword .. | missingArgument .. | multipleValues .. | duplicateParameter ..
  | undefinedName .. | invalidTarget .. => .name
  | notIterable .. | joinItemNotText .. | emptySeparator => .type
  | zeroSliceStep | repeatTooLarge .. | generatorRunning => .value

/-- The message of a fault. -/
def message : Fault → String
  | indexOutOfRange index length => s!"index {index} out of range for length {length}"
  | unpackMismatch expected got true =>
    s!"wrong number of values to unpack (expected at least {expected}, got {got})"
  | unpackMismatch expected got false =>
    s!"wrong number of values to unpack (expected {expected}, got {got})"
  | tooManyPositional function expected given =>
    s!"too many positional arguments: {function}() takes {expected} but {given} were given"
  | multipleStarred => "multiple starred expressions in assignment"
  | unexpectedKeyword function name => s!"unexpected keyword argument '{name}' for {function}()"
  | missingArgument function name => s!"missing required argument '{name}' for {function}()"
  | multipleValues function name => s!"{function}() got multiple values for argument '{name}'"
  | duplicateParameter function name => s!"duplicate parameter '{name}' in {function}()"
  | undefinedName name => s!"name '{name}' is not defined"
  | notIterable type => s!"'{type.name}' object is not iterable"
  | joinItemNotText position type =>
    s!"sequence item {position}: expected str instance, {type.name} found"
  | emptySeparator => "empty separator"
  | zeroSliceStep => "slice step cannot be zero"
  | repeatTooLarge length times => s!"repeated text too large: {length} codepoints * {times}"
  | generatorRunning => "generator already executing"
  | invalidTarget text => s!"invalid assignment target '{text}'"

end Fault

end Conformance
