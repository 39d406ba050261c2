import Conformance.Assignment.Scope
import Conformance.Call.Function
import Conformance.Sequence.Producers

/-!
# Commands of a session

A session is a series of commands over variables, functions and one scope. The commands cover
every operation of the library on values. An expression is evaluated each time its command runs,
so it makes its lazy sequences anew.
-/

namespace Conformance

namespace Session

/-- The values that a command writes down. -/
inductive Expr where
  | nothing
  | bool (b : Bool)
  | int (n : Int)
  | str (t : Text)
  | list (items : List Expr)
  | tuple (items : List Expr)
  /-- A new lazy sequence over values laid out beforehand. -/
  | eager (items : List Expr)
  /-- A new generator of the values. -/
  | generated (items : List Expr)
  /-- The value of a variable. -/
  | variable (name : String)

/-- A pattern as a command writes it down. -/
inductive PatternExpr where
  | written (text : String)
  /-- Targets that are taken as they are. -/
  | listed (targets : List Target)

/-- The parameters of a function as a command writes them down. -/
structure SignatureExpr where
  name : String
  declarations : List (Declaration Expr)

/-- The body of a function as a command writes it down. -/
inductive BodyExpr where
  | pairs
  | total
  | param (name : String)
  | join (name : String) (sep : Text)
  /-- Calls the function stored under `target`. -/
  | forward (name : String) (target : String)

/-- The commands of a session. -/
inductive Command where
  /-- Stores a value. -/
  | store (var : String) (value : Expr)
  | inspect (value : Expr)
  | materialize (value : Expr)
  | equal (left right : Expr)
  | join (sep : Text) (value : Expr)
  /-- Joins what the sequence of a variable gives until a pull gives none. -/
  | joinSequence (sep : Text) (source : String)
  /-- Stores a sequence over the elements of a value. -/
  | iterate (var : String) (value : Expr)
  /-- Stores a generator whose calls give the items in order. -/
  | script (var : String) (items : List (Option Expr))
  | calls (source : String)
  | range (var : String) (start by_ : Int) (limit : Option Int)
  /-- Stores a generator that looks at the sequence of a variable each time it is called. -/
  | watch (var source : String) (look : Generator.Look) (limit : Nat)
  /-- Stores the handle of a variable under another name. -/
  | share (var source : String)
  | next (source : String)
  | tryNext (source : String)
  | take (source : String) (count : Nat)
  | drain (source : String)
  | exhausted (source : String)
  | sameSequence (left right : String)
  | declare (signature : SignatureExpr)
  | bind (signature : SignatureExpr) (arguments : List (Argument Expr)) (asked : List String)
  /-- Binds two argument lists and compares the environments. -/
  | bindBoth (signature : SignatureExpr) (left right : List (Argument Expr))
  /-- Stores a function. -/
  | define (var : String) (signature : SignatureExpr) (body : BodyExpr)
  | call (function : String) (arguments : List (Argument Expr))
  | readTarget (text : String)
  | readPattern (pattern : PatternExpr)
  | unpack (pattern : PatternExpr) (value : Expr)
  | unpackSequence (pattern : PatternExpr) (source : String)
  | assign (pattern : PatternExpr) (value : Expr)
  | assignSequence (pattern : PatternExpr) (source : String)
  | assignNames (pattern : PatternExpr) (names : List String)
  | setName (name : String) (value : Expr)
  | getName (name : String)
  | loadName (name : String)
  | showScope

/-- The answers to commands. -/
inductive Answer where
  | value (v : Value)
  | values (vs : List Value)
  | maybe (v : Option Value)
  | truth (b : Bool)
  | number (n : Nat)
  /-- All that there is to see of a value. -/
  | inspected (v : Value)
  | signature (s : Signature)
  /-- An environment, the number of arguments, and the values of some names. -/
  | bound (env : Environment) (arguments : Nat) (asked : List (Option Value))
  | function (f : Function)
  | target (t : Target)
  | pattern (p : Pattern)
  | bindings (b : Bindings)
  | scope (s : Scope)

end Session

end Conformance
