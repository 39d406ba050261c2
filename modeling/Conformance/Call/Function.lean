import Conformance.Call.Binding
import Conformance.Call.Join

/-!
# Functions

A function is a signature and a body. The body sees the bound environment only. The bodies that
scripts can choose are listed here; forwarding passes on what a parameter holds as one spread.
-/

namespace Conformance

/-- A function. -/
structure Function where
  signature : Signature
  /-- What the function does with the values of its parameters. -/
  body : Environment → Run Value

namespace Function

/-- Binds the arguments and runs the body. -/
def call (f : Function) (arguments : List (Argument Value)) : Run Value := do
  f.body (← f.signature.bind arguments)

/-- How a function is listed. -/
def listing (f : Function) : String := s!"Function({f.signature.name})"

end Function

namespace Environment

/-- The parameters as pairs of name and value, in order. -/
def pairs (env : Environment) : Value :=
  .list (env.bindings.map fun (name, value) => .tuple [.str (Text.ofString name), value])

/-- The integers among the values and among the elements of lists and tuples, in order. -/
def addends (env : Environment) : List Int :=
  env.bindings.flatMap fun (_, value) => (value.items?.getD [value]).filterMap Value.int?

/-- The sum of the addends in words of 64 bits. A sum that leaves them wraps round. A build that
checks for overflow stops there instead and gives no value at all. -/
def total (env : Environment) : Int :=
  (env.addends.foldl (fun sum n => sum + Int64.ofInt n) 0).toInt

theorem foldl_word_eq (numbers : List Int) (start : Int) :
    numbers.foldl (fun sum n => sum + Int64.ofInt n) (Int64.ofInt start) =
      Int64.ofInt (numbers.foldl (· + ·) start) := by
  induction numbers generalizing start with
  | nil => rfl
  | cons n numbers ih => rw [List.foldl_cons, List.foldl_cons, ← Int64.ofInt_add, ih]

/-- The total is the word that differs from the sum by a multiple of all words. -/
theorem total_eq_bmod (env : Environment) :
    env.total = (env.addends.foldl (· + ·) 0).bmod Int64.size :=
  (congrArg Int64.toInt (foldl_word_eq env.addends 0)).trans Int64.toInt_ofInt

example : total ⟨[("args", .tuple [.int 9223372036854775807, .int 1])]⟩ =
    -9223372036854775808 := by decide

/-- A sum that fits into a word is the total, whatever the sums on the way to it are. -/
theorem total_eq_sum (env : Environment)
    (hlow : Int64.minValue.toInt ≤ env.addends.foldl (· + ·) 0)
    (hhigh : env.addends.foldl (· + ·) 0 ≤ Int64.maxValue.toInt) :
    env.total = env.addends.foldl (· + ·) 0 :=
  (congrArg Int64.toInt (foldl_word_eq env.addends 0)).trans
    (Int64.toInt_ofInt_of_le hlow (Int.lt_add_one_of_le hhigh))

/-- The value of a parameter, or nothing. -/
def valueOf (env : Environment) (name : String) : Value := (env.get? name).getD .nothing

end Environment

namespace Function

/-- A function that gives its parameters as pairs. -/
def pairing (signature : Signature) : Function := ⟨signature, fun env => pure env.pairs⟩

/-- A function that sums the integers it is given, in words of 64 bits. -/
def summing (signature : Signature) : Function := ⟨signature, fun env => pure (.int env.total)⟩

/-- A function that gives the value of one parameter. -/
def getting (signature : Signature) (param : String) : Function :=
  ⟨signature, fun env => pure (env.valueOf param)⟩

/-- A function that joins the value of one parameter. -/
def joining (signature : Signature) (param : String) (sep : Text) : Function :=
  ⟨signature, fun env => Value.str <$> (env.valueOf param).join sep⟩

/-- A function that calls another one with the value of one parameter as single spread. -/
def forwarding (signature : Signature) (param : String) (target : Function) : Function :=
  ⟨signature, fun env => target.call [.spread (env.valueOf param)]⟩

end Function

end Conformance
