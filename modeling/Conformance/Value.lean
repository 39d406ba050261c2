import Conformance.Text.Quoted

/-!
# Values

A value is nothing, a truth value, an integer, a text, a list, a tuple, or the handle of a lazy
sequence. A handle only names its sequence: copies of a handle share one sequence, and two values
that hold handles are equal exactly when the handles are.
-/

namespace Conformance

/-- The name of a lazy sequence. -/
structure Handle where
  /-- The position of the sequence among all that were made. -/
  index : Nat
  deriving DecidableEq, Repr

/-- The values that scripts work on. -/
inductive Value where
  | nothing
  | bool (b : Bool)
  | int (n : Int)
  | str (t : Text)
  | list (items : List Value)
  | tuple (items : List Value)
  | lazy (sequence : Handle)
  deriving Inhabited

namespace Value

mutual

/-- Whether two values are equal. -/
def same : Value → Value → Bool
  | nothing, nothing => true
  | bool a, bool b => a == b
  | int a, int b => a == b
  | str a, str b => a == b
  | list as, list bs => sameItems as bs
  | tuple as, tuple bs => sameItems as bs
  | lazy a, lazy b => a == b
  | _, _ => false

/-- Whether two lists of values are equal. -/
def sameItems : List Value → List Value → Bool
  | [], [] => true
  | a :: as, b :: bs => same a b && sameItems as bs
  | _, _ => false

end

mutual

theorem eq_of_same : (a b : Value) → same a b = true → a = b
  | nothing, b, h => by cases b <;> simp_all [same]
  | bool _, b, h => by cases b <;> simp_all [same]
  | int _, b, h => by cases b <;> simp_all [same]
  | str _, b, h => by cases b <;> simp_all [same]
  | list as, b, h => by
    cases b with
    | list bs => rw [eq_of_sameItems as bs (by simpa [same] using h)]
    | _ => simp [same] at h
  | tuple as, b, h => by
    cases b with
    | tuple bs => rw [eq_of_sameItems as bs (by simpa [same] using h)]
    | _ => simp [same] at h
  | lazy _, b, h => by cases b <;> simp_all [same]

theorem eq_of_sameItems : (as bs : List Value) → sameItems as bs = true → as = bs
  | [], bs, h => by cases bs <;> simp_all [sameItems]
  | a :: as, bs, h => by
    cases bs with
    | nil => simp [sameItems] at h
    | cons b bs =>
      simp only [sameItems, Bool.and_eq_true] at h
      rw [eq_of_same a b h.1, eq_of_sameItems as bs h.2]

end

mutual

theorem same_self : (a : Value) → same a a = true
  | nothing | bool _ | int _ | str _ | lazy _ => by simp [same]
  | list as => by simpa [same] using sameItems_self as
  | tuple as => by simpa [same] using sameItems_self as

theorem sameItems_self : (as : List Value) → sameItems as as = true
  | [] => by simp [sameItems]
  | a :: as => by simp [sameItems, same_self a, sameItems_self as]

end

instance : DecidableEq Value := fun a b =>
  if h : same a b = true then isTrue (eq_of_same a b h)
  else isFalse fun e => h (e ▸ same_self a)

/-- The type of a value. -/
def type : Value → ValueType
  | nothing => .nothing
  | bool _ => .bool
  | int _ => .int
  | str _ => .str
  | list _ => .list
  | tuple _ => .tuple
  | lazy _ => .generator

/-- The text that a value is. -/
def text? : Value → Option Text
  | str t => some t
  | _ => none

/-- The integer that a value is. -/
def int? : Value → Option Int
  | int n => some n
  | _ => none

/-- The elements that a list or a tuple holds. -/
def items? : Value → Option (List Value)
  | list items | tuple items => some items
  | _ => none

/-- The sequence that a value names. -/
def sequence? : Value → Option Handle
  | lazy h => some h
  | _ => none

/-- The decimal digits of an integer, after a minus sign when it is negative. -/
def intChars : Int → List Char
  | .ofNat n => Nat.toDigits 10 n
  | .negSucc n => '-' :: Nat.toDigits 10 (n + 1)

/-- The codepoints that stand for every lazy sequence. -/
def sequenceChars : List Char := "<generator object>".toList

mutual

/-- The codepoints of a value as it is written inside a container. -/
def reprChars : Value → List Char
  | nothing => ['N', 'o', 'n', 'e']
  | bool true => ['T', 'r', 'u', 'e']
  | bool false => ['F', 'a', 'l', 's', 'e']
  | int n => intChars n
  | str t => t.literal.chars
  | list items => '[' :: itemsChars items ++ [']']
  | tuple items =>
    '(' :: itemsChars items ++ (if items.length = 1 then [','] else []) ++ [')']
  | lazy _ => sequenceChars

/-- The codepoints of the elements of a container, a comma and a space between neighbours. -/
def itemsChars : List Value → List Char
  | [] => []
  | [v] => reprChars v
  | v :: w :: rest => reprChars v ++ [',', ' '] ++ itemsChars (w :: rest)

end

/-- A value as it is written inside a container. -/
def repr (v : Value) : Text := ⟨reprChars v⟩

/-- A value as it is shown: a text as itself, all else as inside a container. -/
def display : Value → Text
  | str t => t
  | v => v.repr

end Value

end Conformance
