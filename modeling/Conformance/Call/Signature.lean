import Conformance.Value

/-!
# Signatures

A signature lists the parameters of a function: fixed ones, at most one variadic parameter for
surplus positional values, and parameters with defaults that only a keyword fills. It is made
from declarations; the order between the three groups does not matter, and no name may be
declared twice.
-/

namespace Conformance

/-- The declaration of one parameter. -/
inductive Declaration (α : Type) where
  /-- A parameter that takes a positional value or a keyword. -/
  | fixed (name : String)
  /-- The parameter that takes the surplus positional values. A later one takes its place. -/
  | variadic (name : String)
  /-- A parameter that takes a keyword, or its default. -/
  | keyword (name : String) (default : α)

/-- The declaration with its default computed. -/
def Declaration.mapM {m : Type → Type} [Monad m] {α β : Type} (f : α → m β) :
    Declaration α → m (Declaration β)
  | fixed name => pure (fixed name)
  | variadic name => pure (variadic name)
  | keyword name default => keyword name <$> f default

/-- The parameters of a function. -/
structure Signature where
  /-- The name of the function. -/
  name : String
  /-- The names of the fixed parameters, in order. -/
  fixed : List String
  /-- The name of the variadic parameter. -/
  variadic : Option String
  /-- The names and defaults of the keyword parameters, in order. -/
  defaults : List (String × Value)
  deriving DecidableEq

/-- The first entry of a list that is equal to an earlier entry or to one of those seen. -/
def firstRepeat? (seen : List String) : List String → Option String
  | [] => none
  | name :: rest => if name ∈ seen then some name else firstRepeat? (name :: seen) rest

theorem firstRepeat?_eq_none_iff (seen names : List String) :
    firstRepeat? seen names = none ↔ names.Nodup ∧ ∀ name ∈ names, name ∉ seen := by
  induction names generalizing seen with
  | nil => simp [firstRepeat?]
  | cons name rest ih =>
    rw [firstRepeat?]
    by_cases hname : name ∈ seen
    · simp [hname]
    · rw [if_neg hname, ih, List.nodup_cons]
      grind

namespace Signature

/-- The names of all parameters: fixed, variadic, keyword. -/
def names (s : Signature) : List String :=
  s.fixed ++ s.variadic.toList ++ s.defaults.map (·.1)

/-- A signature with one more declaration. -/
def add (s : Signature) : Declaration Value → Signature
  | .fixed name => { s with fixed := s.fixed ++ [name] }
  | .variadic name => { s with variadic := some name }
  | .keyword name default => { s with defaults := s.defaults ++ [(name, default)] }

/-- The parameters that a list of declarations gives, before their names are compared. -/
def gather (name : String) (declarations : List (Declaration Value)) : Signature :=
  declarations.foldl add ⟨name, [], none, []⟩

/-- The signature that a list of declarations gives. -/
def declare (name : String) (declarations : List (Declaration Value)) : Except Fault Signature :=
  let s := gather name declarations
  match firstRepeat? [] s.names with
  | some twice => .error (.duplicateParameter name twice)
  | none => .ok s

/-- Declarations give a signature exactly if no name is in it twice. -/
theorem declare_eq_ok_iff {name : String} {declarations : List (Declaration Value)}
    {s : Signature} : declare name declarations = .ok s ↔
      gather name declarations = s ∧ s.names.Nodup := by
  simp only [declare]
  have hrepeat := firstRepeat?_eq_none_iff [] (gather name declarations).names
  split
  case h_1 twice hsome =>
    rw [hsome] at hrepeat
    constructor
    · exact nofun
    · rintro ⟨rfl, hnodup⟩
      cases hrepeat.2 ⟨hnodup, fun _ _ => List.not_mem_nil⟩
  case h_2 hnone =>
    rw [Except.ok.injEq]
    constructor
    · rintro rfl
      exact ⟨rfl, (hrepeat.1 hnone).1⟩
    · exact And.left

/-- No two parameters of a declared signature have the same name. -/
theorem nodup_of_declare {name : String} {declarations : List (Declaration Value)}
    {s : Signature} (hs : declare name declarations = .ok s) : s.names.Nodup :=
  (declare_eq_ok_iff.1 hs).2

end Signature

end Conformance
