import Conformance.Files.Entry
import Conformance.Suite.Basic
import Conformance.Toml.Document

/-!
# Loading documents

A document of a suite or a configuration may be unreadable as a file, have no meaning as a
document of its kind, or hold a case that cannot be used. What a document means is a matter of the
reader of its kind, which also words the message when it means nothing.
-/

namespace Conformance

/-- A reader of documents of one kind: what a text means, or the message that tells why it means
nothing. -/
class DocumentReader (α : Type) where
  read : String → Except String α

/-- What a text means as a TOML document of some kind. Nothing is told of a text that means
nothing: three dots stand for the message. -/
def Toml.readAs {α : Type} (decode : Toml.Entries → Option α) (text : String) : Except String α :=
  match Toml.parse text >>= decode with
  | some a => .ok a
  | none => .error "..."

/-- The documents of suites. -/
instance : DocumentReader (List Case) := ⟨Toml.readAs Suite.decodeCases⟩

/-- The ways in which loading fails. -/
inductive LoadError where
  | file (path : String) (cause : FileError)
  /-- A document of no meaning, with the message of its reader, from a path that is empty when it
  is not known. -/
  | document {message : String} (path : String)
  | invalidCase (e : InvalidCase)
  deriving DecidableEq, Repr

/-- The message of a failed load. -/
def LoadError.message : LoadError → String
  | file path cause => s!"failed to read {path}: {cause.message}"
  | @document message path =>
    if path.isEmpty then s!"parse error: {message}" else s!"parse error in {path}: {message}"
  | invalidCase e => e.message

/-- The meaning of a document from a path. -/
def readDocument {α : Type} [DocumentReader α] (path text : String) : Except LoadError α :=
  (DocumentReader.read text).mapError fun message => @LoadError.document message path

namespace Suite

variable [DocumentReader (List Case)]

/-- The suite of a document from a path. -/
def parse (path text : String) : Except LoadError Suite := do
  (ofCases (← readDocument path text)).mapError LoadError.invalidCase

/-- The suite of a file, from what reading it gave. -/
def load (path : String) : Except FileError String → Except LoadError Suite
  | .error cause => .error (.file path cause)
  | .ok text => parse path text

end Suite

end Conformance
