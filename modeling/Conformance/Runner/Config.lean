import Conformance.Suite.Load
import Conformance.Text.Search

/-!
# Configurations

A configuration says which cases of which files run and how the results are shown. A document may
give any of its settings, the others keep their defaults; settings from elsewhere override both.
-/

namespace Conformance

/-- The forms of a report. -/
inductive ReportFormat where
  | text
  | json
  deriving DecidableEq, Repr

/-- The form of a report by its name. -/
def ReportFormat.ofName? : String → Option ReportFormat
  | "text" => some .text
  | "json" => some .json
  | _ => none

/-- The settings of a run. -/
structure Config where
  /-- The text that the names of cases to run contain. -/
  filter : Option String
  /-- Whether the time of each case is shown. -/
  verbose : Bool
  /-- Whether the run ends with the first failure. -/
  failFast : Bool
  format : ReportFormat
  /-- The extension of suite files. -/
  extension : String

/-- Settings that override those of a configuration. -/
structure Overrides where
  filter : Option String
  verbose : Option Bool
  failFast : Option Bool
  format : Option ReportFormat
  extension : Option String

namespace Config

/-- The configuration without settings of its own. -/
def standard : Config := ⟨none, false, false, .text, "toml"⟩

/-- Whether a case of a name runs. -/
def selects (config : Config) (name : String) : Bool :=
  match config.filter with
  | some wanted => (Text.ofString name).contains (Text.ofString wanted)
  | none => true

/-- The configuration with some settings overridden. -/
def override (config : Config) (o : Overrides) : Config where
  filter := o.filter.or config.filter
  verbose := o.verbose.getD config.verbose
  failFast := o.failFast.getD config.failFast
  format := o.format.getD config.format
  extension := o.extension.getD config.extension

/-- Whether a TOML value is an empty array or table. -/
def isVoid : Toml → Bool
  | .array items => items.isEmpty
  | .table entries => entries.isEmpty
  | _ => false

/-- The form of a report: its name, or a table with the name and nothing else. -/
def decodeFormat : Toml → Option ReportFormat
  | .string name => ReportFormat.ofName? name
  | .table [(name, t)] => if isVoid t then ReportFormat.ofName? name else none
  | _ => none

/-- The settings that a document may give. -/
def shape : Toml.Shape :=
  ⟨["filter", "verbose", "fail_fast", "format", "suite_extension"], 0, true⟩

/-- The settings of a document. -/
def decode (document : Toml.Entries) : Option Overrides := do
  let entries ← shape.read (.table document)
  return {
    filter := ← Toml.field? Toml.decodeString entries "filter"
    verbose := ← Toml.field? Toml.decodeBool entries "verbose"
    failFast := ← Toml.field? Toml.decodeBool entries "fail_fast"
    format := ← Toml.field? decodeFormat entries "format"
    extension := ← Toml.field? Toml.decodeString entries "suite_extension" }

/-- The documents of configurations. -/
instance : DocumentReader Overrides := ⟨Toml.readAs decode⟩

variable [DocumentReader Overrides]

/-- The configuration of a document from a path. -/
def parse (path text : String) : Except LoadError Config :=
  standard.override <$> readDocument path text

/-- The configuration of the file at a path. -/
def load (files : Files) (path : String) : Except LoadError Config :=
  match files.read path with
  | .error cause => .error (.file path cause)
  | .ok text => parse path text

end Config

end Conformance
