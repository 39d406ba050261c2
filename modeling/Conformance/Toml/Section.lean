import Conformance.Toml.Basic

/-!
# Tables under construction

A table comes to be by a header of its own, on the way of another header, or on the way of a
key with points. A header may open a table that stands on the way of earlier headers only, and
each table once. A key may not go through tables that have a header, nor add to tables that only
headers named. No name of a table is given twice. Names stay in the order in which they come up;
the name of a table that a header opens comes last at that moment, even when it came up before.
-/

namespace Conformance

namespace Toml

/-- How a table came to be. -/
inductive Origin where
  /-- By its own header, or as the table of a whole document or value. -/
  | header
  /-- On the way of a header. -/
  | headerWay
  /-- On the way of a key. -/
  | keyWay
  deriving DecidableEq, Repr

/-- What a name of a table under construction stands for. -/
inductive Node where
  | value (v : Toml)
  | table (origin : Origin) (entries : List (String × Node))
  /-- An array of tables: the last one, and those before it from the end. -/
  | tables (last : List (String × Node)) (earlier : List (List (String × Node)))

/-- A table under construction. -/
structure Section where
  origin : Origin
  entries : List (String × Node)

namespace Section

/-- The table of a document or value without entries. -/
def empty : Section := ⟨.header, []⟩

/-- A table as the entry of another. -/
def toNode (s : Section) : Node := .table s.origin s.entries

/-- Puts another node in place of that of a name, or after all when the name is new. -/
def alter (name : String) (change : Option Node → Option Node) :
    List (String × Node) → Option (List (String × Node))
  | [] => (change none).map fun node => [(name, node)]
  | entry :: rest =>
    if entry.1 = name then (change (some entry.2)).map fun node => (name, node) :: rest
    else (alter name change rest).map (entry :: ·)

/-- Changes the node of a name. -/
def change (s : Section) (name : String) (f : Option Node → Option Node) : Option Section :=
  (alter name f s.entries).map fun entries => { s with entries := entries }

/-- Changes the table at the end of a way of headers or of a key, with new tables where there are
none. A way through an array of tables goes through its last one. -/
def descend (byKey : Bool) (f : Section → Option Section) : List String → Section → Option Section
  | [], s => f s
  | name :: way, s =>
    s.change name fun
      | none => (descend byKey f way ⟨if byKey then .keyWay else .headerWay, []⟩).map toNode
      | some (.value _) => none
      | some (.table origin entries) =>
        if byKey && origin = .header then none
        else (descend byKey f way ⟨origin, entries⟩).map toNode
      | some (.tables last earlier) =>
        (descend byKey f way ⟨.header, last⟩).map fun s => .tables s.entries earlier

/-- The entries that a table has before its header opens it. -/
def openable : Option Node → Option (List (String × Node))
  | none => some []
  | some (.table .headerWay entries) => some entries
  | some _ => none

/-- Opens a table by its header. -/
def openTable (way : List String) (name : String) : Section → Option Section :=
  descend false (fun s => do
    let entries ← openable (s.entries.lookup name)
    let others := s.entries.filter (·.1 != name)
    return { s with entries := others ++ [(name, .table .header entries)] }) way

/-- Opens one more table of an array of tables. -/
def openElement (way : List String) (name : String) : Section → Option Section :=
  descend false (·.change name fun
    | none => some (.tables [] [])
    | some (.tables last earlier) => some (.tables [] (last :: earlier))
    | some _ => none) way

/-- Adds a value under a key. -/
def insert (way : List String) (name : String) (v : Toml) : Section → Option Section :=
  descend true (fun s =>
    if !way.isEmpty && s.origin ≠ .keyWay then none
    else s.change name fun
      | none => some (.value v)
      | some _ => none) way

end Section

mutual

/-- The value of a finished node. -/
def Node.toToml : Node → Toml
  | .value v => v
  | .table _ entries => .table (pairsOf entries)
  | .tables last earlier =>
    .array (tablesOf earlier ++ [.table (pairsOf last)])

/-- The names of some finished nodes with their values. -/
def pairsOf : List (String × Node) → List (String × Toml)
  | [] => []
  | (name, node) :: rest => (name, node.toToml) :: pairsOf rest

/-- The tables of an array that is given from its end. -/
def tablesOf : List (List (String × Node)) → List Toml
  | [] => []
  | entries :: earlier => tablesOf earlier ++ [.table (pairsOf entries)]

end

/-- The entries of a finished table. -/
def Section.finish (s : Section) : Entries := pairsOf s.entries

end Toml

end Conformance
