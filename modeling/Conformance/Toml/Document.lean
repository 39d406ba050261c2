import Conformance.Toml.Parser.Value

/-!
# Documents

A document is a list of lines: headers that open tables and entries of the table opened last.
Blank lines and comments mean nothing.
-/

namespace Conformance

namespace Toml

open Conformance.Parser Toml.Parser

/-- A line of a document that means something. -/
inductive Line where
  /-- The header of a table. -/
  | table (key : Key)
  /-- The header of one more table of an array. -/
  | element (key : Key)
  | entry (key : Key) (v : Toml)

namespace Line

/-- A header. -/
def header : Parser Line :=
  (do
    word ['[', '[']
    let key ← key
    word [']', ']']
    return .element key) <|>
  (do
    char '['
    let key ← key
    char ']'
    return .table key)

/-- An entry. -/
def keyed : Parser Line := do
  let (key, v) ← keyValue value
  return .entry key v

/-- A line, if it means something. -/
def parser : Parser (Option Line) :=
  (comment *> lineEnd *> pure none) <|> (some <$> header <* lineRest) <|>
    (newline *> pure none) <|> (some <$> keyed <* lineRest)

end Line

/-- The lines of a document, before which a byte order mark may stand. -/
def lines : Parser (List Line) := do
  let _ ← optional (char '\uFEFF')
  blanks
  return (← many (Line.parser <* blanks)).filterMap id

/-- A document under construction. -/
structure Draft where
  root : Section
  /-- The way to the table that entries belong to. -/
  current : List String

namespace Draft

/-- The document without lines. -/
def empty : Draft := ⟨.empty, []⟩

/-- The document with one more line. -/
def add (d : Draft) : Line → Option Draft
  | .table key => (d.root.openTable key.way key.name).map (⟨·, key.parts⟩)
  | .element key => (d.root.openElement key.way key.name).map (⟨·, key.parts⟩)
  | .entry key v =>
    (d.root.descend false (·.insert key.way key.name v) d.current).map (⟨·, d.current⟩)

end Draft

/-- The entries of a document. -/
def parse (s : String) : Option Entries := do
  let lines ← readAll lines s.toList
  return (← lines.foldlM Draft.add Draft.empty).root.finish

end Toml

end Conformance
