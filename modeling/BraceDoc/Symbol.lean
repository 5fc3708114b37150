import BraceDoc.Import.Graph
import BraceDoc.Markup.Command
import BraceDoc.Source.Problem

/-!
# Symbols

The names that documents define, in the order of their first definitions, each with all its
definitions in order. A second definition of a name is reported only on request, and kept anyway.
-/

set_option autoImplicit false

namespace BraceDoc

structure Definition where
  name : String
  file : Path
  span : Option Span
  deriving DecidableEq, Inhabited

structure Symbol where
  name : String
  definitions : List Definition
  deriving DecidableEq, Inhabited

structure SymbolTable where
  symbols : List Symbol := []
  deriving DecidableEq, Inhabited

namespace SymbolTable

def get (t : SymbolTable) (name : String) : List Definition :=
  match t.symbols.find? fun s => s.name == name with
  | some symbol => symbol.definitions
  | none => []

def contains (t : SymbolTable) (name : String) : Bool :=
  t.symbols.any fun s => s.name == name

def names (t : SymbolTable) : List String :=
  t.symbols.map (·.name)

def insert (t : SymbolTable) (d : Definition) : SymbolTable :=
  if t.contains d.name then
    ⟨t.symbols.map fun s =>
      if s.name == d.name then { s with definitions := s.definitions ++ [d] } else s⟩
  else
    ⟨t.symbols ++ [⟨d.name, [d]⟩]⟩

def define (unique : Bool) (file : Path) (state : SymbolTable × List Diagnostic) (c : Command) :
    SymbolTable × List Diagnostic :=
  let (table, diagnostics) := state
  let name := Text.trimmed c.argText
  if name.isEmpty then
    (table, diagnostics ++ [Problem.emptyDefinition.located (some file) c.span])
  else
    let known := table.contains name
    let table := table.insert ⟨name, file, c.span⟩
    if unique && known then
      (table, diagnostics ++ [(Problem.duplicateDefinition name).located (some file) c.span])
    else
      (table, diagnostics)

def ofDocuments (unique : Bool) (documents : List SourceFile) : SymbolTable × List Diagnostic :=
  documents.foldl
    (fun state d => (d.commandsNamed "define").foldl (define unique d.file) state) ({}, [])

end SymbolTable

def Definition.form (d : Definition) : Json :=
  .obj [("name", .str d.name), ("defined_in", d.file.form), ("span", Span.form? d.span)]

def SymbolTable.form (t : SymbolTable) : Json :=
  .obj
    [("defs", .obj (t.symbols.map fun s => (s.name, .arr (s.definitions.map Definition.form))))]

end BraceDoc
