import BraceDoc.Import.Order
import BraceDoc.Markup.Command

/-!
# Import graphs

The documents of a project in the order in which they were loaded, and the edges between them in the
order in which they were found. An edge comes from an import or from a companion: a file beside
another that bears its name with a tag inserted.
-/

set_option autoImplicit false

namespace BraceDoc

structure SourceFile where
  file : Path
  source : String
  document : Document
  commands : List Command
  deriving Inhabited

def SourceFile.ofText (file : Path) (source : String) : SourceFile :=
  let document := (Document.parse source file.text).document
  ⟨file, source, document, Command.ofDocument document⟩

def SourceFile.commandsNamed (f : SourceFile) (name : String) : List Command :=
  f.commands.filter fun c => c.name == name

structure Edge where
  source : Path
  target : Path
  /-- The import as written, or the mark of a companion. -/
  via : String
  span : Option Span
  deriving DecidableEq, Inhabited

/-- What stands for the import in the edge to a companion. -/
def companionMark : String :=
  "<implicit-companion>"

def Edge.isCompanion (e : Edge) : Bool :=
  e.via == companionMark

structure Graph where
  entry : Path
  documents : List SourceFile
  edges : List Edge
  deriving Inhabited

namespace Graph

def files (g : Graph) : List Path :=
  g.documents.map (·.file)

def document? (g : Graph) (file : Path) : Option SourceFile :=
  g.documents.find? fun d => d.file == file

def contains (g : Graph) (file : Path) : Bool :=
  (g.document? file).isSome

def edgesFrom (g : Graph) (file : Path) : List Edge :=
  g.edges.filter fun e => e.source == file

/-- The documents, each behind those it depends on. A cycle is broken where it comes back to a
document that is being walked; documents that the entry does not reach follow in load order. -/
def ordered (g : Graph) : List SourceFile :=
  (dependencyOrder g.files (g.edges.map fun e => (e.source, e.target)) g.entry).filterMap
    g.document?

end Graph

inductive GraphError where
  | entryNotFound (file : Path)
  | importCycle (cycle : List Path)
  deriving DecidableEq, Inhabited

def GraphError.message : GraphError → String
  | .entryNotFound file => "entry file not found: " ++ file.text
  | .importCycle cycle => "import cycle: " ++ String.intercalate " -> " (cycle.map Path.text)

end BraceDoc
