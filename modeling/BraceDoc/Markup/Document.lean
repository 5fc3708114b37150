import BraceDoc.Markup.Token
import BraceDoc.Text.Blank

/-!
# Documents

A document is the list of the nodes of a source text, one for each token. The content of a command
is kept as written; `splitCall` divides it into a name and an argument.
-/

set_option autoImplicit false

namespace BraceDoc

inductive Node where
  | text (value : String) (span : Span)
  | command (content raw : String) (span : Span) (closed : Bool)
  | literal (width : Nat) (content raw : String) (span : Span) (closed : Bool)
  deriving DecidableEq, Inhabited

namespace Node

def span : Node → Span
  | .text _ span => span
  | .command _ _ span _ => span
  | .literal _ _ _ span _ => span

def raw : Node → String
  | .text value _ => value
  | .command _ raw _ _ => raw
  | .literal _ _ raw _ _ => raw

def ofLocated? (l : Located) : Option Node :=
  let raw := String.ofList l.piece.render
  match l.piece with
  | .text content => some (.text (String.ofList content) l.span)
  | .command inner closed => some (.command (String.ofList inner) raw l.span closed)
  | .literal width content closed =>
    some (.literal width (String.ofList content) raw l.span closed)
  | .lineComment _ | .blockComment _ _ => none

end Node

structure Document where
  fileName : String
  span : Span
  nodes : List Node
  deriving DecidableEq, Inhabited

structure Parsed where
  document : Document
  errors : List SyntaxError
  deriving DecidableEq, Inhabited

def Document.parse (source fileName : String) : Parsed where
  document :=
    { fileName
      span := ⟨Position.first, Position.first.advance source.toList⟩
      nodes := (locatedPieces source).filterMap Node.ofLocated? }
  errors := syntaxErrors source

/-- A command name with its argument; an argument of blanks only counts as none. -/
structure CallText where
  name : String
  arg : Option String
  deriving DecidableEq, Inhabited

def filled? (cs : List Char) : Option String :=
  let trimmed := Text.trim cs
  if trimmed.isEmpty then none else some (String.ofList trimmed)

/-- Divides the content of a command at its first colon, and trims both sides. -/
def splitCall (content : String) : CallText :=
  let trimmed := Text.trim content.toList
  match Text.cut? [':'] trimmed with
  | none => ⟨String.ofList trimmed, none⟩
  | some (name, arg) => ⟨String.ofList (Text.trim name), filled? arg⟩

end BraceDoc
