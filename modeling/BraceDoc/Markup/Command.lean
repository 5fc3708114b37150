import BraceDoc.Markup.Document
import BraceDoc.Source.LineTable

/-!
# Commands of a document

The commands of a document are found in two ways: from the nodes, where every command with a name
counts, or by a plain search through the source, which knows neither comments nor literals and takes
only simple names. The first way gives the span of the whole command, the second that of its name.
-/

set_option autoImplicit false

namespace BraceDoc

structure Command where
  name : String
  arg : Option String
  span : Option Span
  deriving DecidableEq, Inhabited

namespace Command

def argText (c : Command) : String :=
  c.arg.getD ""

def ofNode? : Node → Option Command
  | .command content _ span _ =>
    let call := splitCall content
    if call.name.isEmpty then none else some ⟨call.name, call.arg, some span⟩
  | _ => none

def ofDocument (d : Document) : List Command :=
  d.nodes.filterMap ofNode?

def isNameStart (c : Char) : Bool :=
  ('A' ≤ c && c ≤ 'Z') || ('a' ≤ c && c ≤ 'z') || c = '_'

def isNameChar (c : Char) : Bool :=
  isNameStart c || ('0' ≤ c && c ≤ '9') || c = '-'

def isNotBrace (c : Char) : Bool :=
  c != '\x7b' && c != '\x7d'

/-- A simple command: its name, the text of its argument, and the source behind it. -/
structure Simple where
  name : List Char
  arg : Option (List Char)
  rest : List Char

/-- The simple command whose opening brace stands right before `cs`. -/
def simple? (cs : List Char) : Option Simple :=
  if cs.head?.any isNameStart then
    let name := cs.takeWhile isNameChar
    match cs.dropWhile isNameChar with
    | '\x7d' :: rest => some ⟨name, none, rest⟩
    | ':' :: more =>
      match more.dropWhile isNotBrace with
      | '\x7d' :: rest => some ⟨name, some (more.takeWhile isNotBrace), rest⟩
      | _ => none
    | _ => none
  else
    none

theorem length_simple?_rest {cs : List Char} {s : Simple} (hSimple : simple? cs = some s) :
    s.rest.length ≤ cs.length := by
  unfold simple? at hSimple
  have hName := (List.dropWhile_sublist (l := cs) isNameChar).length_le
  split at hSimple
  · simp only at hSimple
    split at hSimple
    · rename_i rest hRest
      cases hSimple
      rw [hRest] at hName
      exact Nat.le_of_succ_le hName
    · rename_i more hMore
      have hArg := (List.dropWhile_sublist (l := more) isNotBrace).length_le
      split at hSimple
      · rename_i rest hRest
        cases hSimple
        rw [hMore] at hName
        rw [hRest] at hArg
        simp only [List.length_cons] at hName hArg
        simp only
        omega
      · cases hSimple
    · cases hSimple
  · cases hSimple

/-- The simple commands of a text with the offsets of their names; a command that has been taken is
not searched again. -/
def simpleCommands (offset : Nat) : List Char → List (Nat × Simple)
  | [] => []
  | c :: cs =>
    let next := offset + c.utf8Size
    if c = '\x7b' then
      match _hSimple : simple? cs with
      | some s =>
        (next, s) ::
          simpleCommands (next + Text.byteLength (cs.take (cs.length - s.rest.length))) s.rest
      | none => simpleCommands next cs
    else
      simpleCommands next cs
termination_by cs => cs.length
decreasing_by
  · have hRest := length_simple?_rest _hSimple
    simp only [List.length_cons]
    omega
  · simp
  · simp

def ofSource (source : String) : List Command :=
  let table := LineTable.ofText source.toList
  (simpleCommands 0 source.toList).map fun (offset, s) =>
    { name := String.ofList s.name
      arg := s.arg.bind filled?
      span := some (table.span offset (offset + Text.byteLength s.name)) }

end Command

/-! ## JSON forms -/

def Node.form : Node → Json
  | .text value span => .obj [("type", .str "Text"), ("value", .str value), ("range", span.form)]
  | .command content raw span closed =>
    .obj
      [("type", .str "Command"), ("raw_content", .str content), ("raw", .str raw),
        ("range", span.form), ("terminated", .bool closed)]
  | .literal width content raw span closed =>
    .obj
      [("type", .str "LiteralBlock"), ("fence_width", .int width), ("content", .str content),
        ("raw", .str raw), ("range", span.form), ("terminated", .bool closed)]

def Document.form (d : Document) : Json :=
  .obj
    [("file_name", .str d.fileName), ("range", d.span.form),
      ("children", .arr (d.nodes.map Node.form))]

def Command.form (c : Command) : Json :=
  .obj [("name", .str c.name), ("arg", Json.ofText? c.arg), ("span", Span.form? c.span)]

end BraceDoc
