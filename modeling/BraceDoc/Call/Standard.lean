import BraceDoc.Call.Registry
import BraceDoc.Markup.Document

/-!
# Standard commands

The commands for paragraphs, headings, emphasis, citations, images, the bibliography and settings,
and the registries made of them. Imports and definitions are dealt with before rendering, so their
handlers yield nothing.
-/

set_option autoImplicit false

namespace BraceDoc.Call

def pureHandler (blocks : Call → List Block) : Handler :=
  fun _ call stage => (blocks call, stage)

def consume : Handler :=
  pureHandler fun _ => []

def inlineHandler (inline : Call → Inline) : Handler :=
  pureHandler fun call => [.paragraph [inline call]]

def argInline (call : Call) : List Inline :=
  [.text call.argText]

def heading (level : Nat) : Handler :=
  pureHandler fun call => [.heading level (argInline call)]

/-- Divides an argument at the first `mark` into a trimmed text and a trimmed remark that is not
empty; an argument without the mark is taken as it is. -/
def splitRemark (mark : Char) (arg : String) : String × Option String :=
  match Text.cut? [mark] arg.toList with
  | some (front, remark) => (String.ofList (Text.trim front), filled? remark)
  | none => (arg, none)

def citation (call : Call) : Inline :=
  let (key, locator) := splitRemark ',' call.argText
  if key.isEmpty then .rawCommand call.name call.arg else .citation key locator

def assetPath (file : Path) (id : String) : Path :=
  match file.parent? with
  | some directory => directory.join ⟨id⟩
  | none => ⟨id⟩

/-- An image is put as an asset the first time its id comes up. -/
def image : Handler := fun file call stage =>
  let (id, alt) := splitRemark '|' call.argText
  let stage :=
    if id.isEmpty || stage.assets.contains id then stage
    else stage.putAsset { id, mime := Asset.mimeOf ⟨id⟩, path := some (assetPath file id) }
  ([.paragraph [.image id alt]], stage)

def settingText? (settings : Settings) (path : String) : Option String :=
  match Setting.lookup path settings with
  | some (.str s) => some s
  | _ => none

def bibliography : Handler := fun _ call stage =>
  let style := call.arg.orElse fun _ => settingText? stage.settings "bibliography.style"
  ([.bibliography style (settingText? stage.settings "bibliography.title") []], stage)

def applyClause (file : Path) (span : Span) (stage : Stage) :
    Except Setting.ClauseError Setting.Assignment → Stage
  | .ok a => { stage with settings := Setting.apply stage.settings a }
  | .error e =>
    stage.report ((Problem.badSetting e.message).located (some file) (some span))

def config : Handler := fun file call stage =>
  ([], (Setting.parse call.argText).foldl (applyClause file call.span) stage)

def core : List (String × Handler) :=
  [ ("import", consume),
    ("define", consume),
    ("p", pureHandler fun call => [.ofText call.argText])]

def markup : List (String × Handler) :=
  [ ("h1", heading 1), ("h2", heading 2), ("h3", heading 3), ("h4", heading 4), ("h5", heading 5),
    ("h6", heading 6),
    ("b", inlineHandler fun call => .strong (argInline call)),
    ("i", inlineHandler fun call => .emphasis (argInline call)),
    ("u", inlineHandler fun call => .underline (argInline call)),
    ("code", inlineHandler fun call => .code call.argText),
    ("cite", inlineHandler citation),
    ("image", image),
    ("bibliography", bibliography)]

end BraceDoc.Call

namespace BraceDoc.Registry

def standard : Registry :=
  ({} : Registry).registerAll (Call.core ++ Call.markup ++ [("config", Call.config)])

/-- All standard commands, where settings are passed over: they have been collected before. -/
def rendering : Registry :=
  ({} : Registry).registerAll (Call.core ++ Call.markup ++ [("config", Call.consume)])

def settingsOnly : Registry :=
  ({} : Registry).registerAll [("config", Call.config)]

end BraceDoc.Registry
