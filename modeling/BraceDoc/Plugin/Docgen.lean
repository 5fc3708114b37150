import BraceDoc.Block.Reflow
import BraceDoc.Call.Dispatch
import BraceDoc.Decimal.Layout
import BraceDoc.Plugin.Basic

/-!
# Rendering the entry document

The plugin `docgen` renders the entry document into blocks, reflows them and classifies the
literals. It leaves the blocks and the assets as artifacts.
-/

set_option autoImplicit false

namespace BraceDoc.Docgen

def pluginName : String :=
  "docgen"

def blocksKind : String :=
  "docgen/ir"

def assetsKind : String :=
  "docgen/assets"

def manifest : Manifest :=
  { name := pluginName, provides := [blocksKind, assetsKind] }

/-- A literal with unified line ends and the guess at its language. -/
def classify : Block → Block
  | .code content language _ =>
    let content := Text.unified content
    .code content language (some (Language.detect content))
  | block => block

def verdictNote? : Block → Option Diagnostic
  | .code _ _ (some verdict) =>
    some (.note ("docgen: block detected=" ++ verdict.language.name ++ " confidence=" ++
      String.ofList (fixedText 2 verdict.confidence)))
  | _ => none

def render (registry : Registry) (policy : UnknownPolicy) (settings : Settings) (d : SourceFile) :
    List Block × Stage :=
  let (blocks, stage) := registry.render policy d.file d.document { settings }
  ((reflow blocks).map classify, stage)

def run (registry : Registry) (policy : UnknownPolicy) (context : PluginContext)
    (session : Session) : Session :=
  match context.graph.document? context.entry with
  | none =>
    session.report ((Problem.entryNotLoaded context.entry).located (some context.entry) none)
  | some d =>
    let (blocks, stage) := render registry policy context.settings d
    let summary := Diagnostic.note
      ("docgen: " ++ toString blocks.length ++ " block(s) from " ++ d.file.text)
    { session with
      diagnostics :=
        session.diagnostics ++ stage.diagnostics ++ blocks.filterMap verdictNote? ++ [summary]
      artifacts := session.artifacts ++
        [⟨blocksKind, .blocks blocks, some d.file⟩,
          ⟨assetsKind, .assets stage.assets, some d.file⟩] }

def pluginWith (registry : Registry) (policy : UnknownPolicy) : Plugin where
  manifest := manifest
  run context session := (run registry policy context session, none)

def plugin : Plugin :=
  pluginWith Registry.rendering {}

end BraceDoc.Docgen
