import BraceDoc.Block.Form
import BraceDoc.Json.Print
import BraceDoc.Plugin.Docgen
import BraceDoc.Setting.Request

/-!
# Writing blocks as JSON

The plugin `ir-json` writes the blocks that were rendered last to the JSON outputs that the settings
ask for, or to a file named after the entry. It stops at the first file that cannot be written.
-/

set_option autoImplicit false

namespace BraceDoc.IrJson

def pluginName : String :=
  "ir-json"

def fileKind : String :=
  "file/json"

def manifest : Manifest :=
  { name := pluginName, provides := [fileKind], consumes := [Docgen.blocksKind] }

def latestText (artifacts : List Artifact) : Except PluginFailure String :=
  match Artifact.latestOf? artifacts Docgen.blocksKind with
  | none => .error (.failed "no docgen/ir artifact to serialize")
  | some artifact =>
    match artifact.data with
    | .blocks blocks => .ok (Block.documentForm blocks).indented
    | _ => .error (.failed "docgen/ir artifact is not a DocumentIr")

def targets (settings : Settings) (entry : Path) : List Path :=
  match (BuildRequest.ofSettings settings).outputsFor "json" pluginName with
  | [] => [⟨entry.stem ++ ".ir.json"⟩]
  | outputs => outputs.map fun output => ⟨output.path⟩

/-- Writes the text to each target, up to the first that is refused. -/
def writeAll (context : PluginContext) (text : String) :
    List Path → Session → Session × Option PluginFailure
  | [], session => (session, none)
  | target :: rest, session =>
    let path := context.host.place target
    match session.write context.host path (Text.encode text) with
    | (session, some e) => (session, some (.host e))
    | (session, none) =>
      let written : Artifact :=
        ⟨fileKind, .written path text.utf8ByteSize, some context.entry⟩
      writeAll context text rest (session.add written)

def run (context : PluginContext) (session : Session) : Session × Option PluginFailure :=
  match latestText session.artifacts with
  | .error failure => (session, some failure)
  | .ok text => writeAll context text (targets context.settings context.entry) session

def plugin : Plugin where
  manifest := manifest
  run := run

end BraceDoc.IrJson
