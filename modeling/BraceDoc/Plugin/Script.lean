import BraceDoc.Json.Print
import BraceDoc.Plugin.Basic

/-!
# Scripted plugins

A plugin can be given by a list of actions. They are carried out in order, up to the first that
fails. Several actions only note what the plugin sees.
-/

set_option autoImplicit false

namespace BraceDoc

inductive Action where
  | add (artifact : Artifact)
  | report (diagnostic : Diagnostic)
  /-- Notes the number of artifacts of a kind. -/
  | noteCount (kind : String)
  /-- Notes the text of the latest artifact of a kind. -/
  | noteLatest (kind : String)
  /-- Notes the setting at a dotted path. -/
  | noteSetting (path : String)
  /-- Notes the defined names. -/
  | noteNames
  /-- Notes the entry and the files of the project. -/
  | noteFiles
  | write (target : Path) (content : String)
  /-- Notes the number of bytes of a file. -/
  | read (target : Path)
  | stop (failure : PluginFailure)
  deriving Inhabited

namespace Action

def latestText (artifacts : List Artifact) (kind : String) : String :=
  match Artifact.latestOf? artifacts kind with
  | none => "none"
  | some artifact =>
    match artifact.data with
    | .text content => "text " ++ content
    | _ => "not text"

def settingText (settings : Settings) (path : String) : String :=
  match Setting.lookup path settings with
  | some value => value.compact
  | none => "unset"

def filesText (context : PluginContext) : String :=
  context.entry.text ++ " of " ++ String.intercalate "," (context.graph.files.map (·.text))

def perform (context : PluginContext) (session : Session) :
    Action → Session × Option PluginFailure
  | .add artifact => (session.add artifact, none)
  | .report diagnostic => (session.report diagnostic, none)
  | .noteCount kind =>
    let count := (Artifact.allOf session.artifacts kind).length
    (session.report (.note (kind ++ ": " ++ toString count)), none)
  | .noteLatest kind => (session.report (.note (latestText session.artifacts kind)), none)
  | .noteSetting path => (session.report (.note (settingText context.settings path)), none)
  | .noteNames =>
    (session.report (.note (String.intercalate "," context.symbols.names)), none)
  | .noteFiles => (session.report (.note (filesText context)), none)
  | .write target content =>
    let (session, error) :=
      session.write context.host (context.host.place target) (Text.encode content)
    (session, error.map .host)
  | .read target =>
    match context.host.fetch session.writes (context.host.place target) with
    | .ok bytes => (session.report (.note ("read " ++ toString bytes.length)), none)
    | .error e => (session, some (.host e))
  | .stop failure => (session, some failure)

def performAll (context : PluginContext) :
    List Action → Session → Session × Option PluginFailure
  | [], session => (session, none)
  | action :: rest, session =>
    match action.perform context session with
    | (session, none) => performAll context rest session
    | (session, some failure) => (session, some failure)

end Action

def Plugin.ofActions (manifest : Manifest) (actions : List Action) : Plugin where
  manifest := manifest
  run context session := Action.performAll context actions session

end BraceDoc
