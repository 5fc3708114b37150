import BraceDoc.Import.Graph
import BraceDoc.Plugin.Artifact
import BraceDoc.Plugin.Host
import BraceDoc.Setting.Fold
import BraceDoc.Symbol

/-!
# Plugins

A plugin names the kinds of artifacts that it provides and consumes. It runs over a session, which
is shared by all plugins of a build: it adds artifacts and diagnostics and writes files. A failure
ends the run of the plugin, and what it did before stays.
-/

set_option autoImplicit false

namespace BraceDoc

structure Manifest where
  name : String
  provides : List String := []
  consumes : List String := []
  deriving DecidableEq, Inhabited

structure PluginContext where
  entry : Path
  graph : Graph
  symbols : SymbolTable
  settings : Settings
  host : Host

structure Session where
  artifacts : List Artifact := []
  diagnostics : List Diagnostic := []
  writes : List Write := []
  deriving Inhabited

inductive PluginFailure where
  | failed (message : String)
  | host (error : HostError)
  | unserializable (reason : String)
  /-- The plugin was aborted, possibly with a message. -/
  | aborted (message : Option String)
  deriving DecidableEq, Inhabited

def PluginFailure.reason : PluginFailure → String
  | .failed message => message
  | .host error => error.message
  | .unserializable reason => "serialization failed: " ++ reason
  | .aborted message => message.getD "panicked"

structure Plugin where
  manifest : Manifest
  run : PluginContext → Session → Session × Option PluginFailure

def Plugin.name (p : Plugin) : String :=
  p.manifest.name

namespace Session

def report (s : Session) (d : Diagnostic) : Session :=
  { s with diagnostics := s.diagnostics ++ [d] }

def add (s : Session) (a : Artifact) : Session :=
  { s with artifacts := s.artifacts ++ [a] }

def write (s : Session) (host : Host) (path : Path) (bytes : Text.Bytes) :
    Session × Option HostError :=
  let (writes, error) := host.write s.writes path bytes
  ({ s with writes }, error)

/-- Runs one plugin; a failure is reported. -/
def runPlugin (context : PluginContext) (s : Session) (p : Plugin) : Session :=
  match p.run context s with
  | (s, none) => s
  | (s, some failure) =>
    s.report ((Problem.pluginCrashed p.name failure.reason).located none none)

/-- Runs plugins in order; those behind a failure still run. -/
def runPlugins (context : PluginContext) (s : Session) (plugins : List Plugin) : Session :=
  plugins.foldl (runPlugin context) s

end Session

end BraceDoc
