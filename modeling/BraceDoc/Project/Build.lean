import BraceDoc.Call.Dispatch
import BraceDoc.Import.Walk
import BraceDoc.Plugin.Plan

/-!
# Building a project

A build loads a project, collects its settings, plans the plugins that were asked for by the options
or by the settings, and runs them. Only an entry that cannot be loaded, or an import cycle where
none is tolerated, ends it; every other problem becomes a diagnostic.

All settings are folded into one record, the documents in the order of dependence, so that the
settings of a document override those of the documents it imports.
-/

set_option autoImplicit false

namespace BraceDoc

def Graph.collectFrom (stage : Stage) (d : SourceFile) : Stage :=
  (Registry.settingsOnly.render UnknownPolicy.tolerant d.file d.document stage).2

/-- The settings of all documents, and the problems with them. -/
def Graph.collectSettings (g : Graph) : Settings × List Diagnostic :=
  let stage := g.ordered.foldl collectFrom {}
  (stage.settings, stage.diagnostics)

structure Project where
  graph : Graph
  symbols : SymbolTable
  diagnostics : List Diagnostic

structure BuildOptions where
  entry : Path
  /-- Whether a second definition of a name is reported. -/
  uniqueNames : Bool := false
  /-- The plugins to run; where there are none, the settings decide. -/
  plugins : List String := []
  deriving Inhabited

def Project.load (setup : WalkSetup) (options : BuildOptions) : Except GraphError Project :=
  let result := Graph.build setup options.entry
  result.graph.map fun graph =>
    let (symbols, problems) := SymbolTable.ofDocuments options.uniqueNames graph.documents
    ⟨graph, symbols, result.diagnostics ++ problems⟩

structure BuildOutcome where
  project : Project
  settings : Settings
  request : BuildRequest
  plan : Plan
  session : Session
  /-- The diagnostics of all stages, in order. -/
  diagnostics : List Diagnostic

namespace Project

def build (project : Project) (plugins : List String) (catalog : Catalog) (host : Host) :
    BuildOutcome :=
  let (settings, problems) := project.graph.collectSettings
  let request := BuildRequest.ofSettings settings
  let requested := if plugins.isEmpty then request.plugins else plugins
  let plan := Plan.make requested catalog.load catalog
  let context : PluginContext :=
    { entry := project.graph.entry
      graph := project.graph
      symbols := project.symbols
      settings
      host }
  let session := ({} : Session).runPlugins context plan.ordered
  { project, settings, request, plan, session
    diagnostics := project.diagnostics ++ problems ++ plan.warnings ++ session.diagnostics }

end Project

def buildProject (setup : WalkSetup) (options : BuildOptions) (catalog : Catalog) (host : Host) :
    Except GraphError BuildOutcome :=
  (Project.load setup options).map fun project => project.build options.plugins catalog host

end BraceDoc
