import BraceDoc.Proofs.Project.Reports

/-!
# The outputs of a build

A build with the built-in plugins over a host that takes every file does not fail on its way: no
plugin crashes, none lacks a provider, and there is no cycle. Whoever asks for `ir-json`, in
whatever list of names, finds the blocks of the entry in every output.
-/

set_option autoImplicit false

namespace BraceDoc

open Diagnostics (Within)

theorem Session.within_runPlugins_of_accepts {context : PluginContext} {d : SourceFile}
    (hEntry : context.graph.document? context.entry = some d) (hHost : context.host.Accepts)
    {planned : List Plugin}
    (hPlanned : planned ∈ [[], [Docgen.plugin], [Docgen.plugin, IrJson.plugin]]) :
    Within ["E_UNKNOWN_COMMAND"] (runPlugins context {} planned).diagnostics := by
  have hReports : Within ["E_UNKNOWN_COMMAND"] (d.unknownReports ++
      Docgen.notes d (Docgen.render .rendering {} context.settings d).1) :=
    Diagnostics.within_append.mpr ⟨d.under_unknownReports.within,
      (Docgen.within_notes d _).mono (List.forall_mem_nil _)⟩
  simp only [List.mem_cons, List.not_mem_nil, or_false] at hPlanned
  rcases hPlanned with rfl | rfl | rfl
  · exact Diagnostics.within_nil _
  · rw [runPlugins, List.foldl_cons, List.foldl_nil, Docgen.runPlugin_eq hEntry]
    exact hReports
  · rw [IrJson.runPlugins_eq hEntry hHost]
    exact hReports

/-- The paths that the settings of a project list for JSON, or one path named after the entry. -/
def Project.jsonTargets (project : Project) : List Path :=
  let outputs :=
    (BuildRequest.ofSettings project.graph.collectSettings.1).outputsFor "json" "ir-json"
  if outputs.isEmpty then [⟨project.graph.entry.stem ++ ".ir.json"⟩]
  else outputs.map fun output => ⟨output.path⟩

theorem Project.targets_context (project : Project) (host : Host) :
    IrJson.targets (project.context host).settings (project.context host).entry =
      project.jsonTargets := by
  rw [IrJson.targets, jsonTargets]
  split
  · rename_i hNone
    exact (if_pos (List.isEmpty_iff.mpr hNone)).symm
  · rename_i hSome
    exact (if_neg (mt List.isEmpty_iff.mp hSome)).symm

section Build

variable {setup : WalkSetup} {options : BuildOptions} {host : Host} {outcome : BuildOutcome}

/-- All codes under which a build can report anything on a host that takes every file. -/
def buildCodes : List String :=
  walkCodes ++ SymbolTable.problemCodes ++
    ["E_CONFIG_PARSE", "W_PLUGIN_NOT_FOUND", "E_UNKNOWN_COMMAND"]

theorem within_of_buildProject (hHost : host.Accepts)
    (hBuild : buildProject setup options .builtin host = .ok outcome) :
    Within buildCodes outcome.diagnostics := by
  obtain ⟨hGraph, d, symbols, rest, hStaged⟩ := staged_of_buildProject hBuild
  have hSession : Within ["E_UNKNOWN_COMMAND"] outcome.session.diagnostics := by
    rw [session_of_buildProject hBuild, plan_of_buildProject hBuild]
    exact Session.within_runPlugins_of_accepts hStaged.entry hHost (Plan.ordered_builtin_mem _)
  have hClauses := outcome.project.graph.under_clauseReports.within
  simp only [hStaged.diagnostics, Diagnostics.within_append]
  refine ⟨⟨⟨⟨(Graph.reports_of_build hGraph).1.mono ?_, hStaged.symbols.mono ?_⟩,
    hClauses.mono ?_⟩, hStaged.warnings.mono ?_⟩, hSession.mono ?_⟩ <;> decide

/-- Blocks stand in all outputs: `blocks` is the one rendering of the run, every target holds its
text, and there is one artifact for each target. -/
structure BuildOutcome.Delivers (outcome : BuildOutcome) (base : Path) (targets : List Path)
    (d : SourceFile) (blocks : List Block) : Prop where
  rendered : Artifact.allOf outcome.session.artifacts "docgen/ir" =
    [⟨"docgen/ir", .blocks blocks, some d.file⟩]
  held : ∀ earlier, ∀ target ∈ targets,
    Host.held? (earlier ++ outcome.session.writes) (Host.placeIn base target) =
      some (Text.encode (Block.documentForm blocks).indented)
  written : Artifact.allOf outcome.session.artifacts "file/json" = targets.map fun target =>
    ⟨"file/json", .written (Host.placeIn base target)
      (Block.documentForm blocks).indented.utf8ByteSize, some outcome.project.graph.entry⟩

theorem delivers_of_session {base : Path} {d : SourceFile}
    (hEntry : outcome.project.graph.document? outcome.project.graph.entry = some d)
    (hSession : outcome.session = Session.runPlugins (outcome.project.context (.memory base)) {}
      [Docgen.plugin, IrJson.plugin]) :
    outcome.Delivers base outcome.project.jsonTargets d
      (Docgen.render .rendering {} outcome.project.graph.collectSettings.1 d).1 := by
  rw [IrJson.runPlugins_eq hEntry (Host.accepts_memory base), Project.targets_context] at hSession
  constructor
  · rw [hSession, Artifact.allOf, List.filter_append, ← Artifact.allOf, ← Artifact.allOf,
      IrJson.allOf_files, if_neg (by decide), List.append_nil]
    rfl
  · intro earlier target hTarget
    rw [hSession]
    exact IrJson.held?_writes _ _ earlier hTarget
  · rw [hSession, Artifact.allOf, List.filter_append, ← Artifact.allOf, ← Artifact.allOf,
      IrJson.allOf_files, if_pos (by decide)]
    rfl

theorem delivers_of_buildProject {base : Path}
    (hBuild : buildProject setup options .builtin (.memory base) = .ok outcome) :
    (∀ x ∈ outcome.diagnostics, ∀ code ∈ ["E_PLUGIN_CRASH", "E_DOCGEN_ENTRY_NOT_LOADED",
        "W_NO_PROVIDER", "W_PLUGIN_CYCLE"], x.code ≠ some code) ∧
      ("ir-json" ∈ outcome.project.requested options.plugins →
        outcome.plan.names = ["docgen", "ir-json"] ∧
          ∃ d, outcome.project.graph.document? outcome.project.graph.entry = some d ∧
            outcome.Delivers base outcome.project.jsonTargets d
              (Docgen.render .rendering {} outcome.project.graph.collectSettings.1 d).1) := by
  constructor
  · intro x hx code hCode hSame
    have hOther : ∀ code ∈ ["E_PLUGIN_CRASH", "E_DOCGEN_ENTRY_NOT_LOADED", "W_NO_PROVIDER",
        "W_PLUGIN_CYCLE"], code ∉ buildCodes := by
      decide
    exact hOther code hCode
      (within_of_buildProject (Host.accepts_memory base) hBuild x hx code hSame)
  · intro hJson
    obtain ⟨-, d, _, _, hStaged⟩ := staged_of_buildProject hBuild
    have hOrdered : outcome.plan.ordered = [Docgen.plugin, IrJson.plugin] := by
      rw [plan_of_buildProject hBuild, Plan.ordered_of_irJson_requested hJson]
    have hSession := session_of_buildProject hBuild
    rw [hOrdered] at hSession
    refine ⟨?_, d, hStaged.entry, delivers_of_session hStaged.entry hSession⟩
    rw [Plan.names, hOrdered]
    rfl

end Build

theorem delivers_of_buildProject_faulty :
    ∃ outcome, buildProject faultySetup faultyOptions .builtin (.memory ⟨"/out"⟩) = .ok outcome ∧
      outcome.plan.names = ["docgen", "ir-json"] ∧
      ∃ blocks, outcome.Delivers ⟨"/out"⟩ outcome.project.jsonTargets faultyEntry blocks := by
  obtain ⟨outcome, hBuild, hDocument, -⟩ := exists_buildProject_faulty (.memory ⟨"/out"⟩)
  have hJson : "ir-json" ∈ outcome.project.requested faultyOptions.plugins := List.mem_cons_self
  obtain ⟨hNames, d, hEntry, hDelivers⟩ := (delivers_of_buildProject hBuild).2 hJson
  cases hEntry.symm.trans hDocument
  exact ⟨outcome, hBuild, hNames, _, hDelivers⟩

end BraceDoc
