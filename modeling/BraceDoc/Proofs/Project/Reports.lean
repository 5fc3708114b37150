import BraceDoc.Project.Build
import BraceDoc.Proofs.Import.Reports
import BraceDoc.Proofs.Markup.Unclosed
import BraceDoc.Proofs.Plugin.Builtin
import BraceDoc.Proofs.Plugin.Run
import BraceDoc.Proofs.Project.Settings

/-!
# Every problem is reported once

The diagnostics of a build are those of its stages, one behind the other, and each stage has codes
of its own. With the built-in plugins the clauses that cannot be read are reported where the
settings are collected, unclosed constructs where a file is loaded, and unknown commands where the
entry is rendered: each of them once, although the documents are visited by all of the stages.
-/

set_option autoImplicit false

namespace BraceDoc

open Diagnostics (Within Under withCode ofFamily)

/-! ## Stages -/

namespace SymbolTable

def problemCodes : List String :=
  ["E_DEFINE_EMPTY", "E_DEFINE_DUPLICATE"]

theorem within_define {unique : Bool} {file : Path} {table : SymbolTable} {ds : List Diagnostic}
    (hWithin : Within problemCodes ds) (c : Command) :
    Within problemCodes (define unique file (table, ds) c).2 := by
  simp only [define]
  by_cases hEmpty : (Text.trimmed c.argText).isEmpty
  · rw [if_pos hEmpty, Diagnostics.within_append, Diagnostics.within_located]
    exact ⟨hWithin, List.mem_cons_self⟩
  · rw [if_neg hEmpty]
    by_cases hKnown : (unique && table.contains (Text.trimmed c.argText)) = true
    · rw [if_pos hKnown, Diagnostics.within_append, Diagnostics.within_located]
      exact ⟨hWithin, List.mem_cons_of_mem _ List.mem_cons_self⟩
    · rw [if_neg hKnown]
      exact hWithin

theorem within_ofDocuments (unique : Bool) (documents : List SourceFile) :
    Within problemCodes (ofDocuments unique documents).2 := by
  rw [ofDocuments]
  refine List.foldlRecOn (motive := fun (state : SymbolTable × _) => Within problemCodes state.2)
    documents _
    (Diagnostics.within_nil _) ?_
  intro state hState d hd
  refine List.foldlRecOn (motive := fun (state : SymbolTable × _) => Within problemCodes state.2)
    _ _ hState ?_
  intro state hState c hc
  exact within_define hState c

end SymbolTable

theorem Graph.under_clauseReports (g : Graph) :
    Under "E_CONFIG_PARSE" (g.ordered.flatMap SourceFile.clauseReports) := by
  intro x hx
  obtain ⟨d, -, hDocument⟩ := List.mem_flatMap.mp hx
  obtain ⟨node, -, hNode⟩ := List.mem_flatMap.mp hDocument
  obtain ⟨parsed, -, hReport⟩ := List.mem_filterMap.mp hNode
  cases parsed with
  | ok a => cases hReport
  | error e =>
    cases hReport
    rfl

theorem SourceFile.under_unknownReports (d : SourceFile) :
    Under "E_UNKNOWN_COMMAND" d.unknownReports := by
  intro x hx
  obtain ⟨node, -, hReport⟩ := List.mem_filterMap.mp hx
  cases node with
  | text value span => cases hReport
  | literal width content raw span closed => cases hReport
  | command content raw span closed =>
    rw [Registry.unknownReport?] at hReport
    split at hReport
    · cases hReport
    · cases hReport
      rfl

/-- What the built-in plugins report, in the orders in which they can be planned. -/
theorem Session.exists_diagnostics_runPlugins {context : PluginContext} {d : SourceFile}
    (hEntry : context.graph.document? context.entry = some d) {planned : List Plugin}
    (hPlanned : planned ∈ [[], [Docgen.plugin], [Docgen.plugin, IrJson.plugin]]) :
    ∃ rest, Within ["E_PLUGIN_CRASH"] rest ∧
      (runPlugins context {} planned).diagnostics =
        (if "docgen" ∈ planned.map (·.name) then d.unknownReports else []) ++ rest := by
  have hNotes : Within ["E_PLUGIN_CRASH"]
      (Docgen.notes d (Docgen.render .rendering {} context.settings d).1) :=
    (Docgen.within_notes d _).mono (List.forall_mem_nil _)
  have hDocgen : (runPlugin context {} Docgen.plugin).diagnostics = d.unknownReports ++
      Docgen.notes d (Docgen.render .rendering {} context.settings d).1 := by
    rw [Docgen.runPlugin_eq hEntry]
    rfl
  simp only [List.mem_cons, List.not_mem_nil, or_false] at hPlanned
  rcases hPlanned with rfl | rfl | rfl
  · exact ⟨[], Diagnostics.within_nil _, rfl⟩
  · refine ⟨_, hNotes, ?_⟩
    rw [if_pos (by decide)]
    exact hDocgen
  · obtain ⟨crash, hCrash, hRun⟩ := IrJson.exists_diagnostics_runPlugin context
      (runPlugin context {} Docgen.plugin)
    refine ⟨_, Diagnostics.within_append.mpr ⟨hNotes, hCrash⟩, ?_⟩
    rw [if_pos (by decide), ← List.append_assoc, ← hDocgen]
    exact hRun

namespace Project

def requested (project : Project) (plugins : List String) : List String :=
  if plugins.isEmpty then (BuildRequest.ofSettings project.graph.collectSettings.1).plugins
  else plugins

def context (project : Project) (host : Host) : PluginContext where
  entry := project.graph.entry
  graph := project.graph
  symbols := project.symbols
  settings := project.graph.collectSettings.1
  host := host

theorem build_eq (project : Project) (plugins : List String) (catalog : Catalog) (host : Host) :
    let plan := Plan.make (project.requested plugins) catalog.load catalog
    let session := ({} : Session).runPlugins (project.context host) plan.ordered
    project.build plugins catalog host =
      { project
        settings := project.graph.collectSettings.1
        request := .ofSettings project.graph.collectSettings.1
        plan
        session
        diagnostics := project.diagnostics ++ project.graph.collectSettings.2 ++ plan.warnings ++
          session.diagnostics } :=
  rfl

end Project

/-- The diagnostics of an outcome, stage by stage: those of the walk, of the symbol table, of the
settings, of the plan and of the plugins, whose own failures and notes come last. -/
structure BuildOutcome.Staged (outcome : BuildOutcome) (d : SourceFile)
    (walk symbols rest : List Diagnostic) : Prop where
  entry : outcome.project.graph.document? outcome.project.graph.entry = some d
  diagnostics : outcome.diagnostics =
    walk ++ symbols ++ outcome.project.graph.ordered.flatMap SourceFile.clauseReports ++
      outcome.plan.warnings ++ outcome.session.diagnostics
  symbols : Within SymbolTable.problemCodes symbols
  warnings : Within ["W_PLUGIN_NOT_FOUND"] outcome.plan.warnings
  session : outcome.session.diagnostics =
    (if "docgen" ∈ outcome.plan.names then d.unknownReports else []) ++ rest
  rest : Within ["E_PLUGIN_CRASH"] rest

section Build

variable {setup : WalkSetup} {options : BuildOptions} {catalog : Catalog} {host : Host}
  {outcome : BuildOutcome}

theorem exists_buildProject {g : Graph}
    (hGraph : (Graph.build setup options.entry).graph = .ok g) :
    ∃ outcome, buildProject setup options catalog host = .ok outcome ∧
      outcome.project.graph = g := by
  rw [buildProject, Project.load, hGraph]
  exact ⟨_, rfl, rfl⟩

theorem parts_of_buildProject (hBuild : buildProject setup options catalog host = .ok outcome) :
    (Graph.build setup options.entry).graph = .ok outcome.project.graph ∧
      outcome.project.diagnostics = (Graph.build setup options.entry).diagnostics ++
        (SymbolTable.ofDocuments options.uniqueNames outcome.project.graph.documents).2 ∧
      outcome = outcome.project.build options.plugins catalog host := by
  cases hGraph : (Graph.build setup options.entry).graph with
  | error e =>
    rw [buildProject, Project.load, hGraph] at hBuild
    cases hBuild
  | ok g =>
    rw [buildProject, Project.load, hGraph] at hBuild
    cases hBuild
    exact ⟨rfl, rfl, rfl⟩

theorem plan_of_buildProject (hBuild : buildProject setup options catalog host = .ok outcome) :
    outcome.plan =
      Plan.make (outcome.project.requested options.plugins) catalog.load catalog :=
  congrArg BuildOutcome.plan (parts_of_buildProject hBuild).2.2

theorem session_of_buildProject (hBuild : buildProject setup options catalog host = .ok outcome) :
    outcome.session =
      Session.runPlugins (outcome.project.context host) {} outcome.plan.ordered := by
  obtain ⟨-, -, hOutcome⟩ := parts_of_buildProject hBuild
  rw [hOutcome]
  rfl

theorem staged_of_buildProject (hBuild : buildProject setup options .builtin host = .ok outcome) :
    (Graph.build setup options.entry).graph = .ok outcome.project.graph ∧
      ∃ d symbols rest,
        outcome.Staged d (Graph.build setup options.entry).diagnostics symbols rest := by
  obtain ⟨hGraph, hDiagnostics, hOutcome⟩ := parts_of_buildProject hBuild
  refine ⟨hGraph, ?_⟩
  rw [Project.build_eq] at hOutcome
  generalize outcome.project = project at hGraph hDiagnostics hOutcome
  subst hOutcome
  obtain ⟨d, -, hEntry, -⟩ := Graph.exists_ordered_eq hGraph
  have hContext : (project.context host).graph.document? (project.context host).entry = some d :=
    hEntry
  obtain ⟨rest, hRest, hRun⟩ := Session.exists_diagnostics_runPlugins hContext
    (Plan.ordered_builtin_mem (project.requested options.plugins))
  refine ⟨d, _, rest, hEntry, ?_,
    SymbolTable.within_ofDocuments options.uniqueNames project.graph.documents,
    Plan.within_warnings_builtin _, hRun, hRest⟩
  rw [Graph.collectSettings_eq, hDiagnostics]

/-! ## Reports -/

theorem WalkSetup.map_file_unclosedReports (hReader : setup.reader.parse = Reader.standard.parse)
    (d : SourceFile) :
    (setup.unclosedReports d).map (·.file) =
      if Unterminated d.source then [some d.file] else [] := by
  have hLength := length_syntaxErrors d.source
  have hFiles : (setup.unclosedReports d).map (·.file) =
      (syntaxErrors d.source).map fun _ => some d.file := by
    rw [unclosedReports, hReader, List.map_map]
    rfl
  rw [hFiles, List.map_const', hLength]
  split <;> rfl

theorem WalkSetup.map_file_flatMap_unclosedReports
    (hReader : setup.reader.parse = Reader.standard.parse) (documents : List SourceFile) :
    (documents.flatMap setup.unclosedReports).map (·.file) =
      (documents.filter fun d => Unterminated d.source).map fun d => some d.file := by
  induction documents with
  | nil => rfl
  | cons d rest ih =>
    rw [List.flatMap_cons, List.map_append, ih, map_file_unclosedReports hReader, List.filter_cons]
    by_cases hOpen : Unterminated d.source <;> simp [hOpen]

/-- Every problem of the loaded documents has one report: clauses in the order of dependence,
unclosed constructs in the order of loading, unknown commands in the order of the entry. -/
structure BuildOutcome.ReportsOnce (outcome : BuildOutcome) : Prop where
  documents : outcome.project.graph.ordered.Perm outcome.project.graph.documents
  nodup : outcome.project.graph.files.Nodup
  clauses : withCode "E_CONFIG_PARSE" outcome.diagnostics =
    outcome.project.graph.ordered.flatMap SourceFile.clauseReports
  unclosed : (ofFamily "E_UNTERMINATED_" outcome.diagnostics).map (·.file) =
    (outcome.project.graph.documents.filter fun d => Unterminated d.source).map
      fun d => some d.file
  unknown : ∃ d, outcome.project.graph.document? outcome.project.graph.entry = some d ∧
    withCode "E_UNKNOWN_COMMAND" outcome.diagnostics =
      if "docgen" ∈ outcome.plan.names then d.unknownReports else []

theorem BuildOutcome.under_unknown (outcome : BuildOutcome) (d : SourceFile) :
    Under "E_UNKNOWN_COMMAND"
      (if "docgen" ∈ outcome.plan.names then d.unknownReports else []) := by
  split
  · exact d.under_unknownReports
  · exact List.forall_mem_nil _

theorem reportsOnce_of_buildProject (hReader : setup.reader.parse = Reader.standard.parse)
    (hBuild : buildProject setup options .builtin host = .ok outcome) : outcome.ReportsOnce := by
  obtain ⟨hGraph, d, symbols, rest, hStaged⟩ := staged_of_buildProject hBuild
  obtain ⟨hWalk, hUnclosed⟩ := Graph.reports_of_build hGraph
  have hNodup := Graph.nodup_files_of_build hGraph
  have hClauses := outcome.project.graph.under_clauseReports
  have hUnknown := outcome.under_unknown d
  -- each part comes from one stage; no other stage has a code that counts there
  refine ⟨Graph.perm_ordered hNodup, hNodup, ?_, ?_, d, hStaged.entry, ?_⟩
  · simp only [hStaged.diagnostics, hStaged.session, Diagnostics.withCode_append,
      hClauses.withCode_eq]
    rw [hWalk.withCode_eq_nil (by decide), hStaged.symbols.withCode_eq_nil (by decide),
      hStaged.warnings.withCode_eq_nil (by decide), hUnknown.within.withCode_eq_nil (by decide),
      hStaged.rest.withCode_eq_nil (by decide)]
    simp only [List.nil_append, List.append_nil]
  · have hFamily : ofFamily "E_UNTERMINATED_" outcome.diagnostics =
        ofFamily unclosedFamily (Graph.build setup options.entry).diagnostics := by
      simp only [hStaged.diagnostics, hStaged.session, Diagnostics.ofFamily_append]
      rw [hStaged.symbols.ofFamily_eq_nil (by decide), hClauses.within.ofFamily_eq_nil (by decide),
        hStaged.warnings.ofFamily_eq_nil (by decide), hUnknown.within.ofFamily_eq_nil (by decide),
        hStaged.rest.ofFamily_eq_nil (by decide)]
      simp only [List.append_nil]
      rfl
    rw [hFamily, hUnclosed, WalkSetup.map_file_flatMap_unclosedReports hReader]
  · simp only [hStaged.diagnostics, hStaged.session, Diagnostics.withCode_append,
      hUnknown.withCode_eq]
    rw [hWalk.withCode_eq_nil (by decide), hStaged.symbols.withCode_eq_nil (by decide),
      hClauses.within.withCode_eq_nil (by decide), hStaged.warnings.withCode_eq_nil (by decide),
      hStaged.rest.withCode_eq_nil (by decide)]
    simp only [List.nil_append, List.append_nil]

end Build

def faultyText : String :=
  "\x7bimport: b\x7d\x7bconfig: a = 1, =\x7d\x7bnope: x\x7d\x7bcode"

/-- A file with a bad clause, an unknown command and an unclosed one, and an import that has a bad
clause. -/
def faultySetup : WalkSetup where
  system := FileTree.system
    { files := [(⟨"/p/a.sh1"⟩, faultyText), (⟨"/p/b.sh1"⟩, "\x7bconfig: b\x7d")] }

def faultyOptions : BuildOptions where
  entry := ⟨"/p/a.sh1"⟩
  plugins := ["ir-json", "none", "ir-json"]

def faultyEntry : SourceFile :=
  faultySetup.loaded ⟨"/p/a.sh1"⟩ faultyText

def faultyImport : SourceFile :=
  faultySetup.loaded ⟨"/p/b.sh1"⟩ "\x7bconfig: b\x7d"

theorem exists_build_faulty :
    ∃ g, (Graph.build faultySetup ⟨"/p/a.sh1"⟩).graph = .ok g ∧
      g.document? g.entry = some faultyEntry ∧ g.documents.Perm [faultyEntry, faultyImport] := by
  have hEntry : faultySetup.entryFile ⟨"/p/a.sh1"⟩ = ⟨"/p/a.sh1"⟩ := by decide +kernel
  have hStored : faultySetup.entryFile ⟨"/p/a.sh1"⟩ ∈ faultySetup.system.stored := by
    decide +kernel
  have hReadEntry : faultySetup.system.read (faultySetup.entryFile ⟨"/p/a.sh1"⟩) =
      .ok faultyText := by
    decide +kernel
  have hReadImport : faultySetup.system.read ⟨"/p/b.sh1"⟩ = .ok "\x7bconfig: b\x7d" := by
    decide +kernel
  obtain ⟨g, hGraph⟩ : ∃ g, (Graph.build faultySetup ⟨"/p/a.sh1"⟩).graph = .ok g :=
    Graph.exists_build_tolerate hStored hReadEntry
  have hDocument := Graph.document?_entry hGraph hReadEntry
  have hLoadedEntry := Graph.entry_mem_documents hGraph hReadEntry
  rw [hEntry] at hDocument hReadEntry hLoadedEntry
  have hLoadedImport : faultyImport ∈ g.documents := by
    have hTargets : (faultySetup.importEdges faultyEntry).map Edge.target = [⟨"/p/b.sh1"⟩] := by
      decide +kernel
    have hMem : ⟨"/p/b.sh1"⟩ ∈ (faultySetup.importEdges faultyEntry).map Edge.target := by
      rw [hTargets]
      exact List.mem_cons_self
    obtain ⟨e, he, hTarget⟩ := List.mem_map.mp hMem
    refine Graph.loaded_mem_documents hGraph ?_ hReadImport
    rw [← hTarget] at hReadImport ⊢
    refine Graph.target_mem_files hGraph (Graph.import_mem_edges rfl hGraph hLoadedEntry he) ?_
      hReadImport
    rw [hTarget]
    decide +kernel
  refine ⟨g, hGraph, hDocument, ?_⟩
  have hNodup : g.documents.Nodup := (Graph.nodup_files_of_build hGraph).of_map _
  have hApart : [faultyEntry, faultyImport].Nodup := by
    apply List.Nodup.of_map SourceFile.file
    decide
  rw [List.perm_ext_iff_of_nodup hNodup hApart]
  intro d
  constructor
  · intro hd
    obtain ⟨source, hLoaded, hFile, hRead⟩ := Graph.loaded_of_build hGraph hd
    have hFiles : ∀ file ∈ faultySetup.system.stored,
        file = ⟨"/p/a.sh1"⟩ ∨ file = ⟨"/p/b.sh1"⟩ := by
      decide
    rw [hLoaded]
    rcases hFiles d.file hFile with hSame | hSame
    · rw [hSame] at hRead ⊢
      cases hRead.symm.trans hReadEntry
      exact List.mem_cons_self
    · rw [hSame] at hRead ⊢
      cases hRead.symm.trans hReadImport
      exact List.mem_cons_of_mem _ List.mem_cons_self
  · intro hd
    rcases List.mem_cons.mp hd with rfl | hd
    · exact hLoadedEntry
    · rw [List.mem_singleton.mp hd]
      exact hLoadedImport

theorem exists_buildProject_faulty (host : Host) :
    ∃ outcome, buildProject faultySetup faultyOptions .builtin host = .ok outcome ∧
      outcome.project.graph.document? outcome.project.graph.entry = some faultyEntry ∧
      outcome.project.graph.documents.Perm [faultyEntry, faultyImport] := by
  obtain ⟨g, hGraph, hDocuments⟩ := exists_build_faulty
  obtain ⟨outcome, hBuild, rfl⟩ : ∃ outcome, buildProject faultySetup faultyOptions .builtin host =
      .ok outcome ∧ outcome.project.graph = g :=
    exists_buildProject hGraph
  exact ⟨outcome, hBuild, hDocuments⟩

theorem reportsOnce_of_buildProject_faulty :
    ∃ outcome, buildProject faultySetup faultyOptions .builtin (.recording (some "full")) =
        .ok outcome ∧ outcome.ReportsOnce ∧
      ((withCode "E_CONFIG_PARSE" outcome.diagnostics).map (·.file)).Perm
        [some ⟨"/p/a.sh1"⟩, some ⟨"/p/b.sh1"⟩] ∧
      (ofFamily "E_UNTERMINATED_" outcome.diagnostics).map (·.file) = [some ⟨"/p/a.sh1"⟩] ∧
      (withCode "E_UNKNOWN_COMMAND" outcome.diagnostics).map (·.file) = [some ⟨"/p/a.sh1"⟩] := by
  obtain ⟨outcome, hBuild, hDocument, hDocuments⟩ :=
    exists_buildProject_faulty (.recording (some "full"))
  have hOnce : outcome.ReportsOnce := reportsOnce_of_buildProject rfl hBuild
  refine ⟨outcome, hBuild, hOnce, ?_, ?_, ?_⟩
  · have hClauses : ([faultyEntry, faultyImport].flatMap SourceFile.clauseReports).map (·.file) =
        [some ⟨"/p/a.sh1"⟩, some ⟨"/p/b.sh1"⟩] := by
      decide +kernel
    rw [hOnce.clauses, ← hClauses]
    exact ((hOnce.documents.trans hDocuments).flatMap_right _).map _
  · have hOpen : ([faultyEntry, faultyImport].filter fun d => Unterminated d.source).map
        (fun d => some d.file) = [some ⟨"/p/a.sh1"⟩] := by
      decide +kernel
    rw [hOnce.unclosed, ← List.perm_singleton, ← hOpen]
    exact (hDocuments.filter _).map _
  · obtain ⟨d, hEntry, hUnknown⟩ := hOnce.unknown
    cases hEntry.symm.trans hDocument
    have hJson : "ir-json" ∈ outcome.project.requested faultyOptions.plugins := List.mem_cons_self
    have hDocgen : "docgen" ∈ outcome.plan.names := by
      rw [plan_of_buildProject hBuild, Plan.names, Plan.ordered_of_irJson_requested hJson]
      decide
    rw [hUnknown, if_pos hDocgen]
    decide +kernel

end BraceDoc
