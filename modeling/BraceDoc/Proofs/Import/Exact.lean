import BraceDoc.Proofs.Import.Outcome

/-!
# What a project graph holds

A graph that was built holds the files that the entry leads to, each with its stored text. The edges
of a file are those to its companions, in the order of paths, and behind them those of its imports,
in the order of the text; imports that lead nowhere are reported instead. A target that is not among
the documents has been reported once.
-/

set_option autoImplicit false

namespace BraceDoc

/-- A file system over a tree: what can be read is what the tree stores. Reading may fail anywhere,
and nothing is asked of listings. -/
structure FileSystem.OverTree (fs : FileSystem) (t : FileTree) : Prop where
  resolve : fs.resolve = Path.resolve
  read : ∀ path, fs.read path = t.system.read path ∨ ∃ reason, fs.read path = .error reason

theorem FileTree.overTree_withFaults (t : FileTree) (faults : Faults) :
    (t.system.withFaults faults).OverTree t := by
  refine ⟨rfl, ?_⟩
  intro path
  simp only [FileSystem.withFaults]
  split
  · rename_i reason hFault
    exact Or.inr ⟨reason, rfl⟩
  · exact Or.inl rfl

theorem FileSystem.OverTree.get?_eq_some {fs : FileSystem} {t : FileTree} {file : Path}
    {source : String} (hOver : fs.OverTree t) (hNormal : file.IsNormal)
    (hRead : fs.read file = .ok source) : t.get? file = some source := by
  have hTree : t.system.read file = .ok source := by
    rcases hOver.read file with hSame | ⟨reason, hFault⟩
    · rw [← hSame, hRead]
    · cases hRead.symm.trans hFault
  simp only [FileTree.system, FileTree.read, hNormal.normalize_eq] at hTree
  split at hTree
  · rename_i text hText
    cases hTree
    exact hText
  · cases hTree

namespace WalkSetup

def companionEdges (file : Path) (companions : List Path) : List Edge :=
  companions.map fun target => ⟨file, target, companionMark, none⟩

/-- The edges of the imports of a document that lead to a file. -/
def importEdges (setup : WalkSetup) (d : SourceFile) : List Edge :=
  (d.commands.filter fun command => command.name == "import").filterMap fun command =>
    (setup.resolver.file? setup.system d.file command.argText).map fun path =>
      ⟨d.file, path.normalize, command.argText, command.span⟩

/-- The reports of the imports of a document that lead nowhere. -/
def importReports (setup : WalkSetup) (d : SourceFile) : List Diagnostic :=
  ((d.commands.filter fun command => command.name == "import").filter fun command =>
    (setup.resolver.file? setup.system d.file command.argText).isNone).map fun command =>
      (Problem.importNotFound command.argText).located (some d.file) command.span

theorem edges_companionTasks (setup : WalkSetup) (file : Path) (companions : List Path) :
    (companions.map (Task.companion file)).filterMap (Task.edge? setup) =
      companionEdges file companions := by
  rw [List.filterMap_map, companionEdges, ← List.filterMap_eq_map]
  rfl

theorem reports_companionTasks (setup : WalkSetup) (file : Path) (companions : List Path) :
    (companions.map (Task.companion file)).filterMap (Task.problem? setup) = [] := by
  rw [List.filterMap_map, List.filterMap_eq_nil_iff]
  intro target _
  rfl

theorem edges_importTasks (setup : WalkSetup) (d : SourceFile) :
    (Walk.importTasks d).filterMap (Task.edge? setup) = setup.importEdges d := by
  rw [Walk.importTasks, List.filterMap_map]
  rfl

theorem reports_importTasks (setup : WalkSetup) (d : SourceFile) :
    (Walk.importTasks d).filterMap (Task.problem? setup) = setup.importReports d := by
  rw [Walk.importTasks, SourceFile.commandsNamed, importReports, List.filterMap_map]
  induction d.commands.filter fun command => command.name == "import" with
  | nil => rfl
  | cons command rest ih =>
    cases hFile : setup.resolver.file? setup.system d.file command.argText with
    | none =>
      rw [List.filterMap_cons_some (by simp only [Function.comp, Task.problem?, hFile]; rfl), ih,
        List.filter_cons_of_pos (by simp only [hFile, Option.isNone_none]), List.map_cons]
    | some path =>
      rw [List.filterMap_cons_none (by simp only [Function.comp, Task.problem?, hFile]), ih,
        List.filter_cons_of_neg (by simp only [hFile, Option.isNone_some, Bool.false_eq_true,
          not_false_eq_true])]

theorem exists_edges_tasksOf {setup : WalkSetup} {d : SourceFile}
    (hResolve : setup.system.resolve = Path.resolve) (hNormal : d.file.IsNormal) :
    ∃ companions, setup.CompanionsOf d.file companions ∧
      (setup.tasksOf d).filterMap (Task.edge? setup) =
        companionEdges d.file companions ++ setup.importEdges d := by
  obtain ⟨companions, hCompanions, hTasks⟩ := exists_companions hResolve hNormal
  refine ⟨companions, hCompanions, ?_⟩
  rw [tasksOf, hTasks, List.filterMap_append, edges_companionTasks, edges_importTasks]

theorem reports_tasksOf {setup : WalkSetup} {d : SourceFile}
    (hResolve : setup.system.resolve = Path.resolve) (hNormal : d.file.IsNormal) :
    (setup.tasksOf d).filterMap (Task.problem? setup) = setup.importReports d := by
  obtain ⟨companions, -, hTasks⟩ := exists_companions hResolve hNormal
  rw [tasksOf, hTasks, List.filterMap_append, reports_companionTasks, reports_importTasks,
    List.nil_append]

end WalkSetup

namespace Graph

section Edges

variable {setup : WalkSetup} {entry : Path} {g : Graph}

theorem edges_of_build (hResolve : setup.system.resolve = Path.resolve)
    (hBuild : (build setup entry).graph = .ok g) {d : SourceFile} (hd : d ∈ g.documents) :
    ∃ companions, setup.CompanionsOf d.file companions ∧
      g.edgesFrom d.file = WalkSetup.companionEdges d.file companions ++ setup.importEdges d := by
  obtain ⟨hNone, -, -, hDocuments, hEdges, -⟩ := outcome_of_build hBuild
  obtain ⟨hCourse, hEnd⟩ := setup.course_outcome entry
  rw [hDocuments] at hd
  have hPart := hCourse.account.edges.part d hd
  rw [Walk.plannedEdges, hEnd hNone, List.filterMap_nil, List.append_nil, ← hEdges] at hPart
  obtain ⟨companions, hCompanions, hTasks⟩ := WalkSetup.exists_edges_tasksOf hResolve
    (hCourse.account.normal d.file (List.mem_map_of_mem hd))
  exact ⟨companions, hCompanions, hPart.trans hTasks⟩

theorem source_of_build (hBuild : (build setup entry).graph = .ok g) {e : Edge} (he : e ∈ g.edges) :
    ∃ d ∈ g.documents, e.source = d.file := by
  obtain ⟨-, -, -, hDocuments, hEdges, -⟩ := outcome_of_build hBuild
  obtain ⟨hCourse, -⟩ := setup.course_outcome entry
  rw [hEdges] at he
  rw [hDocuments]
  obtain ⟨d, hd, hSource⟩ := hCourse.account.edges.owned e (List.mem_append_left _ he)
  exact ⟨d, hd, Option.some.inj hSource⟩

/-- An edge leads to a listed companion of a document, or it is that of an import. -/
theorem edge_cases (hResolve : setup.system.resolve = Path.resolve)
    (hBuild : (build setup entry).graph = .ok g) {e : Edge} (he : e ∈ g.edges) :
    ∃ d ∈ g.documents, e.source = d.file ∧
      ((∃ name ∈ setup.namesBeside e.source, e.source.CompanionName name ∧
        e = ⟨e.source, e.source.dirname.resolve ⟨name⟩, companionMark, none⟩) ∨
      e ∈ setup.importEdges d) := by
  obtain ⟨d, hd, hSource⟩ := source_of_build hBuild he
  refine ⟨d, hd, hSource, ?_⟩
  obtain ⟨companions, hCompanions, hEdges⟩ := edges_of_build hResolve hBuild hd
  have hFrom : e ∈ g.edgesFrom d.file := List.mem_filter.mpr ⟨he, beq_iff_eq.mpr hSource⟩
  rw [hEdges, ← hSource] at hFrom
  rw [← hSource] at hCompanions
  refine (List.mem_append.mp hFrom).imp_left fun hCompanion => ?_
  obtain ⟨target, hTarget, hEdge⟩ := List.mem_map.mp hCompanion
  obtain ⟨name, hListed, rfl⟩ :=
    List.mem_map.mp (List.mem_of_mem_filter (hCompanions.others.mem_iff.mp hTarget))
  obtain ⟨hName, hForm⟩ := List.mem_filter.mp hListed
  exact ⟨name, hName, of_decide_eq_true hForm, hEdge.symm⟩

/-- Whatever is listed under the name of a companion is linked. -/
theorem companion_mem_edges (hResolve : setup.system.resolve = Path.resolve)
    (hBuild : (build setup entry).graph = .ok g) {d : SourceFile} (hd : d ∈ g.documents)
    {name : String} (hListed : name ∈ setup.namesBeside d.file)
    (hName : d.file.CompanionName name) (hOther : d.file.dirname.resolve ⟨name⟩ ≠ d.file) :
    ⟨d.file, d.file.dirname.resolve ⟨name⟩, companionMark, none⟩ ∈ g.edges := by
  obtain ⟨companions, hCompanions, hEdges⟩ := edges_of_build hResolve hBuild hd
  have hTarget : d.file.dirname.resolve ⟨name⟩ ∈ companions := by
    refine hCompanions.others.mem_iff.mpr (List.mem_filter.mpr ⟨?_, decide_eq_true hOther⟩)
    exact List.mem_map.mpr ⟨name, List.mem_filter.mpr ⟨hListed, decide_eq_true hName⟩, rfl⟩
  have hFrom :
      ⟨d.file, d.file.dirname.resolve ⟨name⟩, companionMark, none⟩ ∈ g.edgesFrom d.file := by
    rw [hEdges]
    exact List.mem_append_left _ (List.mem_map.mpr ⟨_, hTarget, rfl⟩)
  exact List.mem_of_mem_filter hFrom

theorem import_mem_edges (hResolve : setup.system.resolve = Path.resolve)
    (hBuild : (build setup entry).graph = .ok g) {d : SourceFile} (hd : d ∈ g.documents) {e : Edge}
    (he : e ∈ setup.importEdges d) : e ∈ g.edges := by
  obtain ⟨companions, -, hEdges⟩ := edges_of_build hResolve hBuild hd
  have hFrom : e ∈ g.edgesFrom d.file := by
    rw [hEdges]
    exact List.mem_append_right _ he
  exact List.mem_of_mem_filter hFrom

theorem loaded_mem_documents (hBuild : (build setup entry).graph = .ok g) {file : Path}
    {source : String} (hFile : file ∈ g.files) (hRead : setup.system.read file = .ok source) :
    setup.loaded file source ∈ g.documents := by
  obtain ⟨d, hd, rfl⟩ := List.mem_map.mp hFile
  obtain ⟨text, hLoaded, -, hText⟩ := loaded_of_build hBuild hd
  cases hText.symm.trans hRead
  exact hLoaded ▸ hd

theorem entry_mem_documents (hBuild : (build setup entry).graph = .ok g) {source : String}
    (hRead : setup.system.read (setup.entryFile entry) = .ok source) :
    setup.loaded (setup.entryFile entry) source ∈ g.documents := by
  obtain ⟨-, hFile, hEntry, hDocuments, -, -⟩ := outcome_of_build hBuild
  rw [hFile, Walk.files, ← hDocuments] at hEntry
  exact loaded_mem_documents hBuild hEntry hRead

theorem target_mem_files (hBuild : (build setup entry).graph = .ok g) {e : Edge} (he : e ∈ g.edges)
    {source : String} (hStored : e.target ∈ setup.system.stored)
    (hRead : setup.system.read e.target = .ok source) : e.target ∈ g.files := by
  obtain ⟨-, -, -, hDocuments, hEdges, -⟩ := outcome_of_build hBuild
  rw [files, hDocuments]
  exact (setup.course_outcome entry).1.target_loaded (hEdges ▸ he) hStored hRead

end Edges

/-- A graph and its diagnostics say all there is to say about the project of an entry file. -/
structure Exact (setup : WalkSetup) (t : FileTree) (entry : Path) (g : Graph)
    (ds : List Diagnostic) : Prop where
  entry_eq : g.entry = setup.entryFile entry
  entry_loaded : g.entry ∈ g.files
  document? : ∀ d ∈ g.documents, g.document? d.file = some d
  loaded : ∀ d ∈ g.documents, t.get? d.file = some d.source ∧ d = setup.loaded d.file d.source
  files_normal : ∀ file ∈ g.files, file.IsNormal
  edges_normal : ∀ e ∈ g.edges, e.source.IsNormal ∧ e.target.IsNormal
  sources : ∀ e ∈ g.edges, e.source ∈ g.files
  edges : ∀ d ∈ g.documents, ∃ companions, setup.CompanionsOf d.file companions ∧
    (setup.system.list d.file.dirname = t.system.list d.file.dirname →
      companions.Perm (d.file.companionPaths (setup.namesBeside d.file))) ∧
    g.edgesFrom d.file = WalkSetup.companionEdges d.file companions ++ setup.importEdges d
  reports : ∀ d ∈ g.documents,
    ((Diagnostics.withCode "E_IMPORT_NOT_FOUND" ds).filter fun x => x.file == some d.file) =
      setup.importReports d
  /-- A document has no failure report, and any other target has exactly one. -/
  failures : ∀ e ∈ g.edges,
    ds.countP (Diagnostic.isFailure e.target) = if e.target ∈ g.files then 0 else 1
  reached : ∀ file ∈ g.files, Relation.ReflTransGen (Edge.Links g.edges) g.entry file

theorem document?_of_nodup {g : Graph} {d : SourceFile} (hNodup : g.files.Nodup)
    (hd : d ∈ g.documents) : g.document? d.file = some d := by
  obtain ⟨before, after, hDocuments⟩ := List.append_of_mem hd
  rw [files, hDocuments, List.map_append, List.nodup_append] at hNodup
  rw [document?, hDocuments, List.find?_append, List.find?_eq_none.mpr, Option.none_or,
    List.find?_cons_of_pos]
  · exact beq_self_eq_true d.file
  · intro x hx hFile
    exact hNodup.2.2 x.file (List.mem_map_of_mem hx) d.file List.mem_cons_self (beq_iff_eq.mp hFile)

theorem countP_isFailure_of_course {setup : WalkSetup} {entry : Path} {w : Walk} {e : Edge}
    (hCourse : Walk.Course setup entry w) (he : e ∈ w.edges) :
    w.diagnostics.countP (Diagnostic.isFailure e.target) =
      if e.target ∈ w.files then 0 else 1 := by
  rw [hCourse.tries.failures]
  rcases (Walk.isTried_iff w e.target).mp (hCourse.targets e he) with hLoaded | hFailed
  · have hOther : e.target ∉ w.failed := fun hFailed => hCourse.tries.apart _ hFailed hLoaded
    rw [if_pos hLoaded, if_neg hOther]
  · rw [if_pos hFailed, if_neg (hCourse.tries.apart _ hFailed)]

theorem exact_of_build {setup : WalkSetup} {t : FileTree} {entry : Path} {g : Graph}
    (hOver : setup.system.OverTree t) (hBuild : (build setup entry).graph = .ok g) :
    g.Exact setup t entry (build setup entry).diagnostics := by
  obtain ⟨hNone, hEntry, hLoaded, hDocuments, hEdges, hDiagnostics⟩ := outcome_of_build hBuild
  obtain ⟨hCourse, hEnd⟩ := setup.course_outcome entry
  rw [hDiagnostics]
  generalize (setup.outcome entry).1 = w at *
  have hAgenda : w.agenda = [] := hEnd hNone
  have hFiles : g.files = w.files := by
    rw [files, Walk.files, hDocuments]
  -- With nothing on the agenda, what was planned is what was done.
  have hPlanned : w.plannedEdges setup = w.edges := by
    rw [Walk.plannedEdges, hAgenda, List.filterMap_nil, List.append_nil]
  have hReports : w.plannedReports setup =
      Diagnostics.withCode "E_IMPORT_NOT_FOUND" w.diagnostics := by
    rw [Walk.plannedReports, hAgenda, List.filterMap_nil, List.append_nil]
  have hAccount := hCourse.account
  have hNormal : ∀ d ∈ w.documents, d.file.IsNormal := fun d hd =>
    hAccount.normal d.file (List.mem_map_of_mem hd)
  have hSources : ∀ e ∈ w.edges, e.source ∈ w.files := fun e he =>
    hAccount.source_mem (hPlanned ▸ he)
  constructor
  case entry_eq => exact hEntry
  case entry_loaded =>
    rw [hFiles]
    exact hLoaded
  case document? =>
    intro d hd
    exact document?_of_nodup (hFiles ▸ hAccount.nodup) hd
  case loaded =>
    intro d hd
    rw [hDocuments] at hd
    obtain ⟨source, hSame, -, hRead⟩ := hAccount.loaded d hd
    have hSource : d.source = source := by
      rw [hSame]
      rfl
    rw [hSource]
    exact ⟨hOver.get?_eq_some (hNormal d hd) hRead, hSame⟩
  case files_normal =>
    rw [hFiles]
    exact hAccount.normal
  case edges_normal =>
    intro e he
    rw [hEdges] at he
    exact ⟨hAccount.normal _ (hSources e he), hAccount.targets e (hPlanned ▸ he)⟩
  case sources =>
    rw [hFiles, hEdges]
    exact hSources
  case edges =>
    intro d hd
    obtain ⟨companions, hCompanions, hFrom⟩ := edges_of_build hOver.resolve hBuild hd
    exact ⟨companions, hCompanions, hCompanions.perm_of_list, hFrom⟩
  case reports =>
    intro d hd
    rw [hDocuments] at hd
    have hPart := hAccount.reports.part d hd
    rw [hReports, WalkSetup.reports_tasksOf hOver.resolve (hNormal d hd)] at hPart
    exact hPart
  case failures =>
    intro e he
    rw [hEdges] at he
    rw [hFiles]
    exact countP_isFailure_of_course hCourse he
  case reached =>
    rw [hFiles, hEdges, hEntry]
    exact hCourse.reached

/-- A file with an import that leads nowhere, an import of a file that imports it back, and a
companion that cannot be read. -/
def brokenTree : FileTree where
  files := [(⟨"/p/a.sh1"⟩, "\x7bimport: gone\x7d\x7bimport: b\x7d"), (⟨"/p/a.x.sh1"⟩, "text"),
    (⟨"/p/b.sh1"⟩, "\x7bimport: a\x7d")]

def brokenSetup : WalkSetup where
  system := brokenTree.system.withFaults { read := [("/p/a.x.sh1", "denied")] }

theorem companionPaths_broken : Path.companionPaths ⟨"/p/a.sh1"⟩
    (brokenSetup.namesBeside ⟨"/p/a.sh1"⟩) = [⟨"/p/a.x.sh1"⟩] := by
  have hDirectory : Path.dirname ⟨"/p/a.sh1"⟩ = ⟨"/p"⟩ := by decide
  have hFound : (brokenTree.paths.filterMap fun file =>
      (FileTree.below? ⟨"/p"⟩ file).bind fun rest => rest.head?.map Path.Part.text) =
        ["a.sh1", "a.x.sh1", "b.sh1"] := by
    decide +kernel
  have hNames : brokenTree.namesBelow ⟨"/p"⟩ = ["a.sh1", "a.x.sh1", "b.sh1"] := by
    rw [FileTree.namesBelow, hFound, FileTree.sortedNames,
      List.mergeSort_of_pairwise (by decide +kernel)]
    decide +kernel
  have hSystem : brokenSetup.system.list ⟨"/p"⟩ = .ok ["a.sh1", "a.x.sh1", "b.sh1"] := by
    rw [← hNames]
    rfl
  rw [WalkSetup.namesBeside, hDirectory, hSystem]
  decide +kernel

theorem exact_of_build_broken :
    ∃ g, (build brokenSetup ⟨"/p/./a.sh1"⟩).graph = .ok g ∧
      (g.edgesFrom ⟨"/p/a.sh1"⟩).map Edge.target = [⟨"/p/a.x.sh1"⟩, ⟨"/p/b.sh1"⟩] ∧
      ⟨"/p/a.x.sh1"⟩ ∉ g.files ∧ ⟨"/p/b.sh1"⟩ ∈ g.files ∧
      g.Exact brokenSetup brokenTree ⟨"/p/./a.sh1"⟩
        (build brokenSetup ⟨"/p/./a.sh1"⟩).diagnostics := by
  have hEntry : brokenSetup.entryFile ⟨"/p/./a.sh1"⟩ = ⟨"/p/a.sh1"⟩ := by decide +kernel
  have hRead : brokenSetup.system.read (brokenSetup.entryFile ⟨"/p/./a.sh1"⟩) =
      .ok "\x7bimport: gone\x7d\x7bimport: b\x7d" := by
    decide +kernel
  have hStored : brokenSetup.entryFile ⟨"/p/./a.sh1"⟩ ∈ brokenSetup.system.stored := by
    decide +kernel
  obtain ⟨g, hBuild⟩ : ∃ g, (build brokenSetup ⟨"/p/./a.sh1"⟩).graph = .ok g :=
    exists_build_tolerate hStored hRead
  have hExact := exact_of_build (brokenTree.overTree_withFaults _) hBuild
  have hDocument := entry_mem_documents hBuild hRead
  rw [hEntry] at hDocument
  have hTargets : (g.edgesFrom ⟨"/p/a.sh1"⟩).map Edge.target = [⟨"/p/a.x.sh1"⟩, ⟨"/p/b.sh1"⟩] := by
    obtain ⟨companions, -, hPerm, hEdges⟩ := hExact.edges _ hDocument
    have hCompanions : companions = [⟨"/p/a.x.sh1"⟩] :=
      List.perm_singleton.mp (companionPaths_broken ▸ hPerm rfl)
    have hImports : (brokenSetup.importEdges (brokenSetup.loaded ⟨"/p/a.sh1"⟩
        "\x7bimport: gone\x7d\x7bimport: b\x7d")).map Edge.target = [⟨"/p/b.sh1"⟩] := by
      decide +kernel
    change g.edgesFrom ⟨"/p/a.sh1"⟩ = _ at hEdges
    rw [hEdges, hCompanions, List.map_append, hImports]
    rfl
  refine ⟨g, hBuild, hTargets, ?_, ?_, hExact⟩
  · intro hFile
    obtain ⟨d, hd, hSame⟩ := List.mem_map.mp hFile
    obtain ⟨source, -, -, hText⟩ := loaded_of_build hBuild hd
    rw [hSame] at hText
    have hDenied : brokenSetup.system.read ⟨"/p/a.x.sh1"⟩ = .error "denied" := by decide +kernel
    cases hDenied.symm.trans hText
  · have hMem : ⟨"/p/b.sh1"⟩ ∈ (g.edgesFrom ⟨"/p/a.sh1"⟩).map Edge.target := by
      rw [hTargets]
      decide
    obtain ⟨e, he, hSame⟩ := List.mem_map.mp hMem
    have hText : brokenSetup.system.read ⟨"/p/b.sh1"⟩ = .ok "\x7bimport: a\x7d" := by decide +kernel
    rw [← hSame] at hText ⊢
    refine target_mem_files hBuild (List.mem_of_mem_filter he) ?_ hText
    rw [hSame]
    decide +kernel

end Graph

end BraceDoc
