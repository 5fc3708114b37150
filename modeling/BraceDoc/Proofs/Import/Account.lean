import BraceDoc.Proofs.Import.Step
import BraceDoc.Proofs.Import.Companion

/-!
# The account of a walk

A task on the agenda stands for the edge or the report that it will add. Counting these as present,
the edges and the reports of a loaded file are complete as soon as it is loaded, and tasks only move
them from the agenda into the walk. At the end nothing is left on the agenda.
-/

set_option autoImplicit false

namespace BraceDoc

/-- The items that belong to a document are just those that it gives, in their order. -/
structure Shared {α : Type} (owner : α → Option Path) (gives : SourceFile → List α)
    (documents : List SourceFile) (items : List α) : Prop where
  part : ∀ d ∈ documents, (items.filter fun x => owner x == some d.file) = gives d
  owned : ∀ x ∈ items, ∃ d ∈ documents, owner x = some d.file

theorem Shared.insert {α : Type} {owner : α → Option Path} {gives : SourceFile → List α}
    {documents : List SourceFile} {before after : List α} {new : SourceFile}
    (hShared : Shared owner gives documents (before ++ after))
    (hNew : new.file ∉ documents.map (·.file)) (hGives : ∀ x ∈ gives new, owner x = some new.file) :
    Shared owner gives (documents ++ [new]) (before ++ (gives new ++ after)) := by
  have hApart : ∀ d ∈ documents, d.file ≠ new.file := by
    intro d hd hFile
    exact hNew (List.mem_map.mpr ⟨d, hd, hFile⟩)
  constructor
  · intro d hd
    rw [List.filter_append, List.filter_append]
    rcases List.mem_append.mp hd with hd | hd
    · have hNone : ((gives new).filter fun x => owner x == some d.file) = [] := by
        rw [List.filter_eq_nil_iff]
        intro x hx hOwner
        rw [hGives x hx, beq_iff_eq] at hOwner
        exact hApart d hd (Option.some.inj hOwner).symm
      rw [hNone, List.nil_append, ← List.filter_append]
      exact hShared.part d hd
    · rw [List.mem_singleton.mp hd]
      have hOld : ((before ++ after).filter fun x => owner x == some new.file) = [] := by
        rw [List.filter_eq_nil_iff]
        intro x hx hOwner
        obtain ⟨d, hd, hSome⟩ := hShared.owned x hx
        rw [hSome, beq_iff_eq] at hOwner
        exact hApart d hd (Option.some.inj hOwner)
      have hAll : ((gives new).filter fun x => owner x == some new.file) = gives new := by
        rw [List.filter_eq_self]
        intro x hx
        rw [hGives x hx, beq_iff_eq]
      rw [List.filter_append, List.append_eq_nil_iff] at hOld
      rw [hOld.1, hOld.2, hAll, List.nil_append, List.append_nil]
  · intro x hx
    rw [List.mem_append, List.mem_append] at hx
    have hOld : x ∈ before ++ after → ∃ d ∈ documents ++ [new], owner x = some d.file := by
      intro hMem
      obtain ⟨d, hd, hOwner⟩ := hShared.owned x hMem
      exact ⟨d, List.mem_append_left _ hd, hOwner⟩
    rcases hx with hx | hx | hx
    · exact hOld (List.mem_append_left _ hx)
    · exact ⟨new, List.mem_append_right _ List.mem_cons_self, hGives x hx⟩
    · exact hOld (List.mem_append_right _ hx)

def WalkSetup.remarks (setup : WalkSetup) (file : Path) (source : String) : List Diagnostic :=
  (setup.reader.parse source file).errors.map (·.diagnostic file) ++
    (Walk.companionTasks setup file).2

def remarkCodes : List String :=
  ["E_UNTERMINATED_COMMAND", "E_UNTERMINATED_LITERAL", "E_UNTERMINATED_COMMENT", "W_READ_DIR"]

def failureCodes : List String :=
  ["E_FILE_NOT_FOUND", "E_READ_FAILED"]

theorem WalkSetup.code_of_mem_remarks {setup : WalkSetup} {file : Path} {source : String}
    {d : Diagnostic} (hMem : d ∈ setup.remarks file source) :
    ∃ code ∈ remarkCodes, d.code = some code := by
  rcases List.mem_append.mp hMem with hError | hNote
  · obtain ⟨e, -, rfl⟩ := List.mem_map.mp hError
    refine ⟨e.what.code, ?_, rfl⟩
    cases e.what <;> simp [Unclosed.code, remarkCodes]
  · refine ⟨"W_READ_DIR", by decide, ?_⟩
    obtain ⟨_, _, _, -, -, -, -, hTasks⟩ | ⟨reason, -, -, hTasks⟩ | ⟨-, hTasks⟩ :=
      Walk.companionTasks_cases setup file
    · rw [hTasks] at hNote
      cases hNote
    · rw [hTasks] at hNote
      rw [List.mem_singleton.mp hNote]
      rfl
    · rw [hTasks] at hNote
      cases hNote

theorem WalkSetup.withCode_remarks (setup : WalkSetup) (file : Path) (source : String)
    {code : String} (hOther : code ∉ remarkCodes) :
    Diagnostics.withCode code (setup.remarks file source) = [] := by
  apply Diagnostics.withCode_eq_nil
  intro d hd hCode
  obtain ⟨remark, hRemark, hSame⟩ := code_of_mem_remarks hd
  cases hSame.symm.trans hCode
  exact hOther hRemark

namespace Walk

section Load

variable (setup : WalkSetup) (w : Walk) (file : Path) (source : String)

theorem documents_load :
    (w.load setup file source).documents = w.documents ++ [setup.loaded file source] := rfl

theorem files_load : (w.load setup file source).files = w.files ++ [file] := by
  rw [files, documents_load, List.map_append]
  rfl

theorem edges_load : (w.load setup file source).edges = w.edges := rfl

theorem trail_load : (w.load setup file source).trail = file :: w.trail := rfl

theorem agenda_load : (w.load setup file source).agenda =
    setup.tasksOf (setup.loaded file source) ++ .leave :: w.agenda := rfl

theorem diagnostics_load :
    (w.load setup file source).diagnostics = w.diagnostics ++ setup.remarks file source :=
  List.append_assoc ..

end Load

/-- The edges of a walk together with those that its agenda will add. -/
def plannedEdges (setup : WalkSetup) (w : Walk) : List Edge :=
  w.edges ++ w.agenda.filterMap (Task.edge? setup)

def plannedReports (setup : WalkSetup) (w : Walk) : List Diagnostic :=
  Diagnostics.withCode "E_IMPORT_NOT_FOUND" w.diagnostics ++
    w.agenda.filterMap (Task.problem? setup)

structure Account (setup : WalkSetup) (w : Walk) : Prop where
  nodup : w.files.Nodup
  loaded : ∀ d ∈ w.documents, ∃ source, d = setup.loaded d.file source ∧
    d.file ∈ setup.system.stored ∧ setup.system.read d.file = .ok source
  normal : ∀ file ∈ w.files, file.IsNormal
  targets : ∀ e ∈ w.plannedEdges setup, e.target.IsNormal
  edges : Shared (fun e : Edge => some e.source)
    (fun d => (setup.tasksOf d).filterMap (Task.edge? setup)) w.documents (w.plannedEdges setup)
  reports : Shared Diagnostic.file
    (fun d => (setup.tasksOf d).filterMap (Task.problem? setup)) w.documents
    (w.plannedReports setup)

theorem Account.of_eq {setup : WalkSetup} {w v : Walk} (hAccount : Account setup w)
    (hDocuments : v.documents = w.documents)
    (hEdges : v.plannedEdges setup = w.plannedEdges setup)
    (hReports : v.plannedReports setup = w.plannedReports setup) : Account setup v := by
  have hFiles : v.files = w.files := by
    rw [files, files, hDocuments]
  constructor
  · rw [hFiles]
    exact hAccount.nodup
  · rw [hDocuments]
    exact hAccount.loaded
  · rw [hFiles]
    exact hAccount.normal
  · rw [hEdges]
    exact hAccount.targets
  · rw [hDocuments, hEdges]
    exact hAccount.edges
  · rw [hDocuments, hReports]
    exact hAccount.reports

theorem Account.source_mem {setup : WalkSetup} {w : Walk} {e : Edge} (hAccount : Account setup w)
    (hEdge : e ∈ w.plannedEdges setup) : e.source ∈ w.files := by
  obtain ⟨d, hd, hSource⟩ := hAccount.edges.owned e hEdge
  exact List.mem_map.mpr ⟨d, hd, (Option.some.inj hSource).symm⟩

/-! ## The tasks of one file -/

theorem source_of_mem_tasksOf {setup : WalkSetup} {d : SourceFile} {task : Task}
    (hTask : task ∈ setup.tasksOf d) :
    (∃ target, task = .companion d.file target ∧ target.IsNormal) ∨
      ∃ command, task = .importing d.file command := by
  rcases List.mem_append.mp hTask with hCompanion | hImport
  · refine Or.inl ?_
    obtain ⟨_, _, names, -, -, -, -, hTasks⟩ | ⟨reason, -, -, hTasks⟩ | ⟨-, hTasks⟩ :=
      companionTasks_cases setup d.file
    · rw [hTasks] at hCompanion
      obtain ⟨target, hTarget, rfl⟩ := List.mem_map.mp hCompanion
      rw [companionsAmong, List.mem_mergeSort, List.mem_filter] at hTarget
      obtain ⟨name, -, rfl⟩ := List.mem_map.mp hTarget.1
      exact ⟨_, rfl, Path.isNormal_normalize _⟩
    · rw [hTasks] at hCompanion
      cases hCompanion
    · rw [hTasks] at hCompanion
      cases hCompanion
  · obtain ⟨command, -, rfl⟩ := List.mem_map.mp hImport
    exact Or.inr ⟨command, rfl⟩

theorem edge_of_mem_tasksOf {setup : WalkSetup} {d : SourceFile} {e : Edge}
    (hEdge : e ∈ (setup.tasksOf d).filterMap (Task.edge? setup)) :
    e.source = d.file ∧ e.target.IsNormal := by
  obtain ⟨task, hTask, hEdge⟩ := List.mem_filterMap.mp hEdge
  obtain ⟨target, rfl, hNormal⟩ | ⟨command, rfl⟩ := source_of_mem_tasksOf hTask
  · cases hEdge
    exact ⟨rfl, hNormal⟩
  · obtain ⟨path, -, rfl⟩ := Option.map_eq_some_iff.mp hEdge
    exact ⟨rfl, Path.isNormal_normalize _⟩

theorem report_of_problem? {setup : WalkSetup} {task : Task} {x : Diagnostic}
    (hProblem : task.problem? setup = some x) : x.code = some "E_IMPORT_NOT_FOUND" := by
  cases task with
  | companion source target => cases hProblem
  | leave => cases hProblem
  | importing source command =>
    simp only [Task.problem?] at hProblem
    split at hProblem
    · cases hProblem
    · cases hProblem
      rfl

theorem report_of_mem_tasksOf {setup : WalkSetup} {d : SourceFile} {x : Diagnostic}
    (hReport : x ∈ (setup.tasksOf d).filterMap (Task.problem? setup)) : x.file = some d.file := by
  obtain ⟨task, hTask, hProblem⟩ := List.mem_filterMap.mp hReport
  obtain ⟨target, rfl, -⟩ | ⟨command, rfl⟩ := source_of_mem_tasksOf hTask
  · cases hProblem
  · simp only [Task.problem?] at hProblem
    split at hProblem
    · cases hProblem
    · cases hProblem
      rfl

/-! ## What loading a file adds -/

theorem plannedEdges_load (setup : WalkSetup) (w : Walk) (file : Path) (source : String) :
    (w.load setup file source).plannedEdges setup = w.edges ++
      ((setup.tasksOf (setup.loaded file source)).filterMap (Task.edge? setup) ++
        w.agenda.filterMap (Task.edge? setup)) := by
  rw [plannedEdges, edges_load, agenda_load, List.filterMap_append]
  rfl

theorem plannedReports_load (setup : WalkSetup) (w : Walk) (file : Path) (source : String) :
    (w.load setup file source).plannedReports setup =
      Diagnostics.withCode "E_IMPORT_NOT_FOUND" w.diagnostics ++
        ((setup.tasksOf (setup.loaded file source)).filterMap (Task.problem? setup) ++
          w.agenda.filterMap (Task.problem? setup)) := by
  rw [plannedReports, diagnostics_load, agenda_load, Diagnostics.withCode_append,
    setup.withCode_remarks file source (by decide), List.append_nil, List.filterMap_append]
  rfl

theorem Account.load {setup : WalkSetup} {w : Walk} {file : Path} {source : String}
    (hAccount : Account setup w) (hNew : file ∉ w.files) (hNormal : file.IsNormal)
    (hStored : file ∈ setup.system.stored) (hRead : setup.system.read file = .ok source) :
    Account setup (w.load setup file source) := by
  constructor
  case nodup =>
    rw [files_load, List.nodup_append]
    refine ⟨hAccount.nodup, List.pairwise_singleton _ file, ?_⟩
    rintro x hx y hy rfl
    exact hNew (List.mem_singleton.mp hy ▸ hx)
  case loaded =>
    intro d hd
    rw [documents_load, List.mem_append, List.mem_singleton] at hd
    rcases hd with hd | rfl
    · exact hAccount.loaded d hd
    · exact ⟨source, rfl, hStored, hRead⟩
  case normal =>
    intro x hx
    rw [files_load, List.mem_append, List.mem_singleton] at hx
    rcases hx with hx | rfl
    · exact hAccount.normal x hx
    · exact hNormal
  case targets =>
    intro e he
    rw [plannedEdges_load, List.mem_append, List.mem_append] at he
    rcases he with he | he | he
    · exact hAccount.targets e (List.mem_append_left _ he)
    · exact (edge_of_mem_tasksOf he).2
    · exact hAccount.targets e (List.mem_append_right _ he)
  case edges =>
    rw [plannedEdges_load, documents_load]
    refine hAccount.edges.insert hNew ?_
    intro e he
    rw [(edge_of_mem_tasksOf he).1]
  case reports =>
    rw [plannedReports_load, documents_load]
    exact hAccount.reports.insert hNew fun x hx => report_of_mem_tasksOf hx

/-! ## Tasks keep the account -/

theorem code_of_failsFor {setup : WalkSetup} {target : Path} {problem : Problem}
    (hFails : FailsFor setup target problem) : problem.code ∈ failureCodes := by
  rcases hFails with ⟨-, rfl⟩ | ⟨-, reason, -, rfl⟩
  · exact List.mem_cons_self
  · exact List.mem_cons_of_mem _ List.mem_cons_self

theorem Account.enters {setup : WalkSetup} {w next : Walk} {target : Path}
    (hAccount : Account setup w) (hNew : target ∉ w.files) (hNormal : target.IsNormal)
    (hEnters : Enters setup w target next) : Account setup next := by
  cases hEnters with
  | loaded source hStored hRead => exact hAccount.load hNew hNormal hStored hRead
  | failed problem hProblem =>
    refine hAccount.of_eq rfl rfl ?_
    have hOther : Diagnostics.withCode "E_IMPORT_NOT_FOUND"
        [problem.located (some target) none] = [] := by
      apply Diagnostics.withCode_eq_nil
      intro d hd hImport
      rw [List.mem_singleton.mp hd] at hImport
      have hCode := code_of_failsFor hProblem
      rw [Option.some.inj hImport] at hCode
      exact absurd hCode (by decide)
    rw [plannedReports, plannedReports, fail, Diagnostics.withCode_append, hOther, List.append_nil]

/-- The edge of a task moves from the agenda to the edges. -/
theorem Account.addEdge {setup : WalkSetup} {w : Walk} {task : Task} {rest : List Task} {e : Edge}
    (hAccount : Account setup w) (hAgenda : w.agenda = task :: rest)
    (hEdge : task.edge? setup = some e) (hProblem : task.problem? setup = none) :
    Account setup (({ w with agenda := rest } : Walk).addEdge e) := by
  refine hAccount.of_eq rfl ?_ ?_
  · rw [plannedEdges, plannedEdges, hAgenda, List.filterMap_cons_some hEdge]
    exact List.append_assoc ..
  · rw [plannedReports, plannedReports, hAgenda, List.filterMap_cons_none hProblem]
    rfl

theorem Account.does {setup : WalkSetup} {w next : Walk} {task : Task} {rest : List Task}
    (hAccount : Account setup w) (hAgenda : w.agenda = task :: rest)
    (hDoes : Does setup { w with agenda := rest } task next) : Account setup next := by
  cases hDoes with
  | edge e _ hEdge hProblem hArrives =>
    have hAdded := hAccount.addEdge hAgenda hEdge hProblem
    cases hArrives with
    | known hKnown => exact hAdded
    | entered _ hTried hTrail hEnters =>
      rw [not_isTried_iff] at hTried
      refine hAdded.enters hTried.1 (hAdded.targets e ?_) hEnters
      exact List.mem_append_left _ (List.mem_append_right _ List.mem_cons_self)
  | problem d hEdge hProblem =>
    refine hAccount.of_eq rfl ?_ ?_
    · rw [plannedEdges, plannedEdges, hAgenda, List.filterMap_cons_none hEdge]
    · have hCode : Diagnostics.withCode "E_IMPORT_NOT_FOUND" [d] = [d] := by
        rw [Diagnostics.withCode,
          List.filter_cons_of_pos (by rw [report_of_problem? hProblem]; rfl)]
        rfl
      rw [plannedReports, plannedReports, hAgenda, List.filterMap_cons_some hProblem,
        Diagnostics.withCode_append, hCode]
      exact List.append_assoc ..
  | leave hLeave =>
    subst hLeave
    refine hAccount.of_eq rfl ?_ ?_
    · rw [plannedEdges, plannedEdges, hAgenda, List.filterMap_cons_none rfl]
    · rw [plannedReports, plannedReports, hAgenda, List.filterMap_cons_none rfl]

theorem account_empty (setup : WalkSetup) : Account setup {} := by
  constructor
  case edges => exact ⟨nofun, nofun⟩
  case reports => exact ⟨nofun, nofun⟩
  case nodup => exact List.nodup_nil
  all_goals exact nofun

end Walk

end BraceDoc
