import BraceDoc.Proofs.Import.Outcome
import BraceDoc.Proofs.Source.Code

/-!
# What a walk reports

A walk reports under few codes. An unclosed construct is reported when its file is loaded, and files
are loaded once; so the reports of unclosed constructs are those of the documents, in the order in
which they were loaded.
-/

set_option autoImplicit false

namespace BraceDoc

open Diagnostics (Within ofFamily)

def walkCodes : List String :=
  remarkCodes ++ failureCodes ++ ["E_IMPORT_NOT_FOUND"]

def unclosedFamily : String :=
  "E_UNTERMINATED_"

def WalkSetup.unclosedReports (setup : WalkSetup) (d : SourceFile) : List Diagnostic :=
  (setup.reader.parse d.source d.file).errors.map (·.diagnostic d.file)

theorem ofFamily_syntaxErrors (file : Path) (errors : List SyntaxError) :
    ofFamily unclosedFamily (errors.map (·.diagnostic file)) = errors.map (·.diagnostic file) := by
  rw [ofFamily, List.filter_eq_self]
  intro d hd
  obtain ⟨e, -, rfl⟩ := List.mem_map.mp hd
  change unclosedFamily.toList.isPrefixOf e.what.code.toList = true
  cases e.what with
  | command => decide
  | literal width =>
    change unclosedFamily.toList.isPrefixOf "E_UNTERMINATED_LITERAL".toList = true
    decide
  | comment => decide

theorem Walk.within_companionTasks (setup : WalkSetup) (file : Path) :
    Within ["W_READ_DIR"] (companionTasks setup file).2 := by
  obtain ⟨_, _, _, -, -, -, -, hTasks⟩ | ⟨reason, -, -, hTasks⟩ | ⟨-, hTasks⟩ :=
    companionTasks_cases setup file
  · rw [hTasks]
    exact Diagnostics.within_nil _
  · rw [hTasks]
    exact Diagnostics.within_located.mpr List.mem_cons_self
  · rw [hTasks]
    exact Diagnostics.within_nil _

theorem WalkSetup.ofFamily_remarks (setup : WalkSetup) (file : Path) (source : String) :
    ofFamily unclosedFamily (setup.remarks file source) =
      setup.unclosedReports (setup.loaded file source) := by
  rw [remarks, Diagnostics.ofFamily_append, ofFamily_syntaxErrors,
    (Walk.within_companionTasks setup file).ofFamily_eq_nil (by decide), List.append_nil]
  rfl

namespace Walk

variable {setup : WalkSetup} {w next : Walk}

structure Reports (setup : WalkSetup) (w : Walk) : Prop where
  within : Within walkCodes w.diagnostics
  unclosed : ofFamily unclosedFamily w.diagnostics = w.documents.flatMap setup.unclosedReports

/-- A report under a code of its own leaves those of unclosed constructs as they are. -/
theorem Reports.report {d : Diagnostic} {code : String} (hReports : Reports setup w)
    (hDocuments : next.documents = w.documents)
    (hDiagnostics : next.diagnostics = w.diagnostics ++ [d])
    (hCode : d.code = some code) (hOther : code ∈ failureCodes ++ ["E_IMPORT_NOT_FOUND"]) :
    Reports setup next := by
  have hNew : Within (failureCodes ++ ["E_IMPORT_NOT_FOUND"]) [d] := by
    intro x hx c hc
    rw [List.mem_singleton.mp hx, hCode, Option.mem_some_iff] at hc
    exact hc ▸ hOther
  constructor
  · rw [hDiagnostics, Diagnostics.within_append]
    refine ⟨hReports.within, hNew.mono ?_⟩
    decide
  · rw [hDiagnostics, hDocuments, Diagnostics.ofFamily_append, hReports.unclosed,
      hNew.ofFamily_eq_nil (by decide), List.append_nil]

theorem Reports.load (hReports : Reports setup w) (file : Path) (source : String) :
    Reports setup (w.load setup file source) := by
  constructor
  · rw [diagnostics_load, Diagnostics.within_append]
    refine ⟨hReports.within, ?_⟩
    intro d hd code hCode
    obtain ⟨remark, hRemark, hSame⟩ := WalkSetup.code_of_mem_remarks hd
    cases hSame.symm.trans hCode
    exact List.mem_append_left _ (List.mem_append_left _ hRemark)
  · rw [diagnostics_load, documents_load, Diagnostics.ofFamily_append, hReports.unclosed,
      setup.ofFamily_remarks, List.flatMap_append, List.flatMap_singleton]

theorem Reports.enters {target : Path} (hReports : Reports setup w)
    (hEnters : Enters setup w target next) : Reports setup next := by
  cases hEnters with
  | loaded source hStored hRead => exact hReports.load target source
  | failed problem hProblem =>
    exact hReports.report rfl rfl rfl (List.mem_append_left _ (code_of_failsFor hProblem))

theorem Reports.does {task : Task} (hReports : Reports setup w) (hDoes : Does setup w task next) :
    Reports setup next := by
  cases hDoes with
  | edge e _ hEdge hProblem hArrives =>
    have hAdded : Reports setup (w.addEdge e) := ⟨hReports.within, hReports.unclosed⟩
    cases hArrives with
    | known hKnown => exact hAdded
    | entered _ hTried hTrail hEnters => exact hAdded.enters hEnters
  | problem d hEdge hProblem =>
    exact hReports.report rfl rfl (report_of_problem? hProblem) (by decide)
  | leave hLeave => exact ⟨hReports.within, hReports.unclosed⟩

end Walk

theorem Graph.reports_of_build {setup : WalkSetup} {entry : Path} {g : Graph}
    (hBuild : (build setup entry).graph = .ok g) :
    Within walkCodes (build setup entry).diagnostics ∧
      ofFamily unclosedFamily (build setup entry).diagnostics =
        g.documents.flatMap setup.unclosedReports := by
  obtain ⟨-, -, -, hDocuments, -, hDiagnostics⟩ := outcome_of_build hBuild
  have hEmpty : Walk.Reports setup {} := ⟨Diagnostics.within_nil _, rfl⟩
  have hStart : Walk.Reports setup (setup.start entry) :=
    hEmpty.enters (Walk.enters_enter setup {} _)
  have hOutcome : Walk.Reports setup (setup.outcome entry).1 :=
    (Walk.run_invariant (Walk.Reports setup)
      (fun w task rest next hReports hAgenda hDoes =>
        Walk.Reports.does (w := { w with agenda := rest })
          ⟨hReports.within, hReports.unclosed⟩ hDoes)
      hStart).1
  rw [hDiagnostics, hDocuments]
  exact ⟨hOutcome.within, hOutcome.unclosed⟩

end BraceDoc
