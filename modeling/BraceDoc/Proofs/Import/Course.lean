import BraceDoc.Proofs.Import.Account
import Mathlib.Logic.Relation

/-!
# The course of a walk

A walk loads only files that the entry leads to along edges, and it does not leave the target of an
edge untried. Every failure to load a file is reported once, and no loaded file is reported.
-/

set_option autoImplicit false

namespace BraceDoc

def Edge.Links (edges : List Edge) (x y : Path) : Prop :=
  ∃ e ∈ edges, e.source = x ∧ e.target = y

theorem Edge.Links.append {edges : List Edge} {x y : Path} (hLinks : Edge.Links edges x y)
    (more : List Edge) : Edge.Links (edges ++ more) x y := by
  obtain ⟨e, he, hEnds⟩ := hLinks
  exact ⟨e, List.mem_append_left _ he, hEnds⟩

def Diagnostic.isFailure (file : Path) (d : Diagnostic) : Bool :=
  (failureCodes.any fun code => d.code == some code) && d.file == some file

theorem Diagnostic.isFailure_iff (file : Path) (d : Diagnostic) :
    d.isFailure file = true ↔ (∃ code ∈ failureCodes, d.code = some code) ∧ d.file = some file := by
  rw [isFailure, Bool.and_eq_true, List.any_eq_true, beq_iff_eq]
  simp only [beq_iff_eq]

theorem WalkSetup.countP_isFailure_remarks (setup : WalkSetup) (file other : Path)
    (source : String) : (setup.remarks file source).countP (Diagnostic.isFailure other) = 0 := by
  rw [List.countP_eq_zero]
  intro d hd hFailure
  obtain ⟨code, hRemark, hCode⟩ := code_of_mem_remarks hd
  obtain ⟨⟨code', hFails, hCode'⟩, -⟩ := (Diagnostic.isFailure_iff other d).mp hFailure
  cases hCode.symm.trans hCode'
  have hApart : ∀ code ∈ remarkCodes, code ∉ failureCodes := by decide
  exact hApart code hRemark hFails

namespace Walk

/-- The failures of a walk and its reports of them agree, and no failed file is loaded. -/
structure Tries (setup : WalkSetup) (w : Walk) : Prop where
  trail : ∀ file ∈ w.trail, file ∈ w.files
  apart : ∀ file ∈ w.failed, file ∉ w.files
  reasons : ∀ file ∈ w.failed, ∃ problem, FailsFor setup file problem
  failures : ∀ file,
    w.diagnostics.countP (Diagnostic.isFailure file) = if file ∈ w.failed then 1 else 0

theorem Tries.load {setup : WalkSetup} {w : Walk} {target : Path} {source : String}
    (hTries : Tries setup w) (hNew : target ∉ w.failed) :
    Tries setup (w.load setup target source) := by
  constructor
  · intro file hFile
    rw [files_load, List.mem_append, List.mem_singleton]
    rcases List.mem_cons.mp hFile with rfl | hFile
    · exact Or.inr rfl
    · exact Or.inl (hTries.trail file hFile)
  · intro file hFile
    rw [files_load, List.mem_append, List.mem_singleton, not_or]
    refine ⟨hTries.apart file hFile, ?_⟩
    rintro rfl
    exact hNew hFile
  · exact hTries.reasons
  · intro file
    rw [diagnostics_load, List.countP_append, setup.countP_isFailure_remarks, Nat.add_zero]
    exact hTries.failures file

theorem Tries.fail {setup : WalkSetup} {w : Walk} {target : Path} {problem : Problem}
    (hTries : Tries setup w) (hLoaded : target ∉ w.files) (hNew : target ∉ w.failed)
    (hProblem : FailsFor setup target problem) : Tries setup (w.fail target problem) := by
  constructor
  · exact hTries.trail
  · intro file hFile
    rcases List.mem_append.mp hFile with hFile | hFile
    · exact hTries.apart file hFile
    · rw [List.mem_singleton.mp hFile]
      exact hLoaded
  · intro file hFile
    rcases List.mem_append.mp hFile with hFile | hFile
    · exact hTries.reasons file hFile
    · rw [List.mem_singleton.mp hFile]
      exact ⟨problem, hProblem⟩
  · intro file
    have hReport : (problem.located (some target) none).isFailure file = true ↔ target = file := by
      rw [Diagnostic.isFailure_iff]
      constructor
      · rintro ⟨-, hFile⟩
        exact Option.some.inj hFile
      · rintro rfl
        exact ⟨⟨problem.code, code_of_failsFor hProblem, rfl⟩, rfl⟩
    simp only [Walk.fail, List.countP_append, hTries.failures file, List.countP_singleton, hReport,
      List.mem_append, List.mem_singleton]
    by_cases hFile : target = file
    · subst hFile
      simp [hNew]
    · have hOther : file ≠ target := fun hSame => hFile hSame.symm
      simp [hFile, hOther]

theorem Tries.enters {setup : WalkSetup} {w next : Walk} {target : Path} (hTries : Tries setup w)
    (hTried : w.isTried target = false) (hEnters : Enters setup w target next) :
    Tries setup next := by
  rw [not_isTried_iff] at hTried
  cases hEnters with
  | loaded source hStored hRead => exact hTries.load hTried.2
  | failed problem hProblem => exact hTries.fail hTried.1 hTried.2 hProblem

theorem Tries.does {setup : WalkSetup} {w next : Walk} {task : Task} (hTries : Tries setup w)
    (hDoes : Does setup w task next) : Tries setup next := by
  cases hDoes with
  | edge e _ hEdge hProblem hArrives =>
    have hAdded : Tries setup (w.addEdge e) :=
      ⟨hTries.trail, hTries.apart, hTries.reasons, hTries.failures⟩
    cases hArrives with
    | known hKnown => exact hAdded
    | entered _ hTried hTrail hEnters => exact hAdded.enters hTried hEnters
  | problem d hEdge hProblem =>
    refine ⟨hTries.trail, hTries.apart, hTries.reasons, ?_⟩
    intro file
    have hOther : Diagnostic.isFailure file d = false := by
      rw [Bool.eq_false_iff]
      intro hFailure
      obtain ⟨⟨code, hFails, hCode⟩, -⟩ := (Diagnostic.isFailure_iff file d).mp hFailure
      cases hCode.symm.trans (report_of_problem? hProblem)
      exact absurd hFails (by decide)
    simp only [List.countP_append, hTries.failures file, List.countP_singleton, hOther,
      Bool.false_eq_true, if_false, Nat.add_zero]
  | leave hLeave =>
    exact ⟨fun file hFile => hTries.trail file (List.mem_of_mem_tail hFile), hTries.apart,
      hTries.reasons, hTries.failures⟩

section Enters

variable {setup : WalkSetup} {w next : Walk} {target : Path}

theorem Enters.edges_eq (hEnters : Enters setup w target next) : next.edges = w.edges := by
  cases hEnters with
  | loaded => rfl
  | failed => rfl

theorem Enters.mem_files (hEnters : Enters setup w target next) {file : Path}
    (hFile : file ∈ next.files) : file ∈ w.files ∨ file = target := by
  cases hEnters with
  | loaded source =>
    rw [files_load, List.mem_append, List.mem_singleton] at hFile
    exact hFile
  | failed problem => exact Or.inl hFile

theorem Enters.subset_files (hEnters : Enters setup w target next) {file : Path}
    (hFile : file ∈ w.files) : file ∈ next.files := by
  cases hEnters with
  | loaded source =>
    rw [files_load]
    exact List.mem_append_left _ hFile
  | failed problem => exact hFile

theorem Enters.isTried (hEnters : Enters setup w target next) {file : Path}
    (hTried : w.isTried file = true ∨ file = target) : next.isTried file = true := by
  rw [isTried_iff] at hTried ⊢
  cases hEnters with
  | loaded source =>
    rw [files_load, List.mem_append, List.mem_singleton]
    rcases hTried with (hLoaded | hFailed) | hTarget
    · exact Or.inl (Or.inl hLoaded)
    · exact Or.inr hFailed
    · exact Or.inl (Or.inr hTarget)
  | failed problem =>
    rcases hTried with (hLoaded | hFailed) | hTarget
    · exact Or.inl hLoaded
    · exact Or.inr (List.mem_append_left _ hFailed)
    · exact Or.inr (List.mem_append_right _ (List.mem_singleton.mpr hTarget))

end Enters

structure Course (setup : WalkSetup) (entry : Path) (w : Walk) : Prop where
  account : Account setup w
  tries : Tries setup w
  targets : ∀ e ∈ w.edges, w.isTried e.target = true
  reached : ∀ file ∈ w.files, Relation.ReflTransGen (Edge.Links w.edges) entry file

theorem targets_of_does {setup : WalkSetup} {w next : Walk} {task : Task}
    (hTries : Tries setup w) (hTargets : ∀ e ∈ w.edges, w.isTried e.target = true)
    (hDoes : Does setup w task next) :
    ∀ e ∈ next.edges, next.isTried e.target = true := by
  cases hDoes with
  | edge e _ hEdge hProblem hArrives =>
    cases hArrives with
    | known hKnown =>
      intro x hx
      rcases List.mem_append.mp hx with hx | hx
      · exact hTargets x hx
      · rw [List.mem_singleton.mp hx]
        rcases hKnown with hTried | hTrail
        · exact hTried
        · exact (isTried_iff _ _).mpr (Or.inl (hTries.trail _ hTrail))
    | entered _ hTried hTrail hEnters =>
      intro x hx
      rw [hEnters.edges_eq] at hx
      apply hEnters.isTried
      rcases List.mem_append.mp hx with hx | hx
      · exact Or.inl (hTargets x hx)
      · exact Or.inr (congrArg Edge.target (List.mem_singleton.mp hx))
  | problem d hEdge hProblem => exact hTargets
  | leave hLeave => exact hTargets

theorem reached_of_does {setup : WalkSetup} {entry : Path} {w next : Walk} {task : Task}
    (hSource : ∀ e, task.edge? setup = some e → e.source ∈ w.files)
    (hReached : ∀ file ∈ w.files, Relation.ReflTransGen (Edge.Links w.edges) entry file)
    (hDoes : Does setup w task next) :
    ∀ file ∈ next.files, Relation.ReflTransGen (Edge.Links next.edges) entry file := by
  cases hDoes with
  | edge e _ hEdge hProblem hArrives =>
    have hOld : ∀ file ∈ w.files,
        Relation.ReflTransGen (Edge.Links (w.edges ++ [e])) entry file := fun file hFile =>
      Relation.ReflTransGen.mono (fun _ _ hLinks => Edge.Links.append hLinks [e]) _ _
        (hReached file hFile)
    cases hArrives with
    | known hKnown => exact hOld
    | entered _ hTried hTrail hEnters =>
      intro file hFile
      rw [hEnters.edges_eq]
      rcases hEnters.mem_files hFile with hFile | rfl
      · exact hOld file hFile
      · refine (hOld e.source (hSource e hEdge)).tail ⟨e, ?_, rfl, rfl⟩
        exact List.mem_append_right _ List.mem_cons_self
  | problem d hEdge hProblem => exact hReached
  | leave hLeave => exact hReached

theorem Course.does {setup : WalkSetup} {entry : Path} {w next : Walk} {task : Task}
    {rest : List Task} (hCourse : Course setup entry w) (hAgenda : w.agenda = task :: rest)
    (hDoes : Does setup { w with agenda := rest } task next) : Course setup entry next := by
  have hTries : Tries setup { w with agenda := rest } :=
    ⟨hCourse.tries.trail, hCourse.tries.apart, hCourse.tries.reasons, hCourse.tries.failures⟩
  refine ⟨hCourse.account.does hAgenda hDoes, hTries.does hDoes,
    targets_of_does hTries hCourse.targets hDoes,
    reached_of_does (w := { w with agenda := rest }) ?_ hCourse.reached hDoes⟩
  intro e hEdge
  apply hCourse.account.source_mem
  rw [plannedEdges, hAgenda, List.filterMap_cons_some hEdge]
  exact List.mem_append_right _ List.mem_cons_self

theorem course_enter (setup : WalkSetup) {entry : Path} (hNormal : entry.IsNormal) :
    Course setup entry (({} : Walk).enter setup entry) := by
  have hEnters := enters_enter setup {} entry
  have hTries : Tries setup {} := ⟨nofun, nofun, nofun, fun _ => rfl⟩
  refine ⟨(account_empty setup).enters (List.not_mem_nil) hNormal hEnters,
    hTries.enters rfl hEnters, ?_, ?_⟩
  · rw [hEnters.edges_eq]
    exact nofun
  · intro file hFile
    rcases hEnters.mem_files hFile with hFile | rfl
    · cases hFile
    · exact .refl

theorem Course.files_stored {setup : WalkSetup} {entry : Path} {w : Walk}
    (hCourse : Course setup entry w) : ∀ file ∈ w.files, file ∈ setup.system.stored := by
  intro file hFile
  obtain ⟨d, hd, rfl⟩ := List.mem_map.mp hFile
  obtain ⟨_, -, hStored, -⟩ := hCourse.account.loaded d hd
  exact hStored

/-- A target that can be read has not failed, so it is loaded. -/
theorem Course.target_loaded {setup : WalkSetup} {entry : Path} {w : Walk} {e : Edge}
    {source : String} (hCourse : Course setup entry w) (he : e ∈ w.edges)
    (hStored : e.target ∈ setup.system.stored) (hRead : setup.system.read e.target = .ok source) :
    e.target ∈ w.files := by
  refine ((isTried_iff w e.target).mp (hCourse.targets e he)).resolve_right fun hFailed => ?_
  obtain ⟨problem, ⟨hMissing, -⟩ | ⟨-, reason, hFault, -⟩⟩ := hCourse.tries.reasons _ hFailed
  · exact hMissing hStored
  · cases hFault.symm.trans hRead

/-! ## What stays -/

theorem Does.subset_files {setup : WalkSetup} {w next : Walk} {task : Task}
    (hDoes : Does setup w task next) {file : Path} (hFile : file ∈ w.files) :
    file ∈ next.files := by
  cases hDoes with
  | edge e _ hEdge hProblem hArrives =>
    cases hArrives with
    | known hKnown => exact hFile
    | entered _ hTried hTrail hEnters => exact hEnters.subset_files hFile
  | problem d hEdge hProblem => exact hFile
  | leave hLeave => exact hFile

theorem Does.exists_edges {setup : WalkSetup} {w next : Walk} {task : Task}
    (hDoes : Does setup w task next) : ∃ more, next.edges = w.edges ++ more := by
  cases hDoes with
  | edge e _ hEdge hProblem hArrives =>
    refine ⟨[e], ?_⟩
    cases hArrives with
    | known hKnown => rfl
    | entered _ hTried hTrail hEnters => exact hEnters.edges_eq
  | problem d hEdge hProblem => exact ⟨[], (List.append_nil _).symm⟩
  | leave hLeave => exact ⟨[], (List.append_nil _).symm⟩

theorem subset_files_run (setup : WalkSetup) {w : Walk} {file : Path} (hFile : file ∈ w.files) :
    file ∈ (w.run setup).1.files :=
  (run_invariant (fun v => file ∈ v.files)
    (fun _ _ _ _ hMem _ hDoes => hDoes.subset_files hMem) hFile).1

theorem exists_edges_run (setup : WalkSetup) (w : Walk) :
    ∃ more, (w.run setup).1.edges = w.edges ++ more := by
  refine (run_invariant (fun v => ∃ more, v.edges = w.edges ++ more) ?_ ?_).1
  · rintro v task rest next ⟨more, hEdges⟩ hAgenda hDoes
    obtain ⟨added, hAdded⟩ := hDoes.exists_edges
    exact ⟨more ++ added, by rw [hAdded, hEdges, List.append_assoc]⟩
  · exact ⟨[], (List.append_nil _).symm⟩

end Walk

end BraceDoc
