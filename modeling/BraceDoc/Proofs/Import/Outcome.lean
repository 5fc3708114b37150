import BraceDoc.Proofs.Import.Course

/-!
# The outcome of a walk

The policy on cycles matters only at an import of a file that is being walked: the tolerant walk
notes the edge and goes on, the strict walk ends. So the tolerant walk always comes to its end, and
it gives a graph as soon as the entry can be read.
-/

set_option autoImplicit false

namespace BraceDoc

def WalkSetup.under (setup : WalkSetup) (policy : CyclePolicy) : WalkSetup :=
  { setup with cycles := policy }

namespace Walk

variable {setup : WalkSetup} {w : Walk}

theorem edge?_under (policy : CyclePolicy) (task : Task) :
    task.edge? (setup.under policy) = task.edge? setup := by
  cases task with
  | companion source target => rfl
  | importing source command => rfl
  | leave => rfl

theorem enter_under (policy : CyclePolicy) (target : Path) :
    w.enter (setup.under policy) target = w.enter setup target := rfl

theorem perform_of_edge {task : Task} {e : Edge} (hEdge : task.edge? setup = some e) :
    w.perform setup task = (w.addEdge e).follow setup e.target := by
  cases task with
  | companion source target =>
    cases hEdge
    rfl
  | importing source command =>
    obtain ⟨path, hFile, rfl⟩ := Option.map_eq_some_iff.mp hEdge
    simp only [perform, hFile]
  | leave => cases hEdge

theorem perform_of_no_edge {task : Task} (hEdge : task.edge? setup = none) :
    ∃ next, ∀ policy, w.perform (setup.under policy) task = .ok next := by
  cases task with
  | companion source target => cases hEdge
  | importing source command =>
    have hFile := Option.map_eq_none_iff.mp hEdge
    refine ⟨{ w with diagnostics := w.diagnostics ++
      [(Problem.importNotFound command.argText).located (some source) command.span] }, ?_⟩
    intro policy
    simp only [perform, WalkSetup.under, hFile]
  | leave => exact ⟨_, fun policy => rfl⟩

theorem follow_of_mem (setup : WalkSetup) {target : Path} (hTrail : target ∈ w.trail) :
    w.follow (setup.under .tolerate) target = .ok w ∧
      w.follow (setup.under .fail) target = .error (.importCycle (w.cycleTo target)) := by
  rw [follow, follow, if_pos hTrail, if_pos hTrail]
  exact ⟨rfl, rfl⟩

theorem follow_of_not_mem (setup : WalkSetup) {target : Path} (hTrail : target ∉ w.trail) :
    ∃ next, ∀ policy, w.follow (setup.under policy) target = .ok next := by
  by_cases hTried : w.isTried target = true
  · exact ⟨w, fun policy => by rw [follow, if_neg hTrail, if_pos hTried]⟩
  · exact ⟨w.enter setup target, fun policy => by
      rw [follow, if_neg hTrail, if_neg hTried, enter_under]⟩

/-- Both policies do the same, unless a task leads back to the trail. -/
theorem perform_cases (setup : WalkSetup) (w : Walk) (task : Task) :
    (∃ e, task.edge? setup = some e ∧ e.target ∈ w.trail ∧
      w.perform (setup.under .tolerate) task = .ok (w.addEdge e) ∧
      w.perform (setup.under .fail) task = .error (.importCycle (w.cycleTo e.target))) ∨
    (∀ e, task.edge? setup = some e → e.target ∉ w.trail) ∧
      ∃ next, ∀ policy, w.perform (setup.under policy) task = .ok next := by
  cases hEdge : task.edge? setup with
  | none => exact Or.inr ⟨nofun, perform_of_no_edge hEdge⟩
  | some e =>
    have hPerform : ∀ policy, w.perform (setup.under policy) task =
        (w.addEdge e).follow (setup.under policy) e.target := fun policy =>
      perform_of_edge ((edge?_under policy task).trans hEdge)
    by_cases hTrail : e.target ∈ w.trail
    · obtain ⟨hOk, hError⟩ := follow_of_mem setup (w := w.addEdge e) hTrail
      exact Or.inl ⟨e, rfl, hTrail, (hPerform _).trans hOk, (hPerform _).trans hError⟩
    · obtain ⟨next, hNext⟩ := follow_of_not_mem setup (w := w.addEdge e) hTrail
      refine Or.inr ⟨?_, next, fun policy => (hPerform policy).trans (hNext policy)⟩
      intro e' hEdge'
      cases hEdge'
      exact hTrail

theorem run_tolerate (setup : WalkSetup) (w : Walk) : (w.run (setup.under .tolerate)).2 = none := by
  induction w using run.induct (setup.under .tolerate) with
  | case1 w hAgenda => rw [run_of_nil hAgenda]
  | case2 w task rest hAgenda next hPerform ih =>
    rw [run_of_ok hAgenda hPerform]
    exact ih
  | case3 w task rest hAgenda e hPerform =>
    obtain ⟨_, -, -, hOk, -⟩ | ⟨-, _, hOk⟩ := perform_cases setup { w with agenda := rest } task
    · cases hPerform.symm.trans hOk
    · cases hPerform.symm.trans (hOk .tolerate)

end Walk

namespace WalkSetup

def start (setup : WalkSetup) (entry : Path) : Walk :=
  ({} : Walk).enter setup (setup.entryFile entry)

def outcome (setup : WalkSetup) (entry : Path) : Walk × Option GraphError :=
  (setup.start entry).run setup

theorem entryFile_under (setup : WalkSetup) (policy : CyclePolicy) (entry : Path) :
    (setup.under policy).entryFile entry = setup.entryFile entry := rfl

theorem start_under (setup : WalkSetup) (policy : CyclePolicy) (entry : Path) :
    (setup.under policy).start entry = setup.start entry := by
  rw [start, start, entryFile_under, Walk.enter_under]

theorem outcome_under (setup : WalkSetup) (policy : CyclePolicy) (entry : Path) :
    (setup.under policy).outcome entry = (setup.start entry).run (setup.under policy) := by
  rw [outcome, start_under]

theorem course_start (setup : WalkSetup) (entry : Path) :
    Walk.Course setup (setup.entryFile entry) (setup.start entry) :=
  Walk.course_enter setup (Path.isNormal_normalize _)

theorem course_outcome (setup : WalkSetup) (entry : Path) :
    Walk.Course setup (setup.entryFile entry) (setup.outcome entry).1 ∧
      ((setup.outcome entry).2 = none → (setup.outcome entry).1.agenda = []) :=
  Walk.run_invariant _ (fun _ _ _ _ hCourse hAgenda hDoes => hCourse.does hAgenda hDoes)
    (setup.course_start entry)

theorem outcome_tolerate (setup : WalkSetup) (entry : Path) :
    ((setup.under .tolerate).outcome entry).2 = none :=
  Walk.run_tolerate setup _

end WalkSetup

namespace Graph

variable {setup : WalkSetup} {entry : Path}

theorem build_eq : build setup entry =
    match (setup.outcome entry).2 with
    | some e => ⟨.error e, (setup.outcome entry).1.diagnostics⟩
    | none =>
      if (setup.outcome entry).1.isLoaded (setup.entryFile entry) then
        ⟨.ok ⟨setup.entryFile entry, (setup.outcome entry).1.documents,
          (setup.outcome entry).1.edges⟩, (setup.outcome entry).1.diagnostics⟩
      else
        ⟨.error (.entryNotFound (setup.entryFile entry)), (setup.outcome entry).1.diagnostics⟩ :=
  rfl

theorem build_of_refused {e : GraphError} (hError : (setup.outcome entry).2 = some e) :
    build setup entry = ⟨.error e, (setup.outcome entry).1.diagnostics⟩ := by
  rw [build_eq, hError]

theorem build_of_loaded (hNone : (setup.outcome entry).2 = none)
    (hLoaded : setup.entryFile entry ∈ (setup.outcome entry).1.files) :
    build setup entry = ⟨.ok ⟨setup.entryFile entry, (setup.outcome entry).1.documents,
      (setup.outcome entry).1.edges⟩, (setup.outcome entry).1.diagnostics⟩ := by
  rw [build_eq, hNone, if_pos ((Walk.isLoaded_iff _ _).mpr hLoaded)]

theorem build_of_not_loaded (hNone : (setup.outcome entry).2 = none)
    (hLoaded : setup.entryFile entry ∉ (setup.outcome entry).1.files) :
    build setup entry = ⟨.error (.entryNotFound (setup.entryFile entry)),
      (setup.outcome entry).1.diagnostics⟩ := by
  rw [build_eq, hNone, if_neg (mt (Walk.isLoaded_iff _ _).mp hLoaded)]

theorem outcome_of_build {g : Graph} (hBuild : (build setup entry).graph = .ok g) :
    (setup.outcome entry).2 = none ∧ g.entry = setup.entryFile entry ∧
      g.entry ∈ (setup.outcome entry).1.files ∧ g.documents = (setup.outcome entry).1.documents ∧
      g.edges = (setup.outcome entry).1.edges ∧
      (build setup entry).diagnostics = (setup.outcome entry).1.diagnostics := by
  cases hError : (setup.outcome entry).2 with
  | some e =>
    rw [build_of_refused hError] at hBuild
    cases hBuild
  | none =>
    by_cases hLoaded : setup.entryFile entry ∈ (setup.outcome entry).1.files
    · rw [build_of_loaded hError hLoaded] at hBuild ⊢
      cases hBuild
      exact ⟨rfl, rfl, hLoaded, rfl, rfl, rfl⟩
    · rw [build_of_not_loaded hError hLoaded] at hBuild
      cases hBuild

theorem loaded_of_build {g : Graph} (hBuild : (build setup entry).graph = .ok g) {d : SourceFile}
    (hd : d ∈ g.documents) : ∃ source, d = setup.loaded d.file source ∧
      d.file ∈ setup.system.stored ∧ setup.system.read d.file = .ok source := by
  obtain ⟨-, -, -, hDocuments, -, -⟩ := outcome_of_build hBuild
  exact (setup.course_outcome entry).1.account.loaded d (hDocuments ▸ hd)

theorem exists_build_tolerate {source : String}
    (hStored : setup.entryFile entry ∈ setup.system.stored)
    (hRead : setup.system.read (setup.entryFile entry) = .ok source) :
    ∃ g, (build (setup.under .tolerate) entry).graph = .ok g := by
  have hStart : setup.entryFile entry ∈ (setup.start entry).files := by
    rw [WalkSetup.start, Walk.enter_of_read hStored hRead, Walk.files_load]
    exact List.mem_append_right _ List.mem_cons_self
  have hLoaded : setup.entryFile entry ∈ ((setup.under .tolerate).outcome entry).1.files := by
    rw [WalkSetup.outcome_under]
    exact Walk.subset_files_run _ hStart
  rw [build_of_loaded (setup.outcome_tolerate entry) hLoaded]
  exact ⟨_, rfl⟩

end Graph

end BraceDoc
