import BraceDoc.Import.Walk

/-!
# What a task does to a walk

Carrying out a task adds its edge and arrives at the target, or reports its problem, or leaves the
innermost file. Arriving at a file changes nothing when it is known, and otherwise loads it or
records its failure. What every task preserves, a whole walk preserves.
-/

set_option autoImplicit false

namespace BraceDoc

def Task.edge? (setup : WalkSetup) : Task → Option Edge
  | .companion source target => some ⟨source, target, companionMark, none⟩
  | .importing source command =>
    (setup.resolver.file? setup.system source command.argText).map fun path =>
      ⟨source, path.normalize, command.argText, command.span⟩
  | .leave => none

def Task.problem? (setup : WalkSetup) : Task → Option Diagnostic
  | .importing source command =>
    match setup.resolver.file? setup.system source command.argText with
    | some _ => none
    | none =>
      some ((Problem.importNotFound command.argText).located (some source) command.span)
  | _ => none

/-- What becomes of the text of a file. -/
def WalkSetup.loaded (setup : WalkSetup) (file : Path) (source : String) : SourceFile where
  file
  source
  document := (setup.reader.parse source file).document
  commands := setup.reader.commands source (setup.reader.parse source file).document

/-- The companions of a file, and its imports behind them. -/
def WalkSetup.tasksOf (setup : WalkSetup) (d : SourceFile) : List Task :=
  (Walk.companionTasks setup d.file).1 ++ Walk.importTasks d

namespace Walk

def files (w : Walk) : List Path :=
  w.documents.map (·.file)

theorem isLoaded_iff (w : Walk) (file : Path) : w.isLoaded file = true ↔ file ∈ w.files := by
  rw [isLoaded, files, List.any_eq_true, List.mem_map]
  simp only [beq_iff_eq]

theorem isTried_iff (w : Walk) (file : Path) :
    w.isTried file = true ↔ file ∈ w.files ∨ file ∈ w.failed := by
  rw [isTried, Bool.or_eq_true, isLoaded_iff, List.contains_iff_mem]

theorem not_isTried_iff (w : Walk) (file : Path) :
    w.isTried file = false ↔ file ∉ w.files ∧ file ∉ w.failed := by
  rw [Bool.eq_false_iff, Ne, isTried_iff, not_or]

/-- A failure to load a file, told by its problem: the file is not there, or it cannot be read. -/
def FailsFor (setup : WalkSetup) (target : Path) (problem : Problem) : Prop :=
  target ∉ setup.system.stored ∧ problem = .fileNotFound target ∨
    target ∈ setup.system.stored ∧
      ∃ reason, setup.system.read target = .error reason ∧ problem = .unreadable target reason

inductive Enters (setup : WalkSetup) (w : Walk) (target : Path) : Walk → Prop
  | loaded (source : String) (hStored : target ∈ setup.system.stored)
      (hRead : setup.system.read target = .ok source) :
      Enters setup w target (w.load setup target source)
  | failed (problem : Problem) (hProblem : FailsFor setup target problem) :
      Enters setup w target (w.fail target problem)

inductive Arrives (setup : WalkSetup) (w : Walk) (target : Path) : Walk → Prop
  | known (hKnown : w.isTried target = true ∨ target ∈ w.trail) : Arrives setup w target w
  | entered (next : Walk) (hTried : w.isTried target = false) (hTrail : target ∉ w.trail)
      (hEnters : Enters setup w target next) : Arrives setup w target next

inductive Does (setup : WalkSetup) (w : Walk) (task : Task) : Walk → Prop
  | edge (e : Edge) (next : Walk) (hEdge : task.edge? setup = some e)
      (hProblem : task.problem? setup = none)
      (hArrives : Arrives setup (w.addEdge e) e.target next) : Does setup w task next
  | problem (d : Diagnostic) (hEdge : task.edge? setup = none)
      (hProblem : task.problem? setup = some d) :
      Does setup w task { w with diagnostics := w.diagnostics ++ [d] }
  | leave (hLeave : task = .leave) : Does setup w task { w with trail := w.trail.tail }

theorem enter_of_read {setup : WalkSetup} {w : Walk} {target : Path} {source : String}
    (hStored : target ∈ setup.system.stored) (hRead : setup.system.read target = .ok source) :
    w.enter setup target = w.load setup target source := by
  rw [enter, if_pos hStored, hRead]

theorem enter_of_unreadable {setup : WalkSetup} {w : Walk} {target : Path} {reason : String}
    (hStored : target ∈ setup.system.stored) (hRead : setup.system.read target = .error reason) :
    w.enter setup target = w.fail target (.unreadable target reason) := by
  rw [enter, if_pos hStored, hRead]

theorem enter_of_not_stored {setup : WalkSetup} {w : Walk} {target : Path}
    (hStored : target ∉ setup.system.stored) :
    w.enter setup target = w.fail target (.fileNotFound target) := by
  rw [enter, if_neg hStored]

theorem enters_enter (setup : WalkSetup) (w : Walk) (target : Path) :
    Enters setup w target (w.enter setup target) := by
  unfold enter
  split
  · rename_i hStored
    split
    · rename_i source hRead
      exact .loaded source hStored hRead
    · rename_i reason hRead
      exact .failed _ (Or.inr ⟨hStored, reason, hRead, rfl⟩)
  · rename_i hStored
    exact .failed _ (Or.inl ⟨hStored, rfl⟩)

theorem arrives_of_follow {setup : WalkSetup} {w next : Walk} {target : Path}
    (hFollow : w.follow setup target = .ok next) : Arrives setup w target next := by
  unfold follow at hFollow
  split at hFollow
  · rename_i hTrail
    split at hFollow
    · cases hFollow
    · cases hFollow
      exact .known (Or.inr hTrail)
  · rename_i hTrail
    split at hFollow
    · rename_i hTried
      cases hFollow
      exact .known (Or.inl hTried)
    · rename_i hTried
      cases hFollow
      exact .entered _ (Bool.eq_false_iff.mpr hTried) hTrail (enters_enter setup w target)

theorem does_of_perform {setup : WalkSetup} {w next : Walk} {task : Task}
    (hPerform : w.perform setup task = .ok next) : Does setup w task next := by
  cases task with
  | companion source target => exact .edge _ _ rfl rfl (arrives_of_follow hPerform)
  | importing source command =>
    simp only [perform] at hPerform
    split at hPerform
    · rename_i path hFile
      refine .edge _ _ ?_ ?_ (arrives_of_follow hPerform)
      · simp [Task.edge?, hFile]
      · simp [Task.problem?, hFile]
    · rename_i hFile
      cases hPerform
      refine .problem _ ?_ ?_
      · simp [Task.edge?, hFile]
      · simp [Task.problem?, hFile]
  | leave =>
    cases hPerform
    exact .leave rfl

theorem run_of_nil {setup : WalkSetup} {w : Walk} (hAgenda : w.agenda = []) :
    w.run setup = (w, none) := by
  rw [run]
  split
  · rfl
  · rename_i hCons
    rw [hAgenda] at hCons
    cases hCons

theorem run_of_cons {setup : WalkSetup} {w : Walk} {task : Task} {rest : List Task}
    (hAgenda : w.agenda = task :: rest) :
    w.run setup =
      match ({ w with agenda := rest } : Walk).perform setup task with
      | .ok next => next.run setup
      | .error e => (w, some e) := by
  rw [run]
  split
  · rename_i hNil
    rw [hAgenda] at hNil
    cases hNil
  · rename_i hCons
    rw [hAgenda] at hCons
    cases hCons
    split
    · rename_i hOk
      rw [hOk]
    · rename_i hError
      rw [hError]

theorem run_of_ok {setup : WalkSetup} {w next : Walk} {task : Task} {rest : List Task}
    (hAgenda : w.agenda = task :: rest)
    (hPerform : ({ w with agenda := rest } : Walk).perform setup task = .ok next) :
    w.run setup = next.run setup := by
  rw [run_of_cons hAgenda, hPerform]

theorem run_of_error {setup : WalkSetup} {w : Walk} {e : GraphError} {task : Task}
    {rest : List Task} (hAgenda : w.agenda = task :: rest)
    (hPerform : ({ w with agenda := rest } : Walk).perform setup task = .error e) :
    w.run setup = (w, some e) := by
  rw [run_of_cons hAgenda, hPerform]

/-- An invariant of single tasks holds when the walk stops, and then the agenda is empty unless the
policy has refused an import. -/
theorem run_invariant {setup : WalkSetup} (Inv : Walk → Prop)
    (hStep : ∀ w task rest next, Inv w → w.agenda = task :: rest →
      Does setup { w with agenda := rest } task next → Inv next)
    {w : Walk} (hInv : Inv w) :
    Inv (w.run setup).1 ∧ ((w.run setup).2 = none → (w.run setup).1.agenda = []) := by
  induction w using run.induct setup with
  | case1 w hAgenda =>
    rw [run_of_nil hAgenda]
    exact ⟨hInv, fun _ => hAgenda⟩
  | case2 w task rest hAgenda next hPerform ih =>
    rw [run_of_ok hAgenda hPerform]
    exact ih (hStep w task rest next hInv hAgenda (does_of_perform hPerform))
  | case3 w task rest hAgenda e hPerform =>
    rw [run_of_error hAgenda hPerform]
    exact ⟨hInv, nofun⟩

end Walk

end BraceDoc
