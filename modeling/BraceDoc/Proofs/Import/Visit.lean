import BraceDoc.Proofs.Import.Outcome
import Mathlib.Data.List.Dedup

/-!
# The walk as a recursion

Visiting a file loads it and then visits the targets of its tasks, one visit inside another. The
recursion is given a limit on the visits inside one another, and keeps a record of the files that it
reads and of those that it begins to work on. It does what the walk over an agenda does: what is
left of the recursion at any time is the agenda.

A visit of a stored file leaves one file less that has not been tried. So the number of stored files
limits the recursion, and no file is read or begun twice.
-/

set_option autoImplicit false

namespace BraceDoc

/-- A walk by recursion, with what it has asked for. Its agenda is not used. -/
structure Tour where
  walk : Walk := {}
  /-- The files whose text has been read, in order. -/
  reads : List Path := []
  /-- The files whose tasks have been begun, in order. -/
  begun : List Path := []

namespace Tour

def load (setup : WalkSetup) (t : Tour) (file : Path) : Tour × Option SourceFile :=
  match t.walk.documents.find? fun d => d.file == file with
  | some d => (t, some d)
  | none =>
    if file ∈ t.walk.failed then
      (t, none)
    else if file ∈ setup.system.stored then
      match setup.system.read file with
      | .ok source =>
        let loaded := setup.loaded file source
        let errors := (setup.reader.parse source file).errors.map (·.diagnostic file)
        let walk := { t.walk with
          documents := t.walk.documents ++ [loaded]
          diagnostics := t.walk.diagnostics ++ errors }
        ({ t with walk, reads := t.reads ++ [file] }, some loaded)
      | .error reason =>
        ({ t with walk := t.walk.fail file (.unreadable file reason), reads := t.reads ++ [file] },
          none)
    else
      ({ t with walk := t.walk.fail file (.fileNotFound file) }, none)

def start (setup : WalkSetup) (t : Tour) (file : Path) : Tour :=
  let walk := { t.walk with
    trail := file :: t.walk.trail
    diagnostics := t.walk.diagnostics ++ (Walk.companionTasks setup file).2 }
  { t with walk, begun := t.begun ++ [file] }

def leave (t : Tour) : Tour :=
  { t with walk := { t.walk with trail := t.walk.trail.tail } }

def addEdge (t : Tour) (edge : Edge) : Tour :=
  { t with walk := t.walk.addEdge edge }

def report (t : Tour) (d : Diagnostic) : Tour :=
  { t with walk := { t.walk with diagnostics := t.walk.diagnostics ++ [d] } }

section Tasks

variable (setup : WalkSetup) (visit : Tour → Path → Option (Tour × Option GraphError))

/-- Goes to the target of an edge by a visit, unless the target has been dealt with. -/
def follow (t : Tour) (target : Path) : Option (Tour × Option GraphError) :=
  if target ∈ t.walk.trail then
    match setup.cycles with
    | .fail => some (t, some (.importCycle (t.walk.cycleTo target)))
    | .tolerate => some (t, none)
  else if t.walk.isTried target then
    some (t, none)
  else
    visit t target

def perform (t : Tour) (task : Task) : Option (Tour × Option GraphError) :=
  match task.edge? setup with
  | some e => (t.addEdge e).follow setup visit e.target
  | none =>
    match task.problem? setup with
    | some d => some (t.report d, none)
    | none => some (t, none)

def performAll (t : Tour) : List Task → Option (Tour × Option GraphError)
  | [] => some (t, none)
  | task :: rest =>
    match t.perform setup visit task with
    | some (next, none) => next.performAll rest
    | stopped => stopped

end Tasks

/-- Visits a file and what it leads to; gives nothing where more than `limit` visits would be inside
one another. -/
def visit (setup : WalkSetup) : Nat → Tour → Path → Option (Tour × Option GraphError)
  | 0, _, _ => none
  | limit + 1, t, file =>
    match t.load setup file with
    | (t, none) => some (t, none)
    | (t, some d) =>
      match (t.start setup file).performAll setup (visit setup limit) (setup.tasksOf d) with
      | some (next, none) => some (next.leave, none)
      | stopped => stopped

def result (t : Tour) (file : Path) (error : Option GraphError) : GraphResult :=
  match error with
  | some e => ⟨.error e, t.walk.diagnostics⟩
  | none =>
    if t.walk.isLoaded file then
      ⟨.ok ⟨file, t.walk.documents, t.walk.edges⟩, t.walk.diagnostics⟩
    else
      ⟨.error (.entryNotFound file), t.walk.diagnostics⟩

end Tour

/-! ## Files that have not been tried -/

def Walk.untried (setup : WalkSetup) (w : Walk) : Nat :=
  setup.system.stored.dedup.countP fun file => !w.isTried file

theorem Walk.untried_le_of_tried {setup : WalkSetup} {w v : Walk}
    (hTried : ∀ file, w.isTried file = true → v.isTried file = true) :
    v.untried setup ≤ w.untried setup := by
  apply List.countP_mono_left
  intro file _ hNot
  cases hOld : w.isTried file with
  | false => rfl
  | true => simp [hTried file hOld] at hNot

theorem Walk.untried_lt_of_tried {setup : WalkSetup} {w v : Walk} {file : Path}
    (hTried : ∀ file, w.isTried file = true → v.isTried file = true)
    (hStored : file ∈ setup.system.stored) (hOld : w.isTried file = false)
    (hNew : v.isTried file = true) : v.untried setup < w.untried setup := by
  refine countP_lt_of_mem ?_ (List.mem_dedup.mpr hStored) ?_ ?_
  · intro other hNot
    cases hOther : w.isTried other with
    | false => rfl
    | true => simp [hTried other hOther] at hNot
  · rw [hNew]
    rfl
  · rw [hOld]
    rfl

section Agenda

variable {setup : WalkSetup} {w next : Walk} {task : Task} {agenda : List Task}

def Walk.withAgenda (w : Walk) (agenda : List Task) : Walk :=
  { w with agenda }

theorem Walk.run_withAgenda_of_ok
    (hPerform : (w.withAgenda agenda).perform setup task = .ok next) :
    (w.withAgenda (task :: agenda)).run setup = next.run setup :=
  run_of_ok rfl hPerform

theorem Walk.run_withAgenda_of_error {e : GraphError}
    (hPerform : (w.withAgenda agenda).perform setup task = .error e) :
    (w.withAgenda (task :: agenda)).run setup = (w.withAgenda (task :: agenda), some e) :=
  run_of_error rfl hPerform

end Agenda

structure Walk.TriedOnce (w : Walk) (files : List Path) : Prop where
  nodup : files.Nodup
  tried : ∀ file ∈ files, w.isTried file = true

theorem Walk.TriedOnce.mono {w v : Walk} {files : List Path} (hOnce : w.TriedOnce files)
    (hTried : ∀ file, w.isTried file = true → v.isTried file = true) : v.TriedOnce files :=
  ⟨hOnce.nodup, fun file hFile => hTried file (hOnce.tried file hFile)⟩

theorem Walk.TriedOnce.snoc {w v : Walk} {files : List Path} {file : Path}
    (hOnce : w.TriedOnce files) (hOld : w.isTried file = false)
    (hTried : ∀ other, w.isTried other = true ∨ other = file → v.isTried other = true) :
    v.TriedOnce (files ++ [file]) := by
  constructor
  · rw [List.nodup_append]
    refine ⟨hOnce.nodup, List.pairwise_singleton _ file, ?_⟩
    rintro x hx y hy rfl
    rw [List.mem_singleton.mp hy] at hx
    cases (hOnce.tried file hx).symm.trans hOld
  · intro other hOther
    apply hTried
    rcases List.mem_append.mp hOther with hOther | hOther
    · exact Or.inl (hOnce.tried other hOther)
    · exact Or.inr (List.mem_singleton.mp hOther)

namespace Tour

variable {setup : WalkSetup} {t next : Tour} {file : Path}

/-- No file is read or begun twice, and what is begun is stored. -/
structure Sparing (setup : WalkSetup) (t : Tour) : Prop where
  reads : t.walk.TriedOnce t.reads
  begun : t.walk.TriedOnce t.begun
  stored : ∀ file ∈ t.begun, file ∈ setup.system.stored

theorem Sparing.mono (hSparing : t.Sparing setup) {walk : Walk}
    (hTried : ∀ file, t.walk.isTried file = true → walk.isTried file = true) :
    Sparing setup { t with walk } :=
  ⟨hSparing.reads.mono hTried, hSparing.begun.mono hTried, hSparing.stored⟩

theorem Sparing.addEdge (hSparing : t.Sparing setup) (e : Edge) : (t.addEdge e).Sparing setup :=
  hSparing.mono fun _ hTried => hTried

theorem Sparing.report (hSparing : t.Sparing setup) (d : Diagnostic) : (t.report d).Sparing setup :=
  hSparing.mono fun _ hTried => hTried

theorem Sparing.leave (hSparing : t.Sparing setup) : t.leave.Sparing setup :=
  hSparing.mono fun _ hTried => hTried

/-! ## Loading -/

theorem find?_of_not_tried {w : Walk} (hNew : w.isTried file = false) :
    (w.documents.find? fun d => d.file == file) = none := by
  rw [List.find?_eq_none]
  intro d hd hFile
  apply ((Walk.not_isTried_iff w file).mp hNew).1
  exact List.mem_map.mpr ⟨d, hd, beq_iff_eq.mp hFile⟩

/-- Everything that loading a file can do that has not been tried, and how the walk enters it. -/
theorem load_cases (setup : WalkSetup) (hNew : t.walk.isTried file = false) :
    (∃ d next, file ∈ setup.system.stored ∧ t.load setup file = (next, some d) ∧
      next.reads = t.reads ++ [file] ∧ next.begun = t.begun ∧
      ∀ agenda, (t.walk.withAgenda agenda).enter setup file =
        (next.start setup file).walk.withAgenda (setup.tasksOf d ++ .leave :: agenda)) ∨
    ∃ next, t.load setup file = (next, none) ∧
      (next.reads = t.reads ∨ next.reads = t.reads ++ [file]) ∧ next.begun = t.begun ∧
      ∀ agenda, (t.walk.withAgenda agenda).enter setup file = next.walk.withAgenda agenda := by
  have hFailed : file ∉ t.walk.failed := ((Walk.not_isTried_iff _ _).mp hNew).2
  rw [load, find?_of_not_tried hNew]
  simp only [if_neg hFailed]
  by_cases hStored : file ∈ setup.system.stored
  · simp only [if_pos hStored]
    cases hRead : setup.system.read file with
    | ok source =>
      refine Or.inl ⟨_, _, hStored, rfl, rfl, rfl, fun agenda => ?_⟩
      rw [Walk.enter_of_read hStored hRead]
      rfl
    | error reason =>
      refine Or.inr ⟨_, rfl, Or.inr rfl, rfl, fun agenda => ?_⟩
      simp only [Walk.enter, if_pos hStored, hRead]
      rfl
  · simp only [if_neg hStored]
    refine Or.inr ⟨_, rfl, Or.inl rfl, rfl, fun agenda => ?_⟩
    simp only [Walk.enter, if_neg hStored]
    rfl

theorem isTried_of_enter {v : Walk}
    (hEnter : (t.walk.withAgenda []).enter setup file = v) {other : Path}
    (hTried : t.walk.isTried other = true ∨ other = file) : v.isTried other = true := by
  rw [← hEnter]
  exact (Walk.enters_enter setup _ file).isTried hTried

theorem Sparing.started (hSparing : t.Sparing setup) (hNew : t.walk.isTried file = false)
    (hStored : file ∈ setup.system.stored) (hReads : next.reads = t.reads ++ [file])
    (hBegun : next.begun = t.begun)
    (hTried : ∀ other, t.walk.isTried other = true ∨ other = file →
      (next.start setup file).walk.isTried other = true) :
    (next.start setup file).Sparing setup := by
  constructor
  · have hOnce := hSparing.reads.snoc hNew hTried
    rwa [← hReads] at hOnce
  · have hOnce := hSparing.begun.snoc hNew hTried
    rwa [← hBegun] at hOnce
  · intro other hOther
    rcases List.mem_append.mp hOther with hOld | hLast
    · rw [hBegun] at hOld
      exact hSparing.stored other hOld
    · rw [List.mem_singleton.mp hLast]
      exact hStored

theorem Sparing.failed (hSparing : t.Sparing setup) (hNew : t.walk.isTried file = false)
    (hReads : next.reads = t.reads ∨ next.reads = t.reads ++ [file]) (hBegun : next.begun = t.begun)
    (hTried : ∀ other, t.walk.isTried other = true ∨ other = file →
      next.walk.isTried other = true) : next.Sparing setup := by
  have hOld : ∀ other, t.walk.isTried other = true → next.walk.isTried other = true :=
    fun other hOther => hTried other (Or.inl hOther)
  constructor
  · rcases hReads with hReads | hReads
    · rw [hReads]
      exact hSparing.reads.mono hOld
    · rw [hReads]
      exact hSparing.reads.snoc hNew hTried
  · rw [hBegun]
    exact hSparing.begun.mono hOld
  · rw [hBegun]
    exact hSparing.stored

/-! ## The agenda is what is left of the recursion -/

/-- The walk that still has `agenda` to do behind a part of the recursion ends as it should: it goes
on with the agenda, or it has ended with the same error and the same diagnostics. -/
def Agrees (setup : WalkSetup) (agenda : List Task) (t : Tour) (error : Option GraphError)
    (ended : Walk × Option GraphError) : Prop :=
  match error with
  | none => ended = (t.walk.withAgenda agenda).run setup
  | some e => ended.2 = some e ∧ ended.1.diagnostics = t.walk.diagnostics

/-- A part of the recursion comes to its end, asks for nothing twice, and does what the walk does
from `before`, whatever else is on the agenda. -/
def Completes (setup : WalkSetup) (t : Tour) (before : List Task → Walk)
    (outcome : Option (Tour × Option GraphError)) : Prop :=
  ∃ next error, outcome = some (next, error) ∧ next.Sparing setup ∧
    (∀ file, t.walk.isTried file = true → next.walk.isTried file = true) ∧
    ∀ agenda, Agrees setup agenda next error ((before agenda).run setup)

/-- What is asked of visits: from every tour with at most `limit` files left to try. -/
def Visits (setup : WalkSetup) (limit : Nat)
    (visit : Tour → Path → Option (Tour × Option GraphError)) : Prop :=
  ∀ (t : Tour) (file : Path), t.Sparing setup → t.walk.isTried file = false →
    t.walk.untried setup ≤ limit →
    Completes setup t (fun agenda => (t.walk.withAgenda agenda).enter setup file) (visit t file)

/-- The recursion and the walk follow an edge alike: both refuse it, pass it over, or enter it. -/
theorem follow_cases (setup : WalkSetup) (t : Tour) (target : Path) :
    (∃ e, (∀ visit, t.follow setup visit target = some (t, some e)) ∧
      ∀ agenda, (t.walk.withAgenda agenda).follow setup target = .error e) ∨
    ((∀ visit, t.follow setup visit target = some (t, none)) ∧
      ∀ agenda, (t.walk.withAgenda agenda).follow setup target = .ok (t.walk.withAgenda agenda)) ∨
    t.walk.isTried target = false ∧ (∀ visit, t.follow setup visit target = visit t target) ∧
      ∀ agenda, (t.walk.withAgenda agenda).follow setup target =
        .ok ((t.walk.withAgenda agenda).enter setup target) := by
  by_cases hTrail : target ∈ t.walk.trail
  · have hWalk : ∀ agenda, target ∈ (t.walk.withAgenda agenda).trail := fun _ => hTrail
    cases hCycles : setup.cycles with
    | fail =>
      refine Or.inl ⟨.importCycle (t.walk.cycleTo target), fun visit => ?_, fun agenda => ?_⟩
      · rw [follow, if_pos hTrail, hCycles]
      · rw [Walk.follow, if_pos (hWalk agenda), hCycles]
        rfl
    | tolerate =>
      refine Or.inr (Or.inl ⟨fun visit => ?_, fun agenda => ?_⟩)
      · rw [follow, if_pos hTrail, hCycles]
      · rw [Walk.follow, if_pos (hWalk agenda), hCycles]
  · have hWalk : ∀ agenda, target ∉ (t.walk.withAgenda agenda).trail := fun _ => hTrail
    by_cases hTried : t.walk.isTried target = true
    · have hKnown : ∀ agenda, (t.walk.withAgenda agenda).isTried target = true := fun _ => hTried
      refine Or.inr (Or.inl ⟨fun visit => ?_, fun agenda => ?_⟩)
      · rw [follow, if_neg hTrail, if_pos hTried]
      · rw [Walk.follow, if_neg (hWalk agenda), if_pos (hKnown agenda)]
    · have hNew : ∀ agenda, ¬ (t.walk.withAgenda agenda).isTried target = true := fun _ => hTried
      refine Or.inr (Or.inr ⟨Bool.eq_false_iff.mpr hTried, fun visit => ?_, fun agenda => ?_⟩)
      · rw [follow, if_neg hTrail, if_neg hTried]
      · rw [Walk.follow, if_neg (hWalk agenda), if_neg (hNew agenda)]

theorem problem?_of_no_edge {task : Task} (hEdge : task.edge? setup = none)
    (hTask : task ≠ .leave) :
    ∃ d, task.problem? setup = some d ∧ ∀ w : Walk,
      w.perform setup task = .ok { w with diagnostics := w.diagnostics ++ [d] } := by
  cases task with
  | companion source target => cases hEdge
  | leave => exact absurd rfl hTask
  | importing source command =>
    have hFile := Option.map_eq_none_iff.mp hEdge
    refine ⟨_, by simp only [Task.problem?, hFile]; rfl, fun w => ?_⟩
    simp only [Walk.perform, hFile]

theorem perform_completes {limit : Nat} {visit : Tour → Path → Option (Tour × Option GraphError)}
    {task : Task} (hVisits : Visits setup limit visit) (hTask : task ≠ .leave)
    (hSparing : t.Sparing setup) (hUntried : t.walk.untried setup ≤ limit) :
    Completes setup t (fun agenda => t.walk.withAgenda (task :: agenda))
      (t.perform setup visit task) := by
  rw [perform]
  cases hEdge : task.edge? setup with
  | none =>
    obtain ⟨d, hProblem, hPerform⟩ := problem?_of_no_edge hEdge hTask
    simp only [hProblem]
    refine ⟨_, _, rfl, hSparing.report d, fun _ hTried => hTried, fun agenda => ?_⟩
    exact Walk.run_withAgenda_of_ok (hPerform _)
  | some e =>
    have hPerform : ∀ agenda, (t.walk.withAgenda agenda).perform setup task =
        ((t.addEdge e).walk.withAgenda agenda).follow setup e.target := fun agenda =>
      Walk.perform_of_edge hEdge
    obtain ⟨error, hTour, hWalk⟩ | ⟨hTour, hWalk⟩ | ⟨hNew, hTour, hWalk⟩ :=
      follow_cases setup (t.addEdge e) e.target
    · refine ⟨_, _, hTour visit, hSparing.addEdge e, fun _ hTried => hTried, fun agenda => ?_⟩
      rw [Walk.run_withAgenda_of_error ((hPerform agenda).trans (hWalk agenda))]
      exact ⟨rfl, rfl⟩
    · refine ⟨_, _, hTour visit, hSparing.addEdge e, fun _ hTried => hTried, fun agenda => ?_⟩
      exact Walk.run_withAgenda_of_ok ((hPerform agenda).trans (hWalk agenda))
    · obtain ⟨next, error, hVisit, hNext, hTried, hAgrees⟩ :=
        hVisits (t.addEdge e) e.target (hSparing.addEdge e) hNew hUntried
      refine ⟨next, error, (hTour visit).trans hVisit, hNext, hTried, fun agenda => ?_⟩
      rw [Walk.run_withAgenda_of_ok ((hPerform agenda).trans (hWalk agenda))]
      exact hAgrees agenda

theorem performAll_completes {limit : Nat} {visit : Tour → Path → Option (Tour × Option GraphError)}
    (hVisits : Visits setup limit visit) {tasks : List Task} (hTasks : .leave ∉ tasks)
    (hSparing : t.Sparing setup) (hUntried : t.walk.untried setup ≤ limit) :
    Completes setup t (fun agenda => t.walk.withAgenda (tasks ++ agenda))
      (t.performAll setup visit tasks) := by
  induction tasks generalizing t with
  | nil => exact ⟨t, none, rfl, hSparing, fun _ hTried => hTried, fun agenda => rfl⟩
  | cons task rest ih =>
    rw [List.mem_cons, not_or] at hTasks
    obtain ⟨next, error, hPerform, hNext, hTried, hAgrees⟩ :=
      perform_completes hVisits (Ne.symm hTasks.1) hSparing hUntried
    rw [performAll, hPerform]
    cases error with
    | some e => exact ⟨next, some e, rfl, hNext, hTried, fun agenda => hAgrees (rest ++ agenda)⟩
    | none =>
      obtain ⟨last, error, hRest, hLast, hMore, hEnd⟩ :=
        ih hTasks.2 hNext (Nat.le_trans (Walk.untried_le_of_tried hTried) hUntried)
      refine ⟨last, error, hRest, hLast, fun file hFile => hMore file (hTried file hFile), ?_⟩
      intro agenda
      -- Behind the first task, the agenda is the rest of the tasks.
      have hFirst : (t.walk.withAgenda (task :: (rest ++ agenda))).run setup =
          (next.walk.withAgenda (rest ++ agenda)).run setup := hAgrees (rest ++ agenda)
      change Agrees setup agenda last error
        ((t.walk.withAgenda (task :: (rest ++ agenda))).run setup)
      rw [hFirst]
      exact hEnd agenda

theorem leave_not_mem_tasksOf (setup : WalkSetup) (d : SourceFile) :
    .leave ∉ setup.tasksOf d := by
  intro hLeave
  obtain ⟨target, hTask, -⟩ | ⟨command, hTask⟩ := Walk.source_of_mem_tasksOf hLeave
  · cases hTask
  · cases hTask

theorem visits_visit {room limit : Nat} (hRoom : room < limit) :
    Visits setup room (visit setup limit) := by
  induction limit generalizing room with
  | zero => exact absurd hRoom (Nat.not_lt_zero room)
  | succ limit ih =>
    intro t file hSparing hNew hUntried
    rw [visit]
    obtain ⟨d, next, hStored, hLoad, hReads, hBegun, hEnter⟩ |
      ⟨next, hLoad, hReads, hBegun, hEnter⟩ :=
      load_cases setup hNew
    · have hTried : ∀ other, t.walk.isTried other = true ∨ other = file →
          (next.start setup file).walk.isTried other = true := fun other =>
        isTried_of_enter (hEnter [])
      have hStart := hSparing.started hNew hStored hReads hBegun hTried
      -- The file itself has been tried by now, so one limit less is enough for what it leads to.
      have hLess : (next.start setup file).walk.untried setup < t.walk.untried setup :=
        Walk.untried_lt_of_tried (fun other hOther => hTried other (Or.inl hOther)) hStored hNew
          (hTried file (Or.inr rfl))
      have hLimit : (next.start setup file).walk.untried setup < limit := by omega
      obtain ⟨last, error, hTasks, hLast, hMore, hAgrees⟩ :=
        performAll_completes (ih hLimit) (leave_not_mem_tasksOf setup d) hStart (Nat.le_refl _)
      have hOld : ∀ other, t.walk.isTried other = true → last.walk.isTried other = true :=
        fun other hOther => hMore other (hTried other (Or.inl hOther))
      rw [hLoad]
      simp only [hTasks]
      cases error with
      | some e =>
        refine ⟨last, some e, rfl, hLast, hOld, fun agenda => ?_⟩
        beta_reduce
        rw [hEnter agenda]
        exact hAgrees (.leave :: agenda)
      | none =>
        refine ⟨last.leave, none, rfl, hLast.leave, hOld, fun agenda => ?_⟩
        have hRun : ((next.start setup file).walk.withAgenda
            (setup.tasksOf d ++ .leave :: agenda)).run setup =
            (last.walk.withAgenda (.leave :: agenda)).run setup := hAgrees (.leave :: agenda)
        beta_reduce
        rw [hEnter agenda, hRun]
        exact Walk.run_withAgenda_of_ok rfl
    · have hTried : ∀ other, t.walk.isTried other = true ∨ other = file →
          next.walk.isTried other = true := fun other => isTried_of_enter (hEnter [])
      have hOld : ∀ other, t.walk.isTried other = true → next.walk.isTried other = true :=
        fun other hOther => hTried other (Or.inl hOther)
      rw [hLoad]
      refine ⟨next, none, rfl, hSparing.failed hNew hReads hBegun hTried, hOld, fun agenda => ?_⟩
      exact congrArg (Walk.run setup) (hEnter agenda)

end Tour

theorem Graph.exists_visit (setup : WalkSetup) (entry : Path) :
    ∃ tour error,
      Tour.visit setup (setup.system.stored.dedup.length + 1) {} (setup.entryFile entry) =
        some (tour, error) ∧
      build setup entry = tour.result (setup.entryFile entry) error ∧ tour.Sparing setup := by
  have hSparing : Tour.Sparing setup {} :=
    ⟨⟨List.nodup_nil, nofun⟩, ⟨List.nodup_nil, nofun⟩, nofun⟩
  obtain ⟨tour, error, hVisit, hTour, -, hAgrees⟩ :=
    Tour.visits_visit (Nat.lt_succ_self _) {} (setup.entryFile entry) hSparing rfl
      (List.countP_le_length)
  refine ⟨tour, error, hVisit, ?_, hTour⟩
  have hOutcome : Tour.Agrees setup [] tour error (setup.outcome entry) := hAgrees []
  rw [build_eq]
  cases error with
  | some e => rw [hOutcome.1, hOutcome.2, Tour.result]
  | none =>
    have hRun : setup.outcome entry = (tour.walk.withAgenda [], none) :=
      hOutcome.trans (Walk.run_of_nil rfl)
    rw [hRun]
    rfl

/-- Building a graph is a visit of the entry file. At most one more than the number of stored files
is inside one another, every stored file is begun at most once, and no file is read twice. -/
theorem Graph.build_by_visits (setup : WalkSetup) (entry : Path) :
    ∃ tour error,
      Tour.visit setup (setup.system.stored.dedup.length + 1) {} (setup.entryFile entry) =
        some (tour, error) ∧
      build setup entry = tour.result (setup.entryFile entry) error ∧
      tour.begun.Nodup ∧ (∀ file ∈ tour.begun, file ∈ setup.system.stored) ∧ tour.reads.Nodup := by
  obtain ⟨tour, error, hVisit, hBuild, hTour⟩ := exists_visit setup entry
  exact ⟨tour, error, hVisit, hBuild, hTour.begun.nodup, hTour.stored, hTour.reads.nodup⟩

end BraceDoc
