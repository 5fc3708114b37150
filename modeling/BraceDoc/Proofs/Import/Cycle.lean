import BraceDoc.Proofs.Import.Outcome
import Mathlib.Data.List.Chain
import Mathlib.Data.List.Nodup

/-!
# Cycles of imports

A walk that passes over imports of files being walked and a walk that ends at the first of them do
the same up to there. As long as no such import comes, the edges have no cycle: an edge into the
trail starts further out on the trail, so nothing off the trail leads back to it. The first one
that comes closes a cycle along the trail. Hence the strict walk fails just when the edges of the
tolerant walk have a cycle.
-/

set_option autoImplicit false

namespace BraceDoc

namespace Edge

def Acyclic (edges : List Edge) : Prop :=
  ∀ x, ¬ Relation.TransGen (Links edges) x x

/-- A closed way along edges that comes to no file twice before it closes. -/
structure IsCycle (edges : List Edge) (cycle : List Path) : Prop where
  length : 2 ≤ cycle.length
  closed : cycle.head? = cycle.getLast?
  nodup : cycle.dropLast.Nodup
  chain : cycle.IsChain (Links edges)

theorem IsCycle.not_acyclic {edges : List Edge} {cycle : List Path}
    (hCycle : IsCycle edges cycle) : ¬ Acyclic edges := by
  obtain ⟨hLength, hClosed, -, hChain⟩ := hCycle
  match cycle, hLength with
  | first :: second :: rest, _ =>
    intro hAcyclic
    obtain ⟨hLinks, hRest⟩ := List.isChain_cons_cons.mp hChain
    have hLast : (second :: rest).getLast (List.cons_ne_nil _ _) = first := by
      rw [List.getLast?_cons_cons, List.head?_cons,
        List.getLast?_eq_some_getLast (List.cons_ne_nil _ _)] at hClosed
      exact (Option.some.inj hClosed).symm
    have hBack : Relation.ReflTransGen (Links edges) second first :=
      List.relationReflTransGen_of_exists_isChain_cons rest hRest hLast
    exact hAcyclic first (Relation.TransGen.head' hLinks hBack)

theorem IsCycle.append {edges : List Edge} {cycle : List Path} (hCycle : IsCycle edges cycle)
    (more : List Edge) : IsCycle (edges ++ more) cycle :=
  ⟨hCycle.length, hCycle.closed, hCycle.nodup,
    hCycle.chain.imp fun _ _ hLinks => hLinks.append more⟩

theorem links_append_iff {edges : List Edge} {e : Edge} {x y : Path} :
    Links (edges ++ [e]) x y ↔ Links edges x y ∨ x = e.source ∧ y = e.target := by
  constructor
  · rintro ⟨e', he, rfl, rfl⟩
    rcases List.mem_append.mp he with he | he
    · exact Or.inl ⟨e', he, rfl, rfl⟩
    · rw [List.mem_singleton.mp he]
      exact Or.inr ⟨rfl, rfl⟩
  · rintro (hLinks | ⟨rfl, rfl⟩)
    · exact hLinks.append [e]
    · exact ⟨e, List.mem_append_right _ List.mem_cons_self, rfl, rfl⟩

theorem transGen_append {edges : List Edge} {e : Edge} {x y : Path}
    (hPath : Relation.TransGen (Links (edges ++ [e])) x y) :
    Relation.TransGen (Links edges) x y ∨
      Relation.ReflTransGen (Links edges) x e.source ∧
        Relation.ReflTransGen (Links edges) e.target y := by
  induction hPath with
  | single hLinks =>
    rcases links_append_iff.mp hLinks with hOld | ⟨rfl, rfl⟩
    · exact Or.inl (.single hOld)
    · exact Or.inr ⟨.refl, .refl⟩
  | tail hPath hLinks ih =>
    rcases links_append_iff.mp hLinks with hOld | ⟨rfl, rfl⟩
    · rcases ih with ih | ⟨hBefore, hAfter⟩
      · exact Or.inl (ih.tail hOld)
      · exact Or.inr ⟨hBefore, hAfter.tail hOld⟩
    · rcases ih with ih | ⟨hBefore, hAfter⟩
      · exact Or.inr ⟨ih.to_reflTransGen, .refl⟩
      · exact Or.inr ⟨hBefore, .refl⟩

/-- A new edge closes no cycle unless its target leads to its source. -/
theorem Acyclic.append {edges : List Edge} {e : Edge} (hAcyclic : Acyclic edges)
    (hApart : ¬ Relation.ReflTransGen (Links edges) e.target e.source) :
    Acyclic (edges ++ [e]) := by
  intro x hCycle
  rcases transGen_append hCycle with hOld | ⟨hBefore, hAfter⟩
  · exact hAcyclic x hOld
  · exact hApart (hAfter.trans hBefore)

end Edge

def Task.source? : Task → Option Path
  | .companion source _ => some source
  | .importing source _ => some source
  | .leave => none

theorem Task.source?_of_edge? {setup : WalkSetup} {task : Task} {e : Edge}
    (hEdge : task.edge? setup = some e) : task.source? = some e.source := by
  cases task with
  | companion source target =>
    cases hEdge
    rfl
  | importing source command =>
    obtain ⟨path, -, rfl⟩ := Option.map_eq_some_iff.mp hEdge
    rfl
  | leave => cases hEdge

namespace Walk

/-- The agenda holds the tasks of the files of the trail, each group closed by a `leave`. -/
inductive Bracketed : List Path → List Task → Prop
  | done : Bracketed [] []
  | leave {trail : List Path} {agenda : List Task} (file : Path) (hRest : Bracketed trail agenda) :
      Bracketed (file :: trail) (.leave :: agenda)
  | task {file : Path} {trail : List Path} {task : Task} {agenda : List Task}
      (hSource : task.source? = some file) (hRest : Bracketed (file :: trail) agenda) :
      Bracketed (file :: trail) (task :: agenda)

theorem Bracketed.append {file : Path} {trail : List Path} {agenda : List Task}
    (hRest : Bracketed (file :: trail) agenda) {tasks : List Task}
    (hTasks : ∀ task ∈ tasks, task.source? = some file) :
    Bracketed (file :: trail) (tasks ++ agenda) := by
  induction tasks with
  | nil => exact hRest
  | cons task tasks ih =>
    refine .task (hTasks task List.mem_cons_self) (ih ?_)
    intro other hOther
    exact hTasks other (List.mem_cons_of_mem _ hOther)

theorem Bracketed.of_source {trail : List Path} {task : Task} {agenda : List Task} {file : Path}
    (hBracketed : Bracketed trail (task :: agenda)) (hSource : task.source? = some file) :
    (∃ outer, trail = file :: outer) ∧ Bracketed trail agenda := by
  cases hBracketed with
  | leave _ hRest => cases hSource
  | task hOwn hRest =>
    cases hOwn.symm.trans hSource
    exact ⟨⟨_, rfl⟩, hRest⟩

theorem Bracketed.of_leave {trail : List Path} {agenda : List Task}
    (hBracketed : Bracketed trail (.leave :: agenda)) : Bracketed trail.tail agenda := by
  cases hBracketed with
  | leave _ hRest => exact hRest
  | task hOwn hRest => cases hOwn

theorem source?_of_mem_tasksOf {setup : WalkSetup} {d : SourceFile} {task : Task}
    (hTask : task ∈ setup.tasksOf d) : task.source? = some d.file := by
  obtain ⟨target, rfl, -⟩ | ⟨command, rfl⟩ := source_of_mem_tasksOf hTask
  · rfl
  · rfl

/-- A walk that has met no import of a file being walked. -/
structure Forward (w : Walk) : Prop where
  bracketed : Bracketed w.trail w.agenda
  nodup : w.trail.Nodup
  chain : w.trail.IsChain fun inner outer => Edge.Links w.edges outer inner
  /-- An edge into the trail starts further out. -/
  outward : ∀ e ∈ w.edges, ∀ inner outer, w.trail = inner ++ e.target :: outer → e.source ∈ outer
  acyclic : Edge.Acyclic w.edges

/-- The task at the head of the agenda belongs to the innermost file. -/
theorem Forward.of_source {w : Walk} {task : Task} {rest : List Task} {file : Path}
    (hForward : Forward w) (hAgenda : w.agenda = task :: rest)
    (hSource : task.source? = some file) :
    (∃ outer, w.trail = file :: outer) ∧ Bracketed w.trail rest := by
  have hBracketed := hForward.bracketed
  rw [hAgenda] at hBracketed
  exact hBracketed.of_source hSource

theorem Forward.fail {w : Walk} (hForward : Forward w) (file : Path) (problem : Problem) :
    Forward (w.fail file problem) :=
  ⟨hForward.bracketed, hForward.nodup, hForward.chain, hForward.outward, hForward.acyclic⟩

theorem Forward.not_mem_trail {w : Walk} (hForward : Forward w) {x y : Path} (hx : x ∉ w.trail)
    (hPath : Relation.ReflTransGen (Edge.Links w.edges) x y) : y ∉ w.trail := by
  induction hPath with
  | refl => exact hx
  | tail _ hLinks ih =>
    obtain ⟨e, he, rfl, rfl⟩ := hLinks
    intro hTarget
    obtain ⟨inner, outer, hTrail⟩ := List.append_of_mem hTarget
    apply ih
    rw [hTrail]
    exact List.mem_append_right _
      (List.mem_cons_of_mem _ (hForward.outward e he inner outer hTrail))

theorem Forward.addEdge {setup : WalkSetup} {w : Walk} {task : Task} {rest : List Task} {e : Edge}
    (hForward : Forward w) (hAgenda : w.agenda = task :: rest)
    (hEdge : task.edge? setup = some e) (hTarget : e.target ∉ w.trail) :
    Forward (({ w with agenda := rest } : Walk).addEdge e) := by
  obtain ⟨⟨outer, hTrail⟩, hRest⟩ := hForward.of_source hAgenda (Task.source?_of_edge? hEdge)
  constructor
  case bracketed => exact hRest
  case nodup => exact hForward.nodup
  case chain => exact hForward.chain.imp fun _ _ hLinks => hLinks.append [e]
  case outward =>
    intro x hx inner outer hSplit
    rcases List.mem_append.mp hx with hx | hx
    · exact hForward.outward x hx inner outer hSplit
    · rw [List.mem_singleton.mp hx] at hSplit
      refine absurd ?_ hTarget
      change w.trail = inner ++ e.target :: outer at hSplit
      rw [hSplit]
      exact List.mem_append_right _ List.mem_cons_self
  case acyclic =>
    refine hForward.acyclic.append ?_
    intro hPath
    apply hForward.not_mem_trail hTarget hPath
    rw [hTrail]
    exact List.mem_cons_self

theorem Forward.load {setup : WalkSetup} {w : Walk} {file : Path} {source : String}
    (hForward : Forward w) (hNew : file ∉ w.trail)
    (hLinks : ∀ outer ∈ w.trail.head?, Edge.Links w.edges outer file)
    (hSources : ∀ e ∈ w.edges, e.target = file → e.source ∈ w.trail) :
    Forward (w.load setup file source) := by
  constructor
  case bracketed =>
    rw [trail_load, agenda_load]
    exact (Bracketed.leave file hForward.bracketed).append fun task hTask =>
      source?_of_mem_tasksOf hTask
  case nodup =>
    rw [trail_load, List.nodup_cons]
    exact ⟨hNew, hForward.nodup⟩
  case chain =>
    rw [trail_load, edges_load, List.isChain_cons]
    exact ⟨hLinks, hForward.chain⟩
  case outward =>
    intro e he inner outer hSplit
    rw [trail_load] at hSplit
    cases inner with
    | nil =>
      obtain ⟨hTarget, hOuter⟩ := List.cons.inj hSplit
      rw [← hOuter]
      exact hSources e he hTarget.symm
    | cons _ inner =>
      rw [List.cons_append] at hSplit
      exact hForward.outward e he inner outer (List.cons.inj hSplit).2
  case acyclic => exact hForward.acyclic

theorem Forward.does {setup : WalkSetup} {w next : Walk} {task : Task} {rest : List Task}
    (hForward : Forward w) (hTargets : ∀ e ∈ w.edges, w.isTried e.target = true)
    (hAgenda : w.agenda = task :: rest)
    (hAway : ∀ e, task.edge? setup = some e → e.target ∉ w.trail)
    (hDoes : Does setup { w with agenda := rest } task next) : Forward next := by
  cases hDoes with
  | edge e _ hEdge hProblem hArrives =>
    have hAdded := hForward.addEdge hAgenda hEdge (hAway e hEdge)
    obtain ⟨⟨outer, hTrail⟩, -⟩ := hForward.of_source hAgenda (Task.source?_of_edge? hEdge)
    cases hArrives with
    | known hKnown => exact hAdded
    | entered _ hTried _ hEnters =>
      cases hEnters with
      | failed problem hProblem => exact hAdded.fail _ _
      | loaded source hStored hRead =>
        refine hAdded.load (hAway e hEdge) ?_ ?_
        · intro first hFirst
          change w.trail.head? = some first at hFirst
          rw [hTrail, List.head?_cons] at hFirst
          rw [← Option.some.inj hFirst]
          exact ⟨e, List.mem_append_right _ List.mem_cons_self, rfl, rfl⟩
        · -- The target had not been tried, so the new edge is the first one to it.
          intro x hx hTarget
          rcases List.mem_append.mp hx with hx | hx
          · have hOld := hTargets x hx
            rw [hTarget] at hOld
            cases hOld.symm.trans hTried
          · rw [List.mem_singleton.mp hx]
            change e.source ∈ w.trail
            rw [hTrail]
            exact List.mem_cons_self
  | problem d hEdge hProblem =>
    have hSource : ∃ file, task.source? = some file := by
      cases task with
      | leave => cases hProblem
      | companion source target => exact ⟨source, rfl⟩
      | importing source command => exact ⟨source, rfl⟩
    obtain ⟨file, hSource⟩ := hSource
    exact ⟨(hForward.of_source hAgenda hSource).2, hForward.nodup, hForward.chain, hForward.outward,
      hForward.acyclic⟩
  | leave hLeave =>
    subst hLeave
    have hBracketed := hForward.bracketed
    rw [hAgenda] at hBracketed
    refine ⟨hBracketed.of_leave, hForward.nodup.tail, hForward.chain.tail, ?_, hForward.acyclic⟩
    intro e he inner outer hSplit
    change w.trail.tail = inner ++ e.target :: outer at hSplit
    cases hTrail : w.trail with
    | nil =>
      rw [hTrail] at hSplit
      exact absurd hSplit.symm (List.append_ne_nil_of_right_ne_nil _ (List.cons_ne_nil _ _))
    | cons file trail =>
      refine hForward.outward e he (file :: inner) outer ?_
      rw [hTrail] at hSplit ⊢
      exact congrArg (file :: ·) hSplit

theorem forward_empty : Forward {} := by
  refine ⟨.done, List.nodup_nil, List.isChain_nil, ?_, ?_⟩
  · intro e he
    cases he
  · intro x hPath
    obtain ⟨y, ⟨e, he, -⟩, -⟩ := Relation.TransGen.head'_iff.mp hPath
    cases he

theorem forward_start (setup : WalkSetup) (entry : Path) : Forward (setup.start entry) := by
  have hEnters := enters_enter setup {} (setup.entryFile entry)
  rw [WalkSetup.start]
  generalize ({} : Walk).enter setup (setup.entryFile entry) = next at hEnters ⊢
  cases hEnters with
  | loaded source =>
    refine forward_empty.load List.not_mem_nil ?_ ?_
    · intro outer hOuter
      cases hOuter
    · intro e he
      cases he
  | failed problem => exact forward_empty.fail _ _

theorem agenda_start_eq_nil {setup : WalkSetup} {entry : Path}
    (hLoaded : setup.entryFile entry ∉ (setup.start entry).files) :
    (setup.start entry).agenda = [] := by
  have hEnters := enters_enter setup {} (setup.entryFile entry)
  rw [WalkSetup.start] at hLoaded ⊢
  generalize ({} : Walk).enter setup (setup.entryFile entry) = next at hEnters hLoaded ⊢
  cases hEnters with
  | loaded source =>
    rw [files_load] at hLoaded
    exact absurd (List.mem_append_right _ List.mem_cons_self) hLoaded
  | failed problem => rfl

/-- The way along the trail from a file on it to the innermost file, closed by an edge back. -/
theorem Forward.isCycle_cycleTo {w : Walk} {e : Edge} {outer : List Path} (hForward : Forward w)
    (hTrail : w.trail = e.source :: outer) (hTarget : e.target ∈ w.trail) :
    Edge.IsCycle (w.edges ++ [e]) (w.cycleTo e.target) := by
  obtain ⟨inner, rest, hSplit, hFirst⟩ := List.eq_append_cons_of_mem hTarget
  have hInner : w.trail.takeWhile (fun x => decide (x ≠ e.target)) = inner := by
    rw [hSplit, List.takeWhile_append_of_pos, List.takeWhile_cons_of_neg, List.append_nil]
    · simp
    · intro x hx
      apply decide_eq_true
      rintro rfl
      exact hFirst hx
  have hWay : (inner ++ [e.target]).IsChain fun x y => Edge.Links (w.edges ++ [e]) y x := by
    have hChain := hForward.chain
    rw [hSplit, ← List.singleton_append, ← List.append_assoc] at hChain
    exact hChain.left_of_append.imp fun _ _ hLinks => hLinks.append [e]
  have hHead : (inner ++ [e.target]).head? = some e.source := by
    have hFirst : (inner ++ e.target :: rest).head? = some e.source := by
      rw [← hSplit, hTrail, List.head?_cons]
    cases inner with
    | nil => exact hFirst
    | cons first inner => exact hFirst
  rw [cycleTo, hInner]
  constructor
  case length =>
    simp only [List.length_append, List.length_cons, List.length_nil]
    omega
  case closed =>
    rw [List.getLast?_append]
    rfl
  case nodup =>
    have hNodup := hForward.nodup
    rw [hSplit, ← List.singleton_append, ← List.append_assoc] at hNodup
    rw [List.dropLast_concat, ← List.nodup_reverse, List.reverse_cons, List.reverse_reverse]
    exact (List.nodup_append.mp hNodup).1
  case chain =>
    have hReversed : e.target :: inner.reverse = (inner ++ [e.target]).reverse := by
      rw [List.reverse_append, List.reverse_singleton, List.singleton_append]
    rw [hReversed, List.isChain_append]
    refine ⟨List.isChain_reverse.mpr hWay, List.isChain_singleton _, ?_⟩
    intro x hx y hy
    rw [List.getLast?_reverse, hHead] at hx
    cases hx
    cases hy
    exact ⟨e, List.mem_append_right _ List.mem_cons_self, rfl, rfl⟩

/-! ## Both policies on one project -/

/-- Either the strict walk is the tolerant one and the edges have no cycle, or it ends with a cycle
among the edges of the tolerant one. -/
theorem run_cases {setup : WalkSetup} {entry : Path} {w : Walk}
    (hCourse : Course (setup.under .tolerate) entry w) (hForward : Forward w) :
    w.run (setup.under .fail) = w.run (setup.under .tolerate) ∧
        Edge.Acyclic (w.run (setup.under .tolerate)).1.edges ∨
      ∃ cycle, (w.run (setup.under .fail)).2 = some (.importCycle cycle) ∧
        Edge.IsCycle (w.run (setup.under .tolerate)).1.edges cycle := by
  induction w using run.induct (setup.under .tolerate) with
  | case1 w hAgenda =>
    rw [run_of_nil hAgenda, run_of_nil hAgenda]
    exact Or.inl ⟨rfl, hForward.acyclic⟩
  | case2 w task rest hAgenda next hPerform ih =>
    rw [run_of_ok hAgenda hPerform]
    obtain ⟨e, hEdge, hBack, hOk, hError⟩ | ⟨hAway, next', hOk⟩ :=
      perform_cases setup { w with agenda := rest } task
    · -- The strict walk ends here; the tolerant one goes on and keeps the edges of the cycle.
      cases hPerform.symm.trans hOk
      refine Or.inr ⟨w.cycleTo e.target, ?_, ?_⟩
      · rw [run_of_error hAgenda hError]
        rfl
      · obtain ⟨⟨outer, hTrail⟩, -⟩ :=
          hForward.of_source hAgenda (Task.source?_of_edge? hEdge)
        obtain ⟨more, hEdges⟩ := exists_edges_run (setup.under .tolerate)
          (({ w with agenda := rest } : Walk).addEdge e)
        rw [hEdges]
        exact (hForward.isCycle_cycleTo hTrail hBack).append more
    · cases hPerform.symm.trans (hOk .tolerate)
      rw [run_of_ok hAgenda (hOk .fail)]
      have hDoes := does_of_perform hPerform
      refine ih (hCourse.does hAgenda hDoes) (hForward.does hCourse.targets hAgenda ?_ hDoes)
      intro e hEdge
      exact hAway e ((edge?_under .tolerate task).symm.trans hEdge)
  | case3 w task rest hAgenda e hPerform =>
    have hNone := run_tolerate setup w
    rw [run_of_error hAgenda hPerform] at hNone
    cases hNone

end Walk

namespace Graph

def Acyclic (g : Graph) : Prop :=
  Edge.Acyclic g.edges

theorem build_eq_of_outcome {setup : WalkSetup} {entry : Path}
    (hOutcome : (setup.under .fail).outcome entry = (setup.under .tolerate).outcome entry) :
    build (setup.under .fail) entry = build (setup.under .tolerate) entry := by
  rw [build_eq, build_eq, hOutcome, WalkSetup.entryFile_under, WalkSetup.entryFile_under]

/-- The strict policy gives what the tolerant one gives, unless that is a graph with a cycle; then
it gives such a cycle. -/
theorem build_under_fail (setup : WalkSetup) (entry : Path) :
    (∃ file, (build (setup.under .tolerate) entry).graph = .error (.entryNotFound file) ∧
      build (setup.under .fail) entry = build (setup.under .tolerate) entry) ∨
    ∃ g, (build (setup.under .tolerate) entry).graph = .ok g ∧
      (g.Acyclic ∧ build (setup.under .fail) entry = build (setup.under .tolerate) entry ∨
        ¬ g.Acyclic ∧ ∃ cycle, Edge.IsCycle g.edges cycle ∧
          (build (setup.under .fail) entry).graph = .error (.importCycle cycle)) := by
  have hEnd := setup.outcome_tolerate entry
  by_cases hLoaded : setup.entryFile entry ∈ ((setup.under .tolerate).outcome entry).1.files
  · rw [build_of_loaded hEnd hLoaded]
    refine Or.inr ⟨_, rfl, ?_⟩
    rw [← build_of_loaded hEnd hLoaded]
    obtain ⟨hSame, hAcyclic⟩ | ⟨cycle, hError, hCycle⟩ :=
      Walk.run_cases ((setup.under .tolerate).course_start entry)
        (Walk.forward_start (setup.under .tolerate) entry)
    · rw [WalkSetup.start_under, ← WalkSetup.outcome_under, ← WalkSetup.outcome_under] at hSame
      exact Or.inl ⟨hAcyclic, build_eq_of_outcome hSame⟩
    · rw [WalkSetup.start_under, ← WalkSetup.outcome_under] at hError
      exact Or.inr ⟨hCycle.not_acyclic, cycle, hCycle,
        congrArg GraphResult.graph (build_of_refused hError)⟩
  · -- An entry that was not loaded leaves nothing to do under either policy.
    rw [WalkSetup.outcome_under] at hLoaded
    have hAgenda := Walk.agenda_start_eq_nil fun hMem => hLoaded (Walk.subset_files_run _ hMem)
    have hSame : (setup.under .fail).outcome entry = (setup.under .tolerate).outcome entry := by
      rw [WalkSetup.outcome_under, WalkSetup.outcome_under, Walk.run_of_nil hAgenda,
        Walk.run_of_nil hAgenda]
    rw [← WalkSetup.outcome_under] at hLoaded
    refine Or.inl ⟨setup.entryFile entry, ?_, build_eq_of_outcome hSame⟩
    rw [build_of_not_loaded hEnd hLoaded, WalkSetup.entryFile_under]

end Graph

end BraceDoc
