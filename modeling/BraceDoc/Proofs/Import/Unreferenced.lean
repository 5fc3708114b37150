import BraceDoc.Proofs.Import.Exact

/-!
# Files that no edge refers to

A walk asks a file system for texts, for the existence of files and for listings. An answer that a
new file would change leaves an edge to the file or to a directory above it. So a graph without such
an edge is built in the same way without the file.
-/

set_option autoImplicit false

namespace BraceDoc

def Path.IsAbove (directory file : Path) : Prop :=
  directory.parts <+: file.parts ∧ directory.parts ≠ file.parts

instance (directory file : Path) : Decidable (directory.IsAbove file) :=
  inferInstanceAs (Decidable (_ ∧ _))

/-- A target that is neither the file nor a directory above it. -/
def Path.Away (p target : Path) : Prop :=
  target ≠ p ∧ ¬ target.IsAbove p

def WalkSetup.over (setup : WalkSetup) (system : FileSystem) : WalkSetup :=
  { setup with system }

variable {setup : WalkSetup} {fs other : FileSystem} {p : Path}

/-! ## Imports -/

namespace FileSystem.DiffersAt

theorem isFile_of_away (hDiffers : fs.DiffersAt p other) {path : Path}
    (hAway : other.isFile path = true → path.normalize ≠ p) :
    fs.isFile path = other.isFile path := by
  by_cases hSelf : path.normalize = p
  · exact absurd hSelf (hAway (hDiffers.isFile_self path hSelf))
  · exact (hDiffers.isFile path hSelf).symm

theorem find?_of_away (hDiffers : fs.DiffersAt p other) {paths : List Path}
    (hAway : ∀ path, paths.find? other.isFile = some path → path.normalize ≠ p) :
    paths.find? fs.isFile = paths.find? other.isFile := by
  induction paths with
  | nil => rfl
  | cons path paths ih =>
    have hFirst : fs.isFile path = other.isFile path := by
      refine hDiffers.isFile_of_away fun hFile => hAway path ?_
      rw [List.find?_cons_of_pos hFile]
    cases hFile : other.isFile path with
    | true => rw [List.find?_cons_of_pos hFile, List.find?_cons_of_pos (hFirst.trans hFile)]
    | false =>
      have hOld : ¬ other.isFile path = true := Bool.eq_false_iff.mp hFile
      rw [List.find?_cons_of_neg hOld, List.find?_cons_of_neg (hFirst ▸ hOld)]
      refine ih fun next hNext => hAway next ?_
      rw [List.find?_cons_of_neg hOld, hNext]

theorem target?_eq (hDiffers : fs.DiffersAt p other) (r : Resolver) (importer : Path)
    (text : String) : r.target? other importer text = r.target? fs importer text := by
  simp only [Resolver.target?, hDiffers.resolve_eq]

theorem file?_of_away (hDiffers : fs.DiffersAt p other) {r : Resolver} {importer : Path}
    {text : String} (hAway : ∀ path, r.file? other importer text = some path → path.normalize ≠ p) :
    r.file? fs importer text = r.file? other importer text := by
  simp only [Resolver.file?, hDiffers.target?_eq] at hAway ⊢
  generalize r.target? fs importer text = target at hAway ⊢
  cases target with
  | none => rfl
  | some path =>
    simp only [Option.bind_some] at hAway ⊢
    have hPath : fs.isFile path = other.isFile path :=
      hDiffers.isFile_of_away fun hFile => hAway path (by rw [if_pos hFile])
    rw [hPath]
    split
    · rfl
    · rename_i hNone
      rw [if_neg hNone] at hAway
      split
      · rfl
      · rename_i hExtension
        rw [if_neg hExtension] at hAway
        exact hDiffers.find?_of_away hAway

end FileSystem.DiffersAt

theorem Task.edge?_of_away (hDiffers : fs.DiffersAt p other) {task : Task}
    (hAway : ∀ e, task.edge? (setup.over other) = some e → e.target ≠ p) :
    task.edge? (setup.over fs) = task.edge? (setup.over other) := by
  cases task with
  | companion source target => rfl
  | leave => rfl
  | importing source command =>
    have hFile : setup.resolver.file? fs source command.argText =
        setup.resolver.file? other source command.argText := by
      apply hDiffers.file?_of_away
      intro path hPath
      exact hAway _ (Option.map_eq_some_iff.mpr ⟨path, hPath, rfl⟩)
    simp only [edge?, WalkSetup.over, hFile]

/-! ## Companions -/

theorem Path.CompanionName.four_le_length {file : Path} {name : String}
    (hCompanion : file.CompanionName name) : 4 ≤ name.toList.length := by
  obtain ⟨stem, tag, extension, hStem, hExtension, hTag, rfl⟩ := hCompanion
  have hFilled := (fileName?_of_extension? hStem hExtension).1
  have hStemLength : 0 < stem.toList.length := by
    rw [List.length_pos_iff]
    simpa using hFilled
  have hTagLength : 0 < tag.toList.length := by
    rw [List.length_pos_iff]
    simpa using hTag
  have hDot : ".".toList.length = 1 := rfl
  simp only [String.toList_append, List.length_append]
  omega

theorem Path.CompanionName.part_eq {file : Path} {part : Part}
    (hCompanion : file.CompanionName part.text) : part = .name part.text := by
  have hLength := hCompanion.four_le_length
  cases part with
  | name text => rfl
  | root => exact absurd hLength (by decide)
  | here => exact absurd hLength (by decide)
  | up => exact absurd hLength (by decide)

/-- A companion whose name leads to a file is that file or a directory above it. -/
theorem Path.Leads.not_away_resolve {file : Path} {name : String} (hNormal : p.IsNormal)
    (hFile : file.IsNormal) (hCompanion : file.CompanionName name)
    (hLeads : file.dirname.Leads name p) :
    (Part.name name).Sound ∧ ¬ p.Away (file.dirname.resolve ⟨name⟩) := by
  obtain ⟨stem, _, extension, hStem, hExtension, -, -⟩ := id hCompanion
  have hName := (fileName?_of_extension? hStem hExtension).2
  have hDirectory := (hFile.isNormal_dirname hName).1
  have hAbove := hDirectory.parts_eq_steps (hLeads.ne_dot hNormal)
  obtain ⟨part, rest, hParts, rfl⟩ := hLeads
  -- The name of a companion is too long for a root or dots, so it is a name in the file's path too.
  rw [hCompanion.part_eq, hAbove] at hParts
  have hMem : Part.name part.text ∈ p.parts := by
    rw [hParts]
    exact List.mem_append_right _ List.mem_cons_self
  have hSteps : p.parts = p.steps := by
    apply hNormal.parts_eq_steps
    rintro rfl
    cases List.mem_singleton.mp (show Part.name part.text ∈ [Part.here] from hMem)
  have hSound : (Part.name part.text).Sound := sound_of_mem_steps (hSteps ▸ hMem)
  refine ⟨hSound, fun hAway => ?_⟩
  have hTarget : (file.dirname.resolve ⟨part.text⟩).IsNormal := isNormal_normalize _
  have hTargetSteps := hDirectory.steps_resolve_name hSound
  cases rest with
  | nil =>
    apply hAway.1
    rw [hTarget.eq_render, hTargetSteps, ← hParts, hSteps, ← hNormal.eq_render]
  | cons next rest =>
    have hTargetParts : (file.dirname.resolve ⟨part.text⟩).parts =
        file.dirname.steps ++ [.name part.text] := by
      rw [hTarget.parts_eq_steps, hTargetSteps]
      intro hDot
      rw [hDot] at hTargetSteps
      exact List.append_ne_nil_of_right_ne_nil _ (List.cons_ne_nil _ _) hTargetSteps.symm
    apply hAway.2
    rw [IsAbove, hTargetParts, hParts]
    constructor
    · exact ⟨next :: rest, by simp⟩
    · simp

/-- A name that leads to the file is not that of a companion, unless a companion task shows it. -/
theorem Path.Leads.isCompanionName_eq_false {file : Path} {stem extension name : String}
    (hDiffers : fs.DiffersAt p other) (hFile : file.IsNormal) (hOn : setup.companions = true)
    (hStem : file.stem? = some stem) (hExtension : file.extension? = some extension)
    (hAway : ∀ target, .companion file target ∈ (Walk.companionTasks (setup.over other) file).1 →
      p.Away target)
    (hLeads : file.dirname.Leads name p) : Walk.isCompanionName stem extension name = false := by
  rw [Bool.eq_false_iff]
  intro hIs
  have hCompanion := (companionName_iff hStem hExtension name).mpr hIs
  obtain ⟨hSound, hNear⟩ := hLeads.not_away_resolve hDiffers.normal hFile hCompanion
  have hDirectory := (hFile.isNormal_dirname (fileName?_of_extension? hStem hExtension).2).1
  obtain ⟨names, hList, hName⟩ := hDiffers.listed _ _ hDirectory hLeads
  apply hNear
  apply hAway
  have hTasks : (Walk.companionTasks (setup.over other) file).1 =
      (Walk.companionsAmong (setup.over other) file file.dirname stem extension names).map
        (.companion file) := by
    simp only [Walk.companionTasks, Walk.companionsOf, WalkSetup.over, hOn, hStem, hExtension,
      hList, if_true]
  rw [hTasks]
  refine List.mem_map_of_mem ?_
  have hResolve : other.resolve = resolve := hDiffers.resolve_eq.trans hDiffers.resolve
  rw [Walk.companionsAmong_eq hResolve hFile hStem hExtension, List.mem_mergeSort, List.mem_filter,
    decide_eq_true_eq]
  refine ⟨List.mem_map.mpr ⟨name, ?_, rfl⟩, resolve_companionName_ne hFile hCompanion hSound.1⟩
  exact List.mem_filter.mpr ⟨hName, decide_eq_true hCompanion⟩

namespace Walk

theorem companionsAmong_over {file directory : Path} {stem extension : String}
    {names others : List String} (hResolve : other.resolve = fs.resolve)
    (hNames : others.filter (isCompanionName stem extension) =
      names.filter (isCompanionName stem extension)) :
    companionsAmong (setup.over fs) file directory stem extension names =
      companionsAmong (setup.over other) file directory stem extension others := by
  simp only [companionsAmong, WalkSetup.over, hResolve, hNames]

theorem companionsOf_over {file : Path} {stem extension : String}
    (hResolve : other.resolve = fs.resolve) (hStem : file.stem? = some stem)
    (hExtension : file.extension? = some extension)
    (hList : (other.list file.dirname).map (List.filter (isCompanionName stem extension)) =
      (fs.list file.dirname).map (List.filter (isCompanionName stem extension))) :
    companionsOf (setup.over fs) file = companionsOf (setup.over other) file := by
  simp only [companionsOf, hStem, hExtension]
  have hOver : ∀ system, (setup.over system).system.list = system.list := fun _ => rfl
  rw [hOver, hOver]
  cases hNew : other.list file.dirname with
  | error reason =>
    rw [hNew] at hList
    cases hOld : fs.list file.dirname with
    | error cause =>
      rw [hOld] at hList
      cases hList
      rfl
    | ok names =>
      rw [hOld] at hList
      cases hList
  | ok others =>
    rw [hNew] at hList
    cases hOld : fs.list file.dirname with
    | error cause =>
      rw [hOld] at hList
      cases hList
    | ok names =>
      rw [hOld] at hList
      exact congrArg Except.ok (companionsAmong_over hResolve (Except.ok.inj hList))

theorem companionTasks_of_away {file : Path} (hDiffers : fs.DiffersAt p other)
    (hFile : file.IsNormal) (hStored : file ∈ fs.stored)
    (hAway : ∀ target, .companion file target ∈ (companionTasks (setup.over other) file).1 →
      p.Away target) :
    companionTasks (setup.over fs) file = companionTasks (setup.over other) file := by
  cases hOn : setup.companions with
  | false => simp only [companionTasks, WalkSetup.over, hOn, Bool.false_eq_true, if_false]
  | true =>
    have hCompanions : companionsOf (setup.over fs) file =
        companionsOf (setup.over other) file := by
      cases hStem : file.stem? with
      | none => simp only [companionsOf, hStem]
      | some stem =>
        cases hExtension : file.extension? with
        | none => simp only [companionsOf, hStem, hExtension]
        | some extension =>
          have hName := (Path.fileName?_of_extension? hStem hExtension).2
          refine companionsOf_over hDiffers.resolve_eq hStem hExtension ?_
          refine hDiffers.list file _ hStored hFile hName _ fun name hLeads => ?_
          exact hLeads.isCompanionName_eq_false hDiffers hFile hOn hStem hExtension hAway
    simp only [companionTasks, hCompanions]
    rfl

/-! ## The walk -/

theorem enter_of_away {w : Walk} {target : Path} (hDiffers : fs.DiffersAt p other)
    (hTarget : target.IsNormal) (hOther : target ≠ p)
    (hAway : ∀ e ∈ (w.enter (setup.over other) target).plannedEdges (setup.over other),
      p.Away e.target) :
    w.enter (setup.over fs) target = w.enter (setup.over other) target := by
  have hRead : other.read target = fs.read target :=
    hDiffers.read target (by rwa [hTarget.normalize_eq])
  by_cases hStored : target ∈ (setup.over fs).system.stored
  · have hAlso : target ∈ (setup.over other).system.stored :=
      (hDiffers.stored target hOther).mpr hStored
    cases hText : (setup.over fs).system.read target with
    | error reason =>
      rw [enter_of_unreadable hStored hText, enter_of_unreadable hAlso (hRead.trans hText)]
    | ok source =>
      rw [enter_of_read hAlso (hRead.trans hText)] at hAway ⊢
      rw [enter_of_read hStored hText]
      have hTasks : companionTasks (setup.over fs) target =
          companionTasks (setup.over other) target := by
        refine companionTasks_of_away hDiffers hTarget hStored fun aim hTask => ?_
        refine hAway ⟨target, aim, companionMark, none⟩ ?_
        rw [plannedEdges_load]
        refine List.mem_append_right _ (List.mem_append_left _ ?_)
        exact List.mem_filterMap.mpr ⟨_, List.mem_append_left _ hTask, rfl⟩
      rw [load, load, hTasks]
      rfl
  · have hAlso : target ∉ (setup.over other).system.stored :=
      mt (hDiffers.stored target hOther).mp hStored
    rw [enter_of_not_stored hStored, enter_of_not_stored hAlso]

theorem follow_over {w : Walk} {target : Path} (hEnter : w.isTried target = false →
      target ∉ w.trail → w.enter (setup.over fs) target = w.enter (setup.over other) target) :
    w.follow (setup.over fs) target = w.follow (setup.over other) target := by
  by_cases hTrail : target ∈ w.trail
  · rw [follow, follow, if_pos hTrail, if_pos hTrail]
    rfl
  · rw [follow, follow, if_neg hTrail, if_neg hTrail]
    by_cases hTried : w.isTried target = true
    · rw [if_pos hTried, if_pos hTried]
    · rw [if_neg hTried, if_neg hTried, hEnter (Bool.eq_false_iff.mpr hTried) hTrail]

theorem perform_over {w : Walk} {task : Task} (hDiffers : fs.DiffersAt p other)
    (hAway : ∀ e, task.edge? (setup.over other) = some e → e.target ≠ p)
    (hEnter : ∀ e, task.edge? (setup.over other) = some e →
      (w.addEdge e).isTried e.target = false → e.target ∉ (w.addEdge e).trail →
      (w.addEdge e).enter (setup.over fs) e.target =
        (w.addEdge e).enter (setup.over other) e.target) :
    w.perform (setup.over fs) task = w.perform (setup.over other) task := by
  have hEdges := Task.edge?_of_away hDiffers hAway
  cases hEdge : task.edge? (setup.over other) with
  | some e =>
    rw [perform_of_edge hEdge, perform_of_edge (hEdges.trans hEdge)]
    exact follow_over (hEnter e hEdge)
  | none =>
    cases task with
    | companion source target => cases hEdge
    | leave => rfl
    | importing source command =>
      have hNew := Option.map_eq_none_iff.mp hEdge
      have hOld := Option.map_eq_none_iff.mp (hEdges.trans hEdge)
      simp only [perform, hNew, hOld]

/-! ## Planned edges come to stand in the graph -/

theorem Does.subset_plannedEdges {w next : Walk} {task : Task} {rest : List Task} {e : Edge}
    (hEdge : e ∈ w.plannedEdges setup) (hAgenda : w.agenda = task :: rest)
    (hDoes : Does setup { w with agenda := rest } task next) : e ∈ next.plannedEdges setup := by
  rw [plannedEdges, hAgenda] at hEdge
  cases hDoes with
  | edge e' _ hTask hProblem hArrives =>
    rw [List.filterMap_cons_some hTask] at hEdge
    have hAdded : e ∈ (({ w with agenda := rest } : Walk).addEdge e').plannedEdges setup := by
      rw [plannedEdges, addEdge, List.append_assoc]
      exact hEdge
    cases hArrives with
    | known hKnown => exact hAdded
    | entered _ hTried hTrail hEnters =>
      cases hEnters with
      | failed problem hFails => exact hAdded
      | loaded source hStored hRead =>
        rw [plannedEdges_load]
        rcases List.mem_append.mp hAdded with hAdded | hAdded
        · exact List.mem_append_left _ hAdded
        · exact List.mem_append_right _ (List.mem_append_right _ hAdded)
  | problem d hTask hProblem =>
    rw [List.filterMap_cons_none hTask] at hEdge
    exact hEdge
  | leave hLeave =>
    subst hLeave
    exact hEdge

theorem mem_edges_run {w : Walk} {e : Edge} (hEdge : e ∈ w.plannedEdges setup)
    (hEnd : (w.run setup).2 = none) : e ∈ (w.run setup).1.edges := by
  obtain ⟨hPlanned, hAgenda⟩ := run_invariant (fun v => e ∈ v.plannedEdges setup)
    (fun _ _ _ _ hMem hAgenda hDoes => hDoes.subset_plannedEdges hMem hAgenda) hEdge
  rw [plannedEdges, hAgenda hEnd, List.filterMap_nil, List.append_nil] at hPlanned
  exact hPlanned

theorem run_of_away {w : Walk} (hDiffers : fs.DiffersAt p other)
    (hAccount : Account (setup.over other) w)
    (hEnd : (w.run (setup.over other)).2 = none)
    (hAway : ∀ e ∈ (w.run (setup.over other)).1.edges, p.Away e.target) :
    w.run (setup.over fs) = w.run (setup.over other) := by
  induction w using run.induct (setup.over other) with
  | case1 w hAgenda => rw [run_of_nil hAgenda, run_of_nil hAgenda]
  | case2 w task rest hAgenda next hPerform ih =>
    have hPlanned : ∀ e ∈ w.plannedEdges (setup.over other), p.Away e.target := fun e he =>
      hAway e (mem_edges_run he hEnd)
    have hTask : ∀ e, task.edge? (setup.over other) = some e →
        e ∈ w.plannedEdges (setup.over other) := by
      intro e hEdge
      rw [plannedEdges, hAgenda, List.filterMap_cons_some hEdge]
      exact List.mem_append_right _ List.mem_cons_self
    rw [run_of_ok hAgenda hPerform] at hEnd hAway ⊢
    have hSame : ({ w with agenda := rest } : Walk).perform (setup.over fs) task = .ok next := by
      rw [← hPerform]
      refine perform_over hDiffers (fun e hEdge => (hPlanned e (hTask e hEdge)).1) ?_
      intro e hEdge hTried hTrail
      -- The walk enters the target here, so the edges that this plans are among the last ones.
      have hNext : ({ w with agenda := rest } : Walk).perform (setup.over other) task =
          .ok ((({ w with agenda := rest } : Walk).addEdge e).enter (setup.over other)
            e.target) := by
        rw [perform_of_edge hEdge, follow, if_neg hTrail, if_neg (Bool.eq_false_iff.mp hTried)]
      rw [hPerform] at hNext
      cases hNext
      exact enter_of_away hDiffers (hAccount.targets e (hTask e hEdge))
        (hPlanned e (hTask e hEdge)).1 fun e' he' => hAway e' (mem_edges_run he' hEnd)
    rw [run_of_ok hAgenda hSame]
    exact ih (hAccount.does hAgenda (does_of_perform hPerform)) hEnd hAway
  | case3 w task rest hAgenda e hPerform =>
    rw [run_of_error hAgenda hPerform] at hEnd
    cases hEnd

end Walk

theorem WalkSetup.outcome_of_away {entry : Path} (hDiffers : fs.DiffersAt p other)
    (hEntry : (setup.over other).entryFile entry ≠ p)
    (hEnd : ((setup.over other).outcome entry).2 = none)
    (hAway : ∀ e ∈ ((setup.over other).outcome entry).1.edges, p.Away e.target) :
    (setup.over fs).outcome entry = (setup.over other).outcome entry := by
  have hFile : (setup.over fs).entryFile entry = (setup.over other).entryFile entry := by
    simp only [entryFile, WalkSetup.over, hDiffers.resolve_eq]
  have hStart : (setup.over fs).start entry = (setup.over other).start entry := by
    rw [start, start, hFile]
    refine Walk.enter_of_away hDiffers (Path.isNormal_normalize _) hEntry ?_
    exact fun e he => hAway e (Walk.mem_edges_run he hEnd)
  rw [outcome, hStart]
  exact Walk.run_of_away hDiffers ((setup.over other).course_start entry).account hEnd hAway

namespace Graph

/-- A graph that is built with a file in the tree, and has no edge to the file or to a directory
above it, is built in the same way without that text. -/
theorem build_of_unreferenced {t : FileTree} {entry : Path} {text : String} {g : Graph}
    (hNormal : p.normalize = p) (hEntry : p ≠ g.entry)
    (hBuild : (build (setup.over (t.insert p text).system) entry).graph = .ok g)
    (hAway : ∀ e ∈ g.edges, e.target ≠ p ∧ ¬ e.target.IsAbove p) :
    build (setup.over t.system) entry = build (setup.over (t.insert p text).system) entry := by
  have hNormal : p.IsNormal := hNormal ▸ Path.isNormal_normalize p
  obtain ⟨hEnd, hFile, -, -, hEdges, -⟩ := outcome_of_build hBuild
  have hOutcome : (setup.over t.system).outcome entry =
      (setup.over (t.insert p text).system).outcome entry := by
    refine WalkSetup.outcome_of_away (t.differsAt_insert hNormal text) ?_ hEnd ?_
    · rw [← hFile]
      exact hEntry.symm
    · rw [← hEdges]
      exact hAway
  rw [build_eq, build_eq, hOutcome]
  rfl

/-- Two files that import each other; one of them has a companion and imports what is not there. -/
def looseTree : FileTree where
  files := [(⟨"/p/main.sh1"⟩, "\x7bimport: part\x7d\x7bimport: gone\x7d"), (⟨"/p/main.x.sh1"⟩, ""),
    (⟨"/p/part.sh1"⟩, "\x7bimport: main\x7d")]

def looseSetup : WalkSetup where
  system := looseTree.system

def notedTree : FileTree :=
  looseTree.insert ⟨"/p/notes.sh1"⟩ "\x7bimport: main\x7d"

theorem mem_namesBeside_noted {file : Path} {name : String} :
    name ∈ (looseSetup.over notedTree.system).namesBeside file ↔
      name ∈ notedTree.namesBelow file.dirname.normalize :=
  FileTree.mem_namesBeside rfl rfl

theorem away_of_build_noted {g : Graph}
    (hBuild : (build (looseSetup.over notedTree.system) ⟨"/p/main.sh1"⟩).graph = .ok g) :
    ∀ e ∈ g.edges, e.target ≠ ⟨"/p/notes.sh1"⟩ ∧ ¬ e.target.IsAbove ⟨"/p/notes.sh1"⟩ := by
  have hPlaces : ∀ file ∈ notedTree.paths, file.dirname.normalize = ⟨"/p"⟩ := by decide +kernel
  have hCompanions : ∀ file ∈ notedTree.paths, ∀ other ∈ notedTree.paths,
      ∀ part ∈ other.parts.drop 2, file.CompanionName part.text →
      file.dirname.resolve ⟨part.text⟩ ≠ ⟨"/p/notes.sh1"⟩ ∧
        ¬ (file.dirname.resolve ⟨part.text⟩).IsAbove ⟨"/p/notes.sh1"⟩ := by
    decide +kernel
  have hImports : ∀ file ∈ notedTree.paths,
      ∀ e ∈ (looseSetup.over notedTree.system).importEdges
        ((looseSetup.over notedTree.system).loaded file ((notedTree.read file).toOption.getD "")),
      e.target ≠ ⟨"/p/notes.sh1"⟩ ∧ ¬ e.target.IsAbove ⟨"/p/notes.sh1"⟩ := by
    decide +kernel
  intro e he
  obtain ⟨d, hd, hSource, hCases⟩ := edge_cases rfl hBuild he
  obtain ⟨source, hLoaded, hStored, hRead⟩ := loaded_of_build hBuild hd
  rcases hCases with ⟨name, hListed, hName, hEdge⟩ | hImport
  · rw [hEdge]
    rw [hSource] at hListed hName ⊢
    rw [mem_namesBeside_noted, hPlaces _ hStored] at hListed
    obtain ⟨other, hOther, part, rest, hSplit, rfl⟩ := FileTree.mem_namesBelow.mp hListed
    refine hCompanions d.file hStored other hOther part ?_ hName
    rw [hSplit]
    exact List.mem_cons_self
  · have hText : (notedTree.read d.file).toOption.getD "" = source := by
      change (notedTree.read d.file).mapError FileError.message = .ok source at hRead
      cases hFound : notedTree.read d.file with
      | error reason =>
        rw [hFound] at hRead
        cases hRead
      | ok text =>
        rw [hFound] at hRead
        exact Except.ok.inj hRead
    refine hImports d.file hStored e ?_
    rw [hText, ← hLoaded]
    exact hImport

theorem build_of_unreferenced_notes :
    ∃ g, (build (looseSetup.over notedTree.system) ⟨"/p/main.sh1"⟩).graph = .ok g ∧
      ⟨⟨"/p/main.sh1"⟩, ⟨"/p/main.x.sh1"⟩, companionMark, none⟩ ∈ g.edges ∧
      (∀ e ∈ g.edges, e.target ≠ ⟨"/p/notes.sh1"⟩ ∧ ¬ e.target.IsAbove ⟨"/p/notes.sh1"⟩) ∧
      build (looseSetup.over looseTree.system) ⟨"/p/main.sh1"⟩ =
        build (looseSetup.over notedTree.system) ⟨"/p/main.sh1"⟩ := by
  have hEntry : (looseSetup.over notedTree.system).entryFile ⟨"/p/main.sh1"⟩ = ⟨"/p/main.sh1"⟩ := by
    decide +kernel
  have hStored : (looseSetup.over notedTree.system).entryFile ⟨"/p/main.sh1"⟩ ∈
      notedTree.system.stored := by
    decide +kernel
  have hRead : notedTree.system.read
      ((looseSetup.over notedTree.system).entryFile ⟨"/p/main.sh1"⟩) =
        .ok "\x7bimport: part\x7d\x7bimport: gone\x7d" := by
    decide +kernel
  obtain ⟨g, hBuild⟩ :
      ∃ g, (build (looseSetup.over notedTree.system) ⟨"/p/main.sh1"⟩).graph = .ok g :=
    exists_build_tolerate hStored hRead
  have hAway := away_of_build_noted hBuild
  refine ⟨g, hBuild, ?_, hAway, build_of_unreferenced (by decide +kernel) ?_ hBuild hAway⟩
  · have hDocument := entry_mem_documents hBuild hRead
    rw [hEntry] at hDocument
    have hListed : "main.x.sh1" ∈
        (looseSetup.over notedTree.system).namesBeside ⟨"/p/main.sh1"⟩ := by
      have hPlace : (Path.dirname ⟨"/p/main.sh1"⟩).normalize = ⟨"/p"⟩ := by decide +kernel
      rw [mem_namesBeside_noted, hPlace]
      exact FileTree.mem_namesBelow.mpr ⟨⟨"/p/main.x.sh1"⟩, by decide +kernel,
        .name "main.x.sh1", [], by decide +kernel, rfl⟩
    exact companion_mem_edges rfl hBuild hDocument hListed (by decide +kernel) (by decide +kernel)
  · rw [(outcome_of_build hBuild).2.1, hEntry]
    decide

end Graph

end BraceDoc
