import BraceDoc.Lists
import BraceDoc.Proofs.Files.Listing
import BraceDoc.Proofs.Import.Exact
import BraceDoc.Proofs.Import.Unreferenced

/-!
# Where edges lead

Where every stored file can be read, the target of an edge is loaded just when it is a file, and the
other targets are reported once each, in the order in which edges first lead to them. An import
leads to a file. A companion is found by its name, and a directory may bear such a name: it is
linked like a file and reported as a file that is not there.
-/

set_option autoImplicit false

namespace BraceDoc

def missingReport (file : Path) : Diagnostic :=
  (Problem.fileNotFound file).located (some file) none

def WalkSetup.Readable (setup : WalkSetup) : Prop :=
  ∀ file ∈ setup.system.stored, ∃ source, setup.system.read file = .ok source

/-- The targets of edges that are not stored, each where it occurs first. -/
def WalkSetup.missing (setup : WalkSetup) (edges : List Edge) : List Path :=
  ((edges.map Edge.target).filter fun target => decide (target ∉ setup.system.stored)).eraseDups

namespace WalkSetup

theorem missing_concat (setup : WalkSetup) (edges : List Edge) (e : Edge) :
    setup.missing (edges ++ [e]) =
      if e.target ∈ setup.system.stored ∨ e.target ∈ setup.missing edges then setup.missing edges
      else setup.missing edges ++ [e.target] := by
  rw [missing, missing, List.map_append, List.filter_append, List.map_singleton]
  by_cases hStored : e.target ∈ setup.system.stored
  · rw [List.filter_cons_of_neg (by simpa using hStored), List.filter_nil, List.append_nil,
      if_pos (Or.inl hStored)]
  · rw [List.filter_cons_of_pos (by simpa using hStored), List.filter_nil, eraseDups_concat]
    simp only [hStored, false_or, List.mem_eraseDups]

end WalkSetup

/-! ## The walk -/

namespace Walk

variable {setup : WalkSetup} {w next : Walk} {e : Edge}

/-- The files that failed are the missing ones among the targets, and all of them are reported. -/
structure Misses (setup : WalkSetup) (w : Walk) : Prop where
  failed : w.failed = setup.missing w.edges
  reports : Diagnostics.withCode "E_FILE_NOT_FOUND" w.diagnostics = w.failed.map missingReport

theorem Misses.addEdge (hMisses : Misses setup w)
    (hFiles : ∀ file ∈ w.files, file ∈ setup.system.stored)
    (hTried : w.isTried e.target = true) : Misses setup (w.addEdge e) := by
  refine ⟨?_, hMisses.reports⟩
  have hKnown : e.target ∈ setup.system.stored ∨ e.target ∈ setup.missing w.edges := by
    rw [← hMisses.failed]
    exact ((isTried_iff w e.target).mp hTried).imp (hFiles _) id
  rw [Walk.addEdge, WalkSetup.missing_concat, if_pos hKnown]
  exact hMisses.failed

theorem Misses.enters (hReadable : setup.Readable) (hMisses : Misses setup w)
    (hTried : w.isTried e.target = false) (hEnters : Enters setup (w.addEdge e) e.target next) :
    Misses setup next := by
  have hNew : e.target ∉ setup.missing w.edges := by
    rw [← hMisses.failed]
    exact ((not_isTried_iff w e.target).mp hTried).2
  cases hEnters with
  | loaded source hStored hRead =>
    constructor
    · rw [edges_load, Walk.addEdge, WalkSetup.missing_concat, if_pos (Or.inl hStored)]
      exact hMisses.failed
    · rw [diagnostics_load, Diagnostics.withCode_append,
        setup.withCode_remarks e.target source (by decide), List.append_nil]
      exact hMisses.reports
  | failed problem hProblem =>
    rcases hProblem with ⟨hStored, rfl⟩ | ⟨hStored, reason, hRead, -⟩
    · constructor
      · simp only [fail, Walk.addEdge]
        rw [WalkSetup.missing_concat, if_neg (not_or.mpr ⟨hStored, hNew⟩), hMisses.failed]
      · simp only [fail, Walk.addEdge, Diagnostics.withCode_append, hMisses.reports,
          List.map_append]
        rfl
    · obtain ⟨source, hOk⟩ := hReadable e.target hStored
      cases hRead.symm.trans hOk

theorem Misses.does {task : Task} (hReadable : setup.Readable) (hMisses : Misses setup w)
    (hFiles : ∀ file ∈ w.files, file ∈ setup.system.stored)
    (hTrail : ∀ file ∈ w.trail, file ∈ w.files)
    (hDoes : Does setup w task next) : Misses setup next := by
  cases hDoes with
  | edge e _ hEdge hProblem hArrives =>
    cases hArrives with
    | known hKnown =>
      refine hMisses.addEdge hFiles (hKnown.elim id fun hOpen => ?_)
      exact (isTried_iff w e.target).mpr (Or.inl (hTrail _ hOpen))
    | entered _ hTried hOther hEnters => exact hMisses.enters hReadable hTried hEnters
  | problem d hEdge hProblem =>
    refine ⟨hMisses.failed, ?_⟩
    have hOther : Diagnostics.withCode "E_FILE_NOT_FOUND" [d] = [] := by
      apply Diagnostics.withCode_eq_nil
      intro x hx hCode
      rw [List.mem_singleton.mp hx, report_of_problem? hProblem] at hCode
      exact absurd hCode (by decide)
    rw [Diagnostics.withCode_append, hOther, List.append_nil]
    exact hMisses.reports
  | leave hLeave => exact ⟨hMisses.failed, hMisses.reports⟩

end Walk

theorem WalkSetup.misses_outcome {setup : WalkSetup} {entry : Path} (hReadable : setup.Readable)
    (hEntry : setup.entryFile entry ∈ setup.system.stored) :
    Walk.Misses setup (setup.outcome entry).1 := by
  have hStart : Walk.Misses setup (setup.start entry) := by
    obtain ⟨source, hRead⟩ := hReadable _ hEntry
    rw [start, Walk.enter_of_read hEntry hRead]
    refine ⟨rfl, ?_⟩
    rw [Walk.diagnostics_load, Diagnostics.withCode_append,
      setup.withCode_remarks _ source (by decide)]
    rfl
  refine (Walk.run_invariant
    (fun w => Walk.Course setup (setup.entryFile entry) w ∧ Walk.Misses setup w) ?_
    ⟨setup.course_start entry, hStart⟩).1.2
  rintro w task rest next ⟨hCourse, hMisses⟩ hAgenda hDoes
  refine ⟨hCourse.does hAgenda hDoes, ?_⟩
  exact Walk.Misses.does (w := { w with agenda := rest }) hReadable
    ⟨hMisses.failed, hMisses.reports⟩ hCourse.files_stored hCourse.tries.trail hDoes

/-! ## Imports -/

theorem Resolver.isFile_of_file? {r : Resolver} {fs : FileSystem} {importer path : Path}
    {text : String} (hFile : r.file? fs importer text = some path) : fs.isFile path = true := by
  obtain ⟨target, -, hFound⟩ := Option.bind_eq_some_iff.mp hFile
  split at hFound
  · rename_i hIs
    cases hFound
    exact hIs
  · split at hFound
    · cases hFound
    · exact List.find?_some hFound

theorem WalkSetup.isFile_of_mem_importEdges {setup : WalkSetup} {d : SourceFile} {e : Edge}
    (he : e ∈ setup.importEdges d) :
    ∃ path, setup.system.isFile path = true ∧ e.target = path.normalize := by
  obtain ⟨command, -, hEdge⟩ := List.mem_filterMap.mp he
  obtain ⟨path, hFile, rfl⟩ := Option.map_eq_some_iff.mp hEdge
  exact ⟨path, Resolver.isFile_of_file? hFile, rfl⟩

namespace Graph

variable {setup : WalkSetup} {entry : Path} {g : Graph}

theorem misses_of_build (hReadable : setup.Readable) (hBuild : (build setup entry).graph = .ok g) :
    (∀ e ∈ g.edges, e.target ∈ g.files ↔ e.target ∈ setup.system.stored) ∧
      Diagnostics.withCode "E_FILE_NOT_FOUND" (build setup entry).diagnostics =
        (setup.missing g.edges).map missingReport := by
  obtain ⟨-, hEntry, hLoaded, hDocuments, hEdges, hDiagnostics⟩ := outcome_of_build hBuild
  obtain ⟨hCourse, -⟩ := setup.course_outcome entry
  rw [hEntry] at hLoaded
  have hMisses := WalkSetup.misses_outcome hReadable (hCourse.files_stored _ hLoaded)
  rw [hDiagnostics, files, hDocuments, hEdges]
  refine ⟨fun e he => ⟨hCourse.files_stored e.target, fun hStored => ?_⟩, ?_⟩
  · obtain ⟨source, hRead⟩ := hReadable e.target hStored
    exact hCourse.target_loaded he hStored hRead
  · rw [hMisses.reports, hMisses.failed]

end Graph

/-! ## Trees without faults -/

namespace FileTree

variable {t : FileTree} {file path : Path}

theorem isFile_iff (hPath : path.IsNormal) : t.isFile path = true ↔ path ∈ t.paths := by
  rw [isFile, hPath.normalize_eq, List.contains_iff_mem]

theorem IsNormal.readable (hNormal : t.IsNormal) (setup : WalkSetup) :
    (setup.over t.system).Readable := by
  intro file hStored
  change file ∈ t.paths at hStored
  obtain ⟨stored, hMem, rfl⟩ := List.mem_map.mp hStored
  change ∃ source, (t.read stored.1).mapError FileError.message = .ok source
  rw [read, (hNormal _ hStored).normalize_eq, get?]
  cases hGet : t.files.lookup stored.1 with
  | some text => exact ⟨text, rfl⟩
  | none =>
    have hOther := List.lookup_eq_none_iff.mp hGet stored hMem
    rw [bne_self_eq_false] at hOther
    cases hOther

theorem list_of_system {directory : Path} {names : List String}
    (hList : t.system.list directory = .ok names) : t.list directory = .ok names := by
  simp only [system] at hList
  cases hFound : t.list directory with
  | error reason =>
    rw [hFound] at hList
    cases hList
  | ok found =>
    rw [hFound] at hList
    cases hList
    rfl

/-- What is listed beside a file under the name of a companion is a file. -/
def CompanionsAreFiles (t : FileTree) : Prop :=
  ∀ file ∈ t.paths, ∀ name ∈ t.namesBelow file.dirname.normalize, file.CompanionName name →
    t.isFile (file.dirname.resolve ⟨name⟩) = true

end FileTree

namespace Graph

variable {setup : WalkSetup} {t : FileTree} {entry : Path} {g : Graph}

/-- Edges lead to loaded files, or from companions to directories. -/
structure Linked (t : FileTree) (g : Graph) (ds : List Diagnostic) : Prop where
  loaded : ∀ e ∈ g.edges, e.target ∈ g.files ↔ t.isFile e.target = true
  directories : ∀ e ∈ g.edges, t.isFile e.target = false →
    t.isDirectory e.target = true ∧ ∃ name ∈ t.namesBelow e.source.dirname.normalize,
      e.source.CompanionName name ∧
        e = ⟨e.source, e.source.dirname.resolve ⟨name⟩, companionMark, none⟩
  missing : Diagnostics.withCode "E_FILE_NOT_FOUND" ds =
    ((g.edges.map Edge.target).filter fun target => !t.isFile target).eraseDups.map missingReport

theorem isNormal_target (hBuild : (build setup entry).graph = .ok g) {e : Edge} (he : e ∈ g.edges) :
    e.target.IsNormal := by
  obtain ⟨-, -, -, -, hEdges, -⟩ := outcome_of_build hBuild
  rw [hEdges] at he
  exact (setup.course_outcome entry).1.account.targets e (List.mem_append_left _ he)

theorem linked_of_build (hNormal : t.IsNormal)
    (hBuild : (build (setup.over t.system) entry).graph = .ok g) :
    g.Linked t (build (setup.over t.system) entry).diagnostics := by
  obtain ⟨hLoaded, hMissing⟩ := misses_of_build (hNormal.readable setup) hBuild
  have hFile : ∀ e ∈ g.edges, t.isFile e.target = true ↔ e.target ∈ t.paths := fun e he =>
    FileTree.isFile_iff (isNormal_target hBuild he)
  constructor
  case loaded =>
    intro e he
    rw [hLoaded e he, hFile e he]
    rfl
  case directories =>
    intro e he hNone
    obtain ⟨d, -, -, ⟨name, hListed, hName, hEdge⟩ | hImport⟩ := edge_cases rfl hBuild he
    · have hTarget : e.target = e.source.dirname.resolve ⟨name⟩ := congrArg Edge.target hEdge
      rw [WalkSetup.namesBeside] at hListed
      split at hListed
      · rename_i names hOn hOk
        -- the listing is that of the tree, so the name leads to something
        have hList := FileTree.list_of_system hOk
        have hHolds := hNormal.holds_of_mem_list hList hListed
        rw [← hTarget, FileTree.holds, hNone, Bool.false_or,
          (isNormal_target hBuild he).normalize_eq] at hHolds
        rw [(FileTree.list_eq_ok_iff.mp hList).2] at hListed
        exact ⟨hHolds, name, hListed, hName, hEdge⟩
      · cases hListed
    · obtain ⟨path, hIs, hTarget⟩ := WalkSetup.isFile_of_mem_importEdges hImport
      rw [hTarget] at hNone
      change t.paths.contains path.normalize = true at hIs
      rw [FileTree.isFile, (Path.isNormal_normalize path).normalize_eq, hIs] at hNone
      cases hNone
  case missing =>
    rw [hMissing, WalkSetup.missing]
    refine congrArg (fun targets : List Path => targets.eraseDups.map missingReport) ?_
    apply List.filter_congr
    intro target hTarget
    obtain ⟨e, he, rfl⟩ := List.mem_map.mp hTarget
    rw [Bool.eq_iff_iff, decide_eq_true_eq, Bool.not_eq_true', ← Bool.not_eq_true]
    exact not_congr (hFile e he).symm

theorem isFile_target (hPlain : t.CompanionsAreFiles)
    (hBuild : (build (setup.over t.system) entry).graph = .ok g)
    (hLinked : g.Linked t (build (setup.over t.system) entry).diagnostics) {e : Edge}
    (he : e ∈ g.edges) : t.isFile e.target = true := by
  by_contra hNone
  obtain ⟨-, name, hListed, hName, hEdge⟩ :=
    hLinked.directories e he (Bool.eq_false_iff.mpr hNone)
  obtain ⟨d, hd, hSource⟩ := source_of_build hBuild he
  obtain ⟨-, -, hStored, -⟩ := loaded_of_build hBuild hd
  rw [← hSource] at hStored
  have hTarget : e.target = e.source.dirname.resolve ⟨name⟩ := congrArg Edge.target hEdge
  rw [hTarget] at hNone
  exact hNone (hPlain e.source hStored name hListed hName)

/-- In a project on a file tree, edges lead to loaded files, apart from companions that are
directories: these are reported as files that are not there. Where only files bear the names of
companions, nothing is reported and all targets are loaded. -/
theorem targets_of_build (changes : List FileTree.Change) (setup : WalkSetup) (entry : Path)
    (hBuild : (build (setup.over (FileTree.ofChanges changes).system) entry).graph = .ok g) :
    g.Linked (FileTree.ofChanges changes)
        (build (setup.over (FileTree.ofChanges changes).system) entry).diagnostics ∧
      ((FileTree.ofChanges changes).CompanionsAreFiles →
        (∀ d ∈ (build (setup.over (FileTree.ofChanges changes).system) entry).diagnostics,
          d.code ≠ some "E_FILE_NOT_FOUND") ∧
        ∀ e ∈ g.edges, e.target ∈ g.files) := by
  have hLinked := linked_of_build (FileTree.isNormal_ofChanges changes) hBuild
  refine ⟨hLinked, fun hPlain => ?_⟩
  have hFiles := fun e he => isFile_target hPlain hBuild hLinked (e := e) he
  refine ⟨?_, fun e he => (hLinked.loaded e he).mpr (hFiles e he)⟩
  have hNone : (g.edges.map Edge.target).filter
      (fun target => !(FileTree.ofChanges changes).isFile target) = [] := by
    rw [List.filter_eq_nil_iff]
    intro target hTarget
    obtain ⟨e, he, rfl⟩ := List.mem_map.mp hTarget
    simp [hFiles e he]
  have hReports := hLinked.missing
  rw [hNone, List.eraseDups_nil, List.map_nil, Diagnostics.withCode,
    List.filter_eq_nil_iff] at hReports
  exact fun d hd hCode => hReports d hd (beq_iff_eq.mpr hCode)

def setupAfter (changes : List FileTree.Change) : WalkSetup where
  system := (FileTree.ofChanges changes).system

theorem exists_build_after {changes : List FileTree.Change} {entry : Path}
    (hStored : (setupAfter changes).entryFile entry ∈ (FileTree.ofChanges changes).paths) :
    ∃ g, (build (setupAfter changes) entry).graph = .ok g := by
  obtain ⟨source, hRead⟩ :=
    (FileTree.isNormal_ofChanges changes).readable (setupAfter changes) _ hStored
  exact exists_build_tolerate hStored hRead

theorem mem_namesBeside_after {changes : List FileTree.Change} {file : Path} {name : String} :
    name ∈ (setupAfter changes).namesBeside file ↔
      name ∈ (FileTree.ofChanges changes).namesBelow file.dirname.normalize :=
  FileTree.mem_namesBeside rfl rfl

/-- A file that imports another one, and has a companion. -/
def plainHistory : List FileTree.Change :=
  [.insert ⟨"/p/m.sh1"⟩ "\x7bimport: other\x7d", .insert ⟨"/p/m.x.sh1"⟩ "",
    .insert ⟨"/p/other.sh1"⟩ ""]

theorem companionsAreFiles_plain : (FileTree.ofChanges plainHistory).CompanionsAreFiles := by
  have hPlace : ∀ file ∈ (FileTree.ofChanges plainHistory).paths, file.dirname = ⟨"/p"⟩ := by
    decide
  have hParts : ∀ file ∈ (FileTree.ofChanges plainHistory).paths, ∀ part ∈ file.parts.drop 2,
      (FileTree.ofChanges plainHistory).isFile (Path.resolve ⟨"/p"⟩ ⟨part.text⟩) = true := by
    decide
  intro file hFile name hListed hName
  rw [hPlace file hFile] at hListed ⊢
  obtain ⟨other, hOther, part, rest, hSplit, rfl⟩ := FileTree.mem_namesBelow.mp hListed
  refine hParts other hOther part ?_
  rw [hSplit]
  exact List.mem_cons_self

theorem targets_of_build_plain :
    (FileTree.ofChanges plainHistory).CompanionsAreFiles ∧
      ∃ g, (build (setupAfter plainHistory) ⟨"/p/m.sh1"⟩).graph = .ok g ∧
        g.Linked (FileTree.ofChanges plainHistory)
          (build (setupAfter plainHistory) ⟨"/p/m.sh1"⟩).diagnostics ∧
        ∀ e ∈ g.edges, e.target ∈ g.files := by
  refine ⟨companionsAreFiles_plain, ?_⟩
  obtain ⟨g, hBuild⟩ := @exists_build_after plainHistory ⟨"/p/m.sh1"⟩ (by decide +kernel)
  obtain ⟨hLinked, hFiles⟩ :=
    targets_of_build plainHistory (setupAfter plainHistory) ⟨"/p/m.sh1"⟩ hBuild
  exact ⟨g, hBuild, hLinked, (hFiles companionsAreFiles_plain).2⟩

/-- Beside a file, a directory with the name of a companion. -/
def misleadingHistory : List FileTree.Change :=
  [.insert ⟨"/p/m.sh1"⟩ "", .insert ⟨"/p/m.x.sh1/k.sh1"⟩ ""]

theorem directory_listed_misleading :
    "m.x.sh1" ∈ (setupAfter misleadingHistory).namesBeside ⟨"/p/m.sh1"⟩ := by
  have hPlace : (Path.dirname ⟨"/p/m.sh1"⟩).normalize = ⟨"/p"⟩ := by decide
  rw [mem_namesBeside_after, hPlace]
  exact FileTree.mem_namesBelow.mpr ⟨⟨"/p/m.x.sh1/k.sh1"⟩, by decide, .name "m.x.sh1",
    [.name "k.sh1"], by decide, rfl⟩

/-- Looking for companions links more than files. -/
theorem targets_of_build_directory :
    ¬ ∀ (changes : List FileTree.Change) (setup : WalkSetup) (entry : Path) (g : Graph),
      (build (setup.over (FileTree.ofChanges changes).system) entry).graph = .ok g →
      (∀ d ∈ (build (setup.over (FileTree.ofChanges changes).system) entry).diagnostics,
        d.code ≠ some "E_FILE_NOT_FOUND") ∧ ∀ e ∈ g.edges, e.target ∈ g.files := by
  intro hAll
  obtain ⟨g, hBuild⟩ := @exists_build_after misleadingHistory ⟨"/p/m.sh1"⟩ (by decide +kernel)
  obtain ⟨-, hTargets⟩ :=
    hAll misleadingHistory (setupAfter misleadingHistory) ⟨"/p/m.sh1"⟩ g hBuild
  have hEntry : (setupAfter misleadingHistory).entryFile ⟨"/p/m.sh1"⟩ = ⟨"/p/m.sh1"⟩ := by
    decide +kernel
  have hRead : (setupAfter misleadingHistory).system.read
      ((setupAfter misleadingHistory).entryFile ⟨"/p/m.sh1"⟩) = .ok "" := by
    decide +kernel
  have hDocument := entry_mem_documents hBuild hRead
  rw [hEntry] at hDocument
  have hEdge := companion_mem_edges rfl hBuild hDocument directory_listed_misleading
    (by decide +kernel) (by decide +kernel)
  obtain ⟨loaded, hLoaded, hTarget⟩ := List.mem_map.mp (hTargets _ hEdge)
  obtain ⟨-, -, hStored, -⟩ := loaded_of_build hBuild hLoaded
  rw [hTarget] at hStored
  exact absurd hStored (by decide +kernel)

end Graph

end BraceDoc
