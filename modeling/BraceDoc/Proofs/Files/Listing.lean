import BraceDoc.Proofs.Files.Tree

/-!
# What directories list

Whatever is stored and erased, the paths of a file tree stay in normal form. So a listed name always
leads to something that is there, and every file is listed in its directory. The files with nothing
but a name for a path are the exception: their directory is the dot, which has nothing below it.
-/

set_option autoImplicit false

namespace BraceDoc

/-! ## Names that lead to a file -/

namespace Path

variable {directory file : Path} {name : String}

theorem IsNormal.steps_ne_nil (hNormal : directory.IsNormal) (hDot : directory ≠ ⟨"."⟩) :
    directory.steps ≠ [] := by
  intro hNil
  apply hDot
  rw [hNormal.eq_render, hNil]
  rfl

theorem Leads.ne_file_dot (hLeads : directory.Leads name file) (hDirectory : directory.IsNormal)
    (hDot : directory ≠ ⟨"."⟩) : file ≠ ⟨"."⟩ := by
  rintro rfl
  obtain ⟨part, rest, hParts, -⟩ := hLeads
  change [.here] = directory.parts ++ part :: rest at hParts
  rw [hDirectory.parts_eq_steps hDot] at hParts
  have hLength := congrArg List.length hParts
  have hPos := List.length_pos_of_ne_nil (hDirectory.steps_ne_nil hDot)
  simp only [List.length_append, List.length_cons, List.length_nil] at hLength
  omega

theorem NormalForm.isMove_of_append {parts rest : List Part} {part : Part}
    (hNormal : NormalForm (parts ++ part :: rest)) (hSome : parts ≠ []) : part.isMove = true := by
  rcases hNormal.cases with ⟨tail, hRoot, hMoves⟩ | hMoves
  · obtain ⟨first, parts, rfl⟩ := List.exists_cons_of_ne_nil hSome
    obtain ⟨-, rfl⟩ := List.cons.inj hRoot
    exact hMoves part (List.mem_append_right _ List.mem_cons_self)
  · exact hMoves part (List.mem_append_right _ List.mem_cons_self)

/-- A name that leads from a directory to a file gives a path on the way, or the file itself. -/
theorem Leads.exists_rest (hLeads : directory.Leads name file) (hDirectory : directory.IsNormal)
    (hFile : file.IsNormal) : ∃ rest, file.parts = (directory.resolve ⟨name⟩).parts ++ rest := by
  have hDot := hLeads.ne_dot hFile
  have hSteps := hFile.parts_eq_steps (hLeads.ne_file_dot hDirectory hDot)
  obtain ⟨part, rest, hParts, rfl⟩ := hLeads
  rw [hSteps, hDirectory.parts_eq_steps hDot] at hParts
  have hForm := hFile.normalForm
  rw [hParts] at hForm
  have hMove := hForm.isMove_of_append (hDirectory.steps_ne_nil hDot)
  have hSound : part.Sound := by
    refine sound_of_mem_steps (p := file) ?_
    rw [hParts]
    exact List.mem_append_right _ List.mem_cons_self
  rw [List.append_cons] at hForm hParts
  rw [hSteps, hParts, resolve_part hMove hSound hForm.of_append,
    parts_render (by simp) hForm.of_append fun _ => sound_of_mem_snoc hSound]
  exact ⟨rest, rfl⟩

/-- The directory of a file is the dot just when the path is the bare name. -/
theorem IsNormal.dirname_eq_dot_iff (hNormal : file.IsNormal) (hName : file.fileName? = some name) :
    file.dirname = ⟨"."⟩ ↔ file = ⟨name⟩ := by
  obtain ⟨hDirectory, hSteps⟩ := hNormal.isNormal_dirname hName
  constructor
  · intro hDot
    rw [hDot] at hSteps
    rw [hNormal.eq_render, hSteps]
    rfl
  · intro hBare
    have hSound : (Part.name name).Sound := by
      refine sound_of_mem_steps (p := file) ?_
      rw [hSteps]
      exact List.mem_append_right _ List.mem_cons_self
    have hOne : file.steps = [.name name] := by
      rw [hBare]
      exact @steps_of_move (.name name) rfl hSound
    rw [hSteps, List.append_eq_singleton_iff] at hOne
    rw [hDirectory.eq_render]
    rcases hOne with ⟨hNil, -⟩ | ⟨-, hNone⟩
    · rw [hNil]
      rfl
    · cases hNone

end Path

/-! ## Histories of a tree -/

namespace FileTree

variable {t : FileTree} {directory file path : Path} {name text : String} {names : List String}

inductive Change where
  | insert (path : Path) (text : String)
  | erase (path : Path)
  deriving DecidableEq, Inhabited

def change (t : FileTree) : Change → FileTree
  | .insert path text => t.insert path text
  | .erase path => t.erase path

def ofChanges (changes : List Change) : FileTree :=
  changes.foldl change {}

def IsNormal (t : FileTree) : Prop :=
  ∀ file ∈ t.paths, file.IsNormal

theorem insert_normalize (t : FileTree) (path : Path) (text : String) :
    t.insert path.normalize text = t.insert path text := by
  rw [insert, insert, (Path.isNormal_normalize path).normalize_eq]

theorem mem_paths_erase :
    file ∈ (t.erase path).paths ↔ file ∈ t.paths ∧ file ≠ path.normalize := by
  simp only [paths, erase, List.mem_map, List.mem_filter, bne_iff_ne]
  constructor
  · rintro ⟨stored, ⟨hStored, hOther⟩, rfl⟩
    exact ⟨⟨stored, hStored, rfl⟩, hOther⟩
  · rintro ⟨⟨stored, hStored, rfl⟩, hOther⟩
    exact ⟨stored, ⟨hStored, hOther⟩, rfl⟩

theorem IsNormal.change (hNormal : t.IsNormal) (c : Change) : (t.change c).IsNormal := by
  intro file hFile
  cases c with
  | insert path text =>
    rw [FileTree.change, ← insert_normalize,
      mem_paths_insert (Path.isNormal_normalize path)] at hFile
    rcases hFile with hOld | rfl
    · exact hNormal file hOld
    · exact Path.isNormal_normalize path
  | erase path => exact hNormal file (mem_paths_erase.mp hFile).1

theorem isNormal_ofChanges (changes : List Change) : (ofChanges changes).IsNormal := by
  -- what one change preserves, a history preserves
  have hFold : ∀ t : FileTree, t.IsNormal → (changes.foldl FileTree.change t).IsNormal := by
    induction changes with
    | nil => exact fun _ hNormal => hNormal
    | cons c changes ih => exact fun t hNormal => ih (t.change c) (hNormal.change c)
  exact hFold {} (List.forall_mem_nil _)

/-! ## Listings -/

theorem list_eq_ok_iff : t.list directory = .ok names ↔
    t.isDirectory directory.normalize = true ∧ names = t.namesBelow directory.normalize := by
  rw [list]
  split
  · rename_i hDirectory
    rw [Except.ok.injEq]
    exact ⟨fun hNames => ⟨hDirectory, hNames.symm⟩, fun hNames => hNames.2.symm⟩
  · rename_i hNone
    constructor
    · intro hOk
      cases hOk
    · rintro ⟨hDirectory, -⟩
      exact absurd hDirectory hNone

theorem holds_of_parts {rest : List Path.Part} (hPath : path.IsNormal) (hFile : file.IsNormal)
    (hStored : file ∈ t.paths) (hParts : file.parts = path.parts ++ rest) :
    t.holds path = true := by
  rw [holds, isFile, hPath.normalize_eq, Bool.or_eq_true, List.contains_iff_mem]
  cases rest with
  | nil =>
    rw [List.append_nil] at hParts
    exact Or.inl (hFile.eq_of_parts hPath hParts ▸ hStored)
  | cons part rest =>
    refine Or.inr (isDirectory_iff.mpr ⟨part.text, mem_namesBelow.mpr ?_⟩)
    exact ⟨file, hStored, part, rest, hParts, rfl⟩

theorem IsNormal.holds_of_mem_list (hNormal : t.IsNormal) (hList : t.list directory = .ok names)
    (hName : name ∈ names) : t.holds (directory.resolve ⟨name⟩) = true := by
  obtain ⟨-, rfl⟩ := list_eq_ok_iff.mp hList
  obtain ⟨file, hStored, hLeads⟩ := mem_namesBelow.mp hName
  have hFile := hNormal file hStored
  obtain ⟨rest, hParts⟩ := hLeads.exists_rest (Path.isNormal_normalize directory) hFile
  rw [Path.resolve_normalize_left] at hParts
  exact holds_of_parts (Path.isNormal_normalize _) hFile hStored hParts

theorem IsNormal.list_dot (hNormal : t.IsNormal) :
    t.list ⟨"."⟩ = .error (.noDirectory ⟨"."⟩) := by
  have hDot : Path.normalize ⟨"."⟩ = ⟨"."⟩ := by decide
  rw [list, hDot, if_neg]
  intro hDirectory
  obtain ⟨name, hName⟩ := isDirectory_iff.mp hDirectory
  obtain ⟨file, hStored, hLeads⟩ := mem_namesBelow.mp hName
  exact hLeads.ne_dot (hNormal file hStored) rfl

/-- After any history, a file is listed by name in its directory, unless its path is the bare name:
then the directory is the dot, which is never listed. Listed names increase strictly, and each of
them leads to a file or a directory. -/
theorem list_ofChanges (changes : List Change) :
    (∀ file ∈ (ofChanges changes).paths, ∀ name, file.fileName? = some name →
      if file = ⟨name⟩ then
        (ofChanges changes).list file.dirname = .error (.noDirectory ⟨"."⟩)
      else
        ∃ names, (ofChanges changes).list file.dirname = .ok names ∧ name ∈ names) ∧
    ∀ directory names, (ofChanges changes).list directory = .ok names →
      names.Pairwise (· < ·) ∧
        ∀ name ∈ names, (ofChanges changes).holds (directory.resolve ⟨name⟩) = true := by
  have hNormal := isNormal_ofChanges changes
  generalize ofChanges changes = t at *
  constructor
  · intro file hStored name hName
    have hFile := hNormal file hStored
    have hDot := hFile.dirname_eq_dot_iff hName
    split
    · rename_i hBare
      rw [hDot.mpr hBare]
      exact hNormal.list_dot
    · rename_i hNested
      have hLeads := hFile.leads_dirname hName fun hSame => hNested (hDot.mp hSame)
      have hMem := mem_namesBelow.mpr ⟨file, hStored, hLeads⟩
      exact ⟨_, list_of_mem (hFile.isNormal_dirname hName).1 hMem, hMem⟩
  · intro directory names hList
    refine ⟨?_, fun name hName => hNormal.holds_of_mem_list hList hName⟩
    rw [(list_eq_ok_iff.mp hList).2]
    exact pairwise_lt_namesBelow t _

/-- Files of all kinds, some of them erased again under another spelling. -/
def tangledHistory : List Change :=
  [.insert ⟨"/p/./main.sh1"⟩ "main", .insert ⟨"../../up"⟩ "up", .insert ⟨"/p/sub/a.sh1"⟩ "a",
    .insert ⟨"bare"⟩ "", .insert ⟨"/p/old"⟩ "", .erase ⟨"/p/sub/../old"⟩, .erase ⟨"/none"⟩]

theorem list_ofChanges_tangled :
    (ofChanges tangledHistory).paths =
      [⟨"/p/main.sh1"⟩, ⟨"../../up"⟩, ⟨"/p/sub/a.sh1"⟩, ⟨"bare"⟩] ∧
    (ofChanges tangledHistory).list (Path.dirname ⟨"bare"⟩) = .error (.noDirectory ⟨"."⟩) ∧
    ∃ names, (ofChanges tangledHistory).list ⟨"/p"⟩ = .ok names ∧ "main.sh1" ∈ names ∧
      names.Pairwise (· < ·) ∧
      ∀ name ∈ names, (ofChanges tangledHistory).holds (Path.resolve ⟨"/p"⟩ ⟨name⟩) = true := by
  have hPaths : (ofChanges tangledHistory).paths =
      [⟨"/p/main.sh1"⟩, ⟨"../../up"⟩, ⟨"/p/sub/a.sh1"⟩, ⟨"bare"⟩] := by decide
  obtain ⟨hFiles, hListed⟩ := list_ofChanges tangledHistory
  have hBare := hFiles ⟨"bare"⟩ (by simp [hPaths]) "bare" (by decide)
  have hMain := hFiles ⟨"/p/main.sh1"⟩ (by simp [hPaths]) "main.sh1" (by decide)
  have hDirectory : Path.dirname ⟨"/p/main.sh1"⟩ = ⟨"/p"⟩ := by decide
  rw [if_pos rfl] at hBare
  rw [if_neg (by decide), hDirectory] at hMain
  obtain ⟨names, hList, hName⟩ := hMain
  exact ⟨hPaths, hBare, names, hList, hName, hListed _ names hList⟩

/-- A file whose path is its bare name is stored, and yet its directory cannot be listed. -/
theorem list_ofChanges_bare :
    ¬ ∀ changes, ∀ file ∈ (ofChanges changes).paths, ∀ name, file.fileName? = some name →
      ∃ names, (ofChanges changes).list file.dirname = .ok names ∧ name ∈ names := by
  intro hAll
  have hList : (ofChanges [.insert ⟨"main.sh1"⟩ "rel"]).list (Path.dirname ⟨"main.sh1"⟩) =
      .error (.noDirectory ⟨"."⟩) := by decide
  obtain ⟨names, hOk, -⟩ :=
    hAll [.insert ⟨"main.sh1"⟩ "rel"] ⟨"main.sh1"⟩ (by decide) "main.sh1" (by decide)
  cases hList.symm.trans hOk

end FileTree

end BraceDoc
