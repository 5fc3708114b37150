import Mathlib.Data.List.Sort
import Mathlib.Data.String.Basic
import BraceDoc.Files.System
import BraceDoc.Proofs.Path.Congruence

/-!
# Storing a file

Storing a text at a path leaves the other files of a tree as they are. It changes listings only of
directories above the path, and there by the one name that leads to the path.
-/

set_option autoImplicit false

namespace BraceDoc

/-! ## Sorted names -/

theorem eraseReps_cons_cons (first second : String) (rest : List String) :
    (first :: second :: rest).eraseReps =
      if first = second then (second :: rest).eraseReps
      else first :: (second :: rest).eraseReps := by
  have hLoop : ∀ (names done : List String) (name : String),
      List.eraseRepsBy.loop (· == ·) name names done =
        done.reverse ++ List.eraseRepsBy.loop (· == ·) name names [] := by
    intro names
    induction names with
    | nil =>
      intro done name
      rw [List.eraseRepsBy.loop, List.eraseRepsBy.loop, List.reverse_cons]
      rfl
    | cons next names ih =>
      intro done name
      rw [List.eraseRepsBy.loop, List.eraseRepsBy.loop]
      split
      · exact ih done name
      · rw [ih (name :: done), ih [name], List.reverse_cons, List.append_assoc]
        rfl
  have hEq : (first :: second :: rest).eraseReps =
      List.eraseRepsBy.loop (· == ·) first (second :: rest) [] := rfl
  rw [hEq, List.eraseRepsBy.loop]
  split
  · rename_i hSame
    have hSame := beq_iff_eq.mp hSame
    rw [if_pos hSame, hSame]
    rfl
  · rename_i hOther
    rw [if_neg (beq_eq_false_iff_ne.mp hOther), hLoop]
    rfl

theorem mem_eraseReps {names : List String} {name : String} :
    name ∈ names.eraseReps ↔ name ∈ names := by
  match names with
  | [] => exact Iff.rfl
  | [only] => exact Iff.rfl
  | first :: second :: rest =>
    rw [eraseReps_cons_cons]
    split
    · rename_i hSame
      rw [mem_eraseReps, List.mem_cons (a := name) (b := first), hSame]
      exact ⟨Or.inr, fun hMem => hMem.elim (fun hFirst => hFirst ▸ List.mem_cons_self) id⟩
    · rw [List.mem_cons, mem_eraseReps, List.mem_cons (b := first)]

theorem pairwise_lt_eraseReps {names : List String} (hSorted : names.Pairwise (· ≤ ·)) :
    names.eraseReps.Pairwise (· < ·) := by
  match names with
  | [] => exact .nil
  | [only] => exact List.pairwise_singleton _ only
  | first :: second :: rest =>
    obtain ⟨hFirst, hRest⟩ := List.pairwise_cons.mp hSorted
    rw [eraseReps_cons_cons]
    split
    · exact pairwise_lt_eraseReps hRest
    · rename_i hOther
      refine List.pairwise_cons.mpr ⟨fun name hName => ?_, pairwise_lt_eraseReps hRest⟩
      have hSecond : first < second := lt_of_le_of_ne (hFirst second List.mem_cons_self) hOther
      rcases List.mem_cons.mp (mem_eraseReps.mp hName) with rfl | hName
      · exact hSecond
      · exact hSecond.trans_le ((List.pairwise_cons.mp hRest).1 name hName)

namespace FileTree

theorem mem_sortedNames {names : List String} {name : String} :
    name ∈ sortedNames names ↔ name ∈ names := by
  rw [sortedNames, mem_eraseReps, List.mem_mergeSort]

theorem pairwise_lt_sortedNames (names : List String) : (sortedNames names).Pairwise (· < ·) := by
  apply pairwise_lt_eraseReps
  have hSorted := @List.pairwise_mergeSort String (fun a b => decide (a ≤ b))
    (fun a b c hFirst hSecond => by
      rw [decide_eq_true_eq] at hFirst hSecond ⊢
      exact hFirst.trans hSecond)
    (fun a b => by
      rw [Bool.or_eq_true, decide_eq_true_eq, decide_eq_true_eq]
      exact le_total a b) names
  exact hSorted.imp fun hLe => of_decide_eq_true hLe

end FileTree

/-! ## Listings -/

/-- The name is the first one below the directory on the way to the file. -/
def Path.Leads (directory : Path) (name : String) (file : Path) : Prop :=
  ∃ part rest, file.parts = directory.parts ++ part :: rest ∧ part.text = name

namespace Path

variable {directory file : Path} {name : String}

theorem IsNormal.parts_cases (hNormal : file.IsNormal) :
    file.parts = [.here] ∨ file.parts = file.steps := by
  have hSteps : .here ∉ file.parts → file.parts = file.steps := by
    intro hHere
    refine (List.filter_eq_self.mpr fun part hPart => decide_eq_true ?_).symm
    rintro rfl
    exact hHere hPart
  cases hNormal.canonical with
  | here => exact Or.inl rfl
  | absolute _ names hParts =>
    refine Or.inr (hSteps ?_)
    rw [hParts]
    simp
  | relative _ ups names _ hParts =>
    refine Or.inr (hSteps ?_)
    rw [hParts]
    simp

theorem IsNormal.parts_eq_steps (hNormal : file.IsNormal) (hDot : file ≠ ⟨"."⟩) :
    file.parts = file.steps := by
  refine hNormal.parts_cases.resolve_left fun hHere => hDot ?_
  rw [hNormal.eq_render, steps, hHere]
  rfl

/-- Nothing lies below the dot: a normal form leaves it out. -/
theorem Leads.ne_dot (hLeads : directory.Leads name file) (hNormal : file.IsNormal) :
    directory ≠ ⟨"."⟩ := by
  rintro rfl
  obtain ⟨part, rest, hParts, -⟩ := hLeads
  change file.parts = .here :: part :: rest at hParts
  rcases hNormal.parts_cases with hDot | hSteps
  · rw [hDot] at hParts
    cases hParts
  · have hHere : Part.here ∈ file.steps := by
      rw [← hSteps, hParts]
      exact List.mem_cons_self
    rw [steps, List.mem_filter] at hHere
    exact of_decide_eq_true hHere.2 rfl

theorem IsNormal.leads_dirname (hNormal : file.IsNormal) (hName : file.fileName? = some name)
    (hDot : file.dirname ≠ ⟨"."⟩) : file.dirname.Leads name file := by
  obtain ⟨hDirectory, hSteps⟩ := hNormal.isNormal_dirname hName
  have hFile : file ≠ ⟨"."⟩ := by
    rintro rfl
    cases hName
  refine ⟨.name name, [], ?_, rfl⟩
  rw [hNormal.parts_eq_steps hFile, hSteps, hDirectory.parts_eq_steps hDot]

end Path

namespace FileTree

variable {t : FileTree} {directory file p : Path} {name text : String}

theorem below?_eq_some_iff {rest : List Path.Part} :
    below? directory file = some rest ↔ file.parts = directory.parts ++ rest := by
  rw [below?]
  constructor
  · intro hBelow
    split at hBelow
    · rename_i hBeginning
      obtain ⟨behind, hParts⟩ := List.isPrefixOf_iff_prefix.mp hBeginning
      cases hBelow
      rw [← hParts, List.drop_left]
    · cases hBelow
  · intro hParts
    rw [if_pos (List.isPrefixOf_iff_prefix.mpr ⟨rest, hParts.symm⟩), hParts, List.drop_left]

theorem mem_namesBelow :
    name ∈ t.namesBelow directory ↔ ∃ file ∈ t.paths, directory.Leads name file := by
  rw [namesBelow, mem_sortedNames, List.mem_filterMap]
  refine exists_congr fun file => and_congr_right fun _ => ?_
  rw [Option.bind_eq_some_iff]
  constructor
  · rintro ⟨rest, hRest, hHead⟩
    obtain ⟨part, hPart, hText⟩ := Option.map_eq_some_iff.mp hHead
    obtain ⟨behind, rfl⟩ := List.head?_eq_some_iff.mp hPart
    exact ⟨part, behind, below?_eq_some_iff.mp hRest, hText⟩
  · rintro ⟨part, rest, hParts, hText⟩
    exact ⟨part :: rest, below?_eq_some_iff.mpr hParts,
      Option.map_eq_some_iff.mpr ⟨part, rfl, hText⟩⟩

/-- A directory is what has names below it. -/
theorem isDirectory_iff :
    t.isDirectory directory = true ↔ ∃ name, name ∈ t.namesBelow directory := by
  rw [isDirectory, List.any_eq_true]
  constructor
  · rintro ⟨file, hFile, hBelow⟩
    split at hBelow
    · rename_i part rest hRest
      exact ⟨part.text, mem_namesBelow.mpr
        ⟨file, hFile, part, rest, below?_eq_some_iff.mp hRest, rfl⟩⟩
    · cases hBelow
  · rintro ⟨name, hName⟩
    obtain ⟨file, hFile, part, rest, hParts, -⟩ := mem_namesBelow.mp hName
    refine ⟨file, hFile, ?_⟩
    rw [below?_eq_some_iff.mpr hParts]

theorem pairwise_lt_namesBelow (t : FileTree) (directory : Path) :
    (t.namesBelow directory).Pairwise (· < ·) :=
  pairwise_lt_sortedNames _

/-! ## The tree with a new file -/

theorem paths_insert (hNormal : p.IsNormal) :
    (t.insert p text).paths = if p ∈ t.paths then t.paths else t.paths ++ [p] := by
  rw [insert, hNormal.normalize_eq]
  simp only [List.contains_iff_mem]
  split
  · rw [paths, paths, List.map_map]
    apply List.map_congr_left
    intro file _
    simp only [Function.comp]
    split
    · rename_i hSame
      exact hSame.symm
    · rfl
  · rw [paths, List.map_append]
    rfl

theorem mem_paths_insert (hNormal : p.IsNormal) :
    file ∈ (t.insert p text).paths ↔ file ∈ t.paths ∨ file = p := by
  rw [paths_insert hNormal]
  split
  · rename_i hStored
    exact ⟨Or.inl, fun hFile => hFile.elim id fun hSame => hSame ▸ hStored⟩
  · rw [List.mem_append, List.mem_singleton]

theorem get?_insert_of_ne (hNormal : p.IsNormal) (hOther : file ≠ p) :
    (t.insert p text).get? file = t.get? file := by
  rw [insert, hNormal.normalize_eq, get?, get?]
  have hBeq : (file == p) = false := beq_eq_false_iff_ne.mpr hOther
  split
  · simp only
    induction t.files with
    | nil => rfl
    | cons first rest ih =>
      rw [List.map_cons, List.lookup_cons, List.lookup_cons, ih]
      split_ifs with hSame
      · rw [hSame, hBeq]
      · rfl
  · simp only
    rw [List.lookup_append, List.lookup_cons, hBeq]
    simp

end FileTree

/-- Two file systems that differ at one file, which the second one has. A listing differs at most by
the name that leads to the file. -/
structure FileSystem.DiffersAt (p : Path) (fs other : FileSystem) : Prop where
  normal : p.IsNormal
  resolve : fs.resolve = Path.resolve
  resolve_eq : other.resolve = fs.resolve
  stored : ∀ file, file ≠ p → (file ∈ other.stored ↔ file ∈ fs.stored)
  isFile : ∀ path, path.normalize ≠ p → other.isFile path = fs.isFile path
  isFile_self : ∀ path, path.normalize = p → other.isFile path = true
  read : ∀ path, path.normalize ≠ p → other.read path = fs.read path
  listed : ∀ directory name, directory.IsNormal → directory.Leads name p →
    ∃ names, other.list directory = .ok names ∧ name ∈ names
  list : ∀ file name, file ∈ fs.stored → file.IsNormal → file.fileName? = some name →
    ∀ accepts : String → Bool, (∀ new, file.dirname.Leads new p → accepts new = false) →
      (other.list file.dirname).map (List.filter accepts) =
        (fs.list file.dirname).map (List.filter accepts)

namespace FileTree

variable {t : FileTree} {directory file p : Path} {name text : String}

theorem map_mapError {ε δ α β : Type} (x : Except ε α) (f : α → β) (g : ε → δ) :
    (x.mapError g).map f = (x.map f).mapError g := by
  cases x with
  | error e => rfl
  | ok a => rfl

theorem list_of_mem (hNormal : directory.IsNormal) (hName : name ∈ t.namesBelow directory) :
    t.list directory = .ok (t.namesBelow directory) := by
  have hDirectory : t.isDirectory directory = true := isDirectory_iff.mpr ⟨name, hName⟩
  simp only [list, hNormal.normalize_eq, if_pos hDirectory]

theorem mem_namesBelow_insert (hNormal : p.IsNormal) :
    name ∈ (t.insert p text).namesBelow directory ↔
      name ∈ t.namesBelow directory ∨ directory.Leads name p := by
  rw [mem_namesBelow, mem_namesBelow]
  constructor
  · rintro ⟨file, hFile, hName⟩
    rcases (mem_paths_insert hNormal).mp hFile with hOld | rfl
    · exact Or.inl ⟨file, hOld, hName⟩
    · exact Or.inr hName
  · rintro (⟨file, hFile, hName⟩ | hName)
    · exact ⟨file, (mem_paths_insert hNormal).mpr (Or.inl hFile), hName⟩
    · exact ⟨p, (mem_paths_insert hNormal).mpr (Or.inr rfl), hName⟩

/-- Where no name leads to the new file, the listing stays. -/
theorem list_insert_of_not_leads (hNormal : p.IsNormal) (hDirectory : directory.IsNormal)
    (hLeads : ∀ name, ¬ directory.Leads name p) :
    (t.insert p text).list directory = t.list directory := by
  have hSame : ∀ name, name ∈ (t.insert p text).namesBelow directory ↔
      name ∈ t.namesBelow directory := fun name =>
    (mem_namesBelow_insert hNormal).trans (or_iff_left (hLeads name))
  have hIs : (t.insert p text).isDirectory directory = t.isDirectory directory := by
    rw [Bool.eq_iff_iff, isDirectory_iff, isDirectory_iff]
    exact exists_congr hSame
  have hNames : (t.insert p text).namesBelow directory = t.namesBelow directory :=
    List.Pairwise.eq_of_mem_iff (pairwise_lt_namesBelow _ _) (pairwise_lt_namesBelow _ _) hSame
  simp only [list, hDirectory.normalize_eq, hIs, hNames]

/-- In the directory of a stored file, the names that a condition accepts stay, unless it accepts
one that leads to the new file. -/
theorem map_filter_list_insert (hNormal : p.IsNormal) (text : String) (hFile : file ∈ t.paths)
    (hFileNormal : file.IsNormal) (hName : file.fileName? = some name) {accepts : String → Bool}
    (hLeads : ∀ new, file.dirname.Leads new p → accepts new = false) :
    ((t.insert p text).list file.dirname).map (List.filter accepts) =
      (t.list file.dirname).map (List.filter accepts) := by
  have hDirectory := (hFileNormal.isNormal_dirname hName).1
  by_cases hNone : ∀ new, ¬ file.dirname.Leads new p
  · rw [list_insert_of_not_leads hNormal hDirectory hNone]
  · obtain ⟨new, hNew⟩ := not_forall_not.mp hNone
    have hOld : name ∈ t.namesBelow file.dirname :=
      mem_namesBelow.mpr ⟨file, hFile, hFileNormal.leads_dirname hName (hNew.ne_dot hNormal)⟩
    rw [list_of_mem hDirectory hOld,
      list_of_mem hDirectory ((mem_namesBelow_insert hNormal).mpr (Or.inl hOld))]
    refine congrArg Except.ok ?_
    refine List.Pairwise.eq_of_mem_iff ((pairwise_lt_namesBelow _ _).filter _)
      ((pairwise_lt_namesBelow _ _).filter _) fun other => ?_
    rw [List.mem_filter, List.mem_filter, mem_namesBelow_insert hNormal]
    refine and_congr_left fun hAccepts => or_iff_left fun hOther => ?_
    rw [hLeads other hOther] at hAccepts
    cases hAccepts

theorem differsAt_insert (t : FileTree) (hNormal : p.IsNormal) (text : String) :
    t.system.DiffersAt p (t.insert p text).system where
  normal := hNormal
  resolve := rfl
  resolve_eq := rfl
  stored file hOther := (mem_paths_insert hNormal).trans (or_iff_left hOther)
  isFile path hOther := by
    simp only [system, FileTree.isFile]
    rw [Bool.eq_iff_iff, List.contains_iff_mem, List.contains_iff_mem]
    exact (mem_paths_insert hNormal).trans (or_iff_left hOther)
  isFile_self path hSelf := by
    simp only [system, FileTree.isFile]
    rw [List.contains_iff_mem]
    exact (mem_paths_insert hNormal).mpr (Or.inr hSelf)
  read path hOther := by
    simp only [system, FileTree.read, get?_insert_of_ne hNormal hOther]
  listed directory name hDirectory hLeads := by
    have hName : name ∈ (t.insert p text).namesBelow directory :=
      (mem_namesBelow_insert hNormal).mpr (Or.inr hLeads)
    exact ⟨_, by simp only [system, list_of_mem hDirectory hName]; rfl, hName⟩
  list file name hFile hFileNormal hName accepts hLeads := by
    simp only [system, map_mapError]
    rw [map_filter_list_insert hNormal text hFile hFileNormal hName hLeads]

end FileTree

end BraceDoc
