import BraceDoc.Import.Walk
import BraceDoc.Proofs.Files.Tree
import BraceDoc.Proofs.Path.Order

/-!
# Companions

The companions of a file are the paths in its directory whose names are the stem of the file, a tag
and its extension, in the order of paths. A plain name of that shape never leads back to the file.
-/

set_option autoImplicit false

namespace BraceDoc

/-- Stem, tag and extension with dots between them, where the tag is not empty. -/
def Path.CompanionName (file : Path) (name : String) : Prop :=
  ∃ stem tag extension : String, file.stem? = some stem ∧ file.extension? = some extension ∧
    tag ≠ "" ∧ name = stem ++ "." ++ tag ++ "." ++ extension

theorem Walk.isCompanionName_iff (stem extension name : String) :
    isCompanionName stem extension name = true ↔
      ∃ tag : String, tag ≠ "" ∧ name = stem ++ "." ++ tag ++ "." ++ extension := by
  simp only [isCompanionName, Bool.and_eq_true, decide_eq_true_eq, List.isPrefixOf_iff_prefix,
    List.isSuffixOf_iff_suffix]
  constructor
  · rintro ⟨⟨hLength, ⟨rest, hFront⟩⟩, hBack⟩
    have hSuffix : '.' :: extension.toList <:+ rest := by
      refine List.suffix_of_suffix_length_le hBack (hFront ▸ List.suffix_append _ rest) ?_
      rw [← hFront] at hLength
      simp only [List.length_append] at hLength
      omega
    obtain ⟨tag, rfl⟩ := hSuffix
    refine ⟨String.ofList tag, ?_, ?_⟩
    · intro hTag
      have hEmpty : tag = [] := by simpa using hTag
      rw [← hFront, hEmpty] at hLength
      simp only [List.length_append, List.length_cons, List.length_nil] at hLength
      omega
    · rw [← String.toList_inj, ← hFront]
      simp
  · rintro ⟨tag, hTag, rfl⟩
    have hPos : 0 < tag.toList.length := by
      rw [List.length_pos_iff]
      simpa using hTag
    refine ⟨⟨?_, ?_⟩, ?_⟩
    · simp only [String.toList_append, List.length_append, List.length_cons]
      change _ < _
      have hDot : ".".toList.length = 1 := rfl
      simp only [List.length_nil]
      omega
    · refine ⟨tag.toList ++ '.' :: extension.toList, ?_⟩
      simp
    · refine ⟨stem.toList ++ '.' :: tag.toList, ?_⟩
      simp

theorem Path.companionName_iff {file : Path} {stem extension : String}
    (hStem : file.stem? = some stem) (hExtension : file.extension? = some extension)
    (name : String) :
    file.CompanionName name ↔ Walk.isCompanionName stem extension name = true := by
  rw [Walk.isCompanionName_iff]
  constructor
  · rintro ⟨stem', tag, extension', hStem', hExtension', hTag, hName⟩
    cases hStem.symm.trans hStem'
    cases hExtension.symm.trans hExtension'
    exact ⟨tag, hTag, hName⟩
  · rintro ⟨tag, hTag, hName⟩
    exact ⟨stem, tag, extension, hStem, hExtension, hTag, hName⟩

instance (file : Path) (name : String) : Decidable (file.CompanionName name) :=
  match hStem : file.stem?, hExtension : file.extension? with
  | some stem, some extension =>
    decidable_of_iff (Walk.isCompanionName stem extension name = true)
      (Path.companionName_iff hStem hExtension name).symm
  | none, _ => isFalse (by
      rintro ⟨stem, tag, extension, hSome, -⟩
      cases hStem.symm.trans hSome)
  | some _, none => isFalse (by
      rintro ⟨stem, tag, extension, -, hSome, -⟩
      cases hExtension.symm.trans hSome)

def Path.companionPaths (file : Path) (names : List String) : List Path :=
  (names.filter fun name => decide (file.CompanionName name)).map fun name =>
    file.dirname.resolve ⟨name⟩

namespace Path

theorem fileName?_of_splitName? {file : Path} {stem extension : String}
    (hSplit : file.splitName? = some (stem, some extension)) :
    stem ≠ "" ∧ file.fileName? = some (stem ++ "." ++ extension) := by
  obtain ⟨name, hName, hParts⟩ := Option.map_eq_some_iff.mp hSplit
  simp only at hParts
  split at hParts
  · rename_i behind before hCut
    split at hParts
    · cases hParts
    · rename_i hBefore
      cases hParts
      refine ⟨?_, ?_⟩
      · intro hEmpty
        apply hBefore
        simpa using hEmpty
      · have hReversed := Text.cut?_eq_append hCut
        rw [hName, Option.some.injEq, ← String.toList_inj, ← List.reverse_inj, hReversed]
        simp
  · cases hParts

theorem fileName?_of_extension? {file : Path} {stem extension : String}
    (hStem : file.stem? = some stem) (hExtension : file.extension? = some extension) :
    stem ≠ "" ∧ file.fileName? = some (stem ++ "." ++ extension) := by
  obtain ⟨⟨first, second⟩, hSplit, rfl⟩ := Option.map_eq_some_iff.mp hStem
  rw [extension?, hSplit] at hExtension
  cases hExtension
  exact fileName?_of_splitName? hSplit

theorem resolve_companionName_ne {file : Path} {name : String} (hNormal : file.IsNormal)
    (hCompanion : file.CompanionName name) (hSlash : '/' ∉ name.toList) :
    file.dirname.resolve ⟨name⟩ ≠ file := by
  obtain ⟨stem, tag, extension, hStem, hExtension, hTag, rfl⟩ := hCompanion
  obtain ⟨hFilled, hFile⟩ := fileName?_of_extension? hStem hExtension
  -- The name is longer than that of the file, and longer than the segments that are no names.
  have hLong : ∀ text : String, stem ++ "." ++ tag ++ "." ++ extension = text →
      text.toList.length = stem.toList.length + 1 + tag.toList.length + 1 +
        extension.toList.length := by
    rintro text rfl
    simp only [String.toList_append, List.length_append]
    rfl
  have hStemLength : 0 < stem.toList.length := by
    rw [List.length_pos_iff]
    simpa using hFilled
  have hTagLength : 0 < tag.toList.length := by
    rw [List.length_pos_iff]
    simpa using hTag
  have hLength := hLong _ rfl
  refine resolve_dirname_ne hNormal hFile ⟨hSlash, ?_, ?_⟩ ?_
  · rw [isIdle, Bool.or_eq_false_iff, decide_eq_false_iff_not, decide_eq_false_iff_not]
    constructor
    · intro hEmpty
      rw [hEmpty, List.length_nil] at hLength
      omega
    · intro hDot
      rw [hDot, List.length_singleton] at hLength
      omega
  · intro hUp
    rw [hUp] at hLength
    simp only [List.length_cons, List.length_nil] at hLength
    omega
  · intro hSame
    have hShort := hLong _ hSame
    simp only [String.toList_append, List.length_append] at hShort
    have hDot : ".".toList.length = 1 := rfl
    omega

theorem not_mem_companionPaths {file : Path} {names : List String} (hNormal : file.IsNormal)
    (hPlain : ∀ name ∈ names, file.CompanionName name → '/' ∉ name.toList) :
    file ∉ file.companionPaths names := by
  intro hMem
  obtain ⟨name, hName, hFile⟩ := List.mem_map.mp hMem
  obtain ⟨hListed, hCompanion⟩ := List.mem_filter.mp hName
  have hCompanion := of_decide_eq_true hCompanion
  exact resolve_companionName_ne hNormal hCompanion (hPlain name hListed hCompanion) hFile

theorem companionPaths_eq_nil {file : Path} (hNone : file.stem? = none ∨ file.extension? = none)
    (names : List String) : file.companionPaths names = [] := by
  rw [companionPaths, List.map_eq_nil_iff, List.filter_eq_nil_iff]
  intro name _ hCompanion
  obtain ⟨stem, tag, extension, hStem, hExtension, -⟩ := of_decide_eq_true hCompanion
  rcases hNone with hNone | hNone
  · cases hNone.symm.trans hStem
  · cases hNone.symm.trans hExtension

theorem same_iff_eq {p q : Path} (hFirst : p.IsNormal) (hSecond : q.IsNormal) :
    p.same q = true ↔ p = q := by
  rw [same, decide_eq_true_eq]
  exact ⟨hFirst.eq_of_parts hSecond, congrArg parts⟩

end Path

namespace Walk

theorem companionsAmong_eq {setup : WalkSetup} {file : Path} {stem extension : String}
    (hResolve : setup.system.resolve = Path.resolve) (hNormal : file.IsNormal)
    (hStem : file.stem? = some stem) (hExtension : file.extension? = some extension)
    (names : List String) :
    companionsAmong setup file file.dirname stem extension names =
      ((file.companionPaths names).filter fun path => decide (path ≠ file)).mergeSort Path.le := by
  have hNames : ∀ name, isCompanionName stem extension name = decide (file.CompanionName name) := by
    intro name
    rw [Bool.eq_iff_iff, decide_eq_true_eq, Path.companionName_iff hStem hExtension]
  have hPaths : ∀ name : String,
      (Path.resolve file.dirname ⟨name⟩).normalize = file.dirname.resolve ⟨name⟩ := fun name =>
    (Path.isNormal_normalize _).normalize_eq
  rw [companionsAmong, Path.companionPaths, hResolve]
  simp only [hPaths, funext hNames]
  congr 1
  apply List.filter_congr
  intro path hPath
  obtain ⟨name, -, rfl⟩ := List.mem_map.mp hPath
  have hSame := Path.same_iff_eq (Path.isNormal_normalize (file.dirname.join ⟨name⟩)) hNormal
  rw [Bool.eq_iff_iff, Bool.not_eq_true', ← Bool.not_eq_true, decide_eq_true_eq]
  exact not_congr hSame

/-- Everything that looking for companions can give. -/
theorem companionTasks_cases (setup : WalkSetup) (file : Path) :
    (∃ stem extension names, setup.companions = true ∧ file.stem? = some stem ∧
      file.extension? = some extension ∧ setup.system.list file.dirname = .ok names ∧
      companionTasks setup file =
        ((companionsAmong setup file file.dirname stem extension names).map (.companion file),
          [])) ∨
    (∃ reason, setup.companions = true ∧ setup.system.list file.dirname = .error reason ∧
      companionTasks setup file =
        ([], [(Problem.unlistable file.dirname reason).located (some file) none])) ∨
    (setup.companions = false ∨ file.stem? = none ∨ file.extension? = none) ∧
      companionTasks setup file = ([], []) := by
  unfold companionTasks companionsOf
  cases hOn : setup.companions with
  | false => exact Or.inr (Or.inr ⟨Or.inl rfl, rfl⟩)
  | true =>
    cases hStem : file.stem? with
    | none => exact Or.inr (Or.inr ⟨Or.inr (Or.inl rfl), rfl⟩)
    | some stem =>
      cases hExtension : file.extension? with
      | none => exact Or.inr (Or.inr ⟨Or.inr (Or.inr rfl), rfl⟩)
      | some extension =>
        cases hList : setup.system.list file.dirname with
        | error reason => exact Or.inr (Or.inl ⟨reason, rfl, rfl, by simp [hList]⟩)
        | ok names =>
          exact Or.inl ⟨stem, extension, names, rfl, rfl, rfl, rfl, by simp [hList]⟩

end Walk

/-- The names beside a file, as far as companions are looked for and the directory can be listed. -/
def WalkSetup.namesBeside (setup : WalkSetup) (file : Path) : List String :=
  match setup.companions, setup.system.list file.dirname with
  | true, .ok names => names
  | _, _ => []

/-- The companions of a file in the order of paths. A listed name with a slash in it may lead back
to the file; only then is a path left out. -/
structure WalkSetup.CompanionsOf (setup : WalkSetup) (file : Path) (companions : List Path) :
    Prop where
  sorted : companions.Pairwise fun p q => p.le q = true
  others : companions.Perm
    ((file.companionPaths (setup.namesBeside file)).filter fun path => decide (path ≠ file))
  all : (∀ name ∈ setup.namesBeside file, file.CompanionName name → '/' ∉ name.toList) →
    companions.Perm (file.companionPaths (setup.namesBeside file))

theorem WalkSetup.companionsOf_mergeSort {setup : WalkSetup} {file : Path}
    (hNormal : file.IsNormal) :
    setup.CompanionsOf file (((file.companionPaths (setup.namesBeside file)).filter
      fun path => decide (path ≠ file)).mergeSort Path.le) := by
  refine ⟨Path.pairwise_mergeSort_le _, List.mergeSort_perm _ _, ?_⟩
  intro hPlain
  have hKept : (file.companionPaths (setup.namesBeside file)).filter
      (fun path => decide (path ≠ file)) = file.companionPaths (setup.namesBeside file) := by
    rw [List.filter_eq_self]
    intro path hPath
    apply decide_eq_true
    rintro rfl
    exact Path.not_mem_companionPaths hNormal hPlain hPath
  rw [hKept]
  exact List.mergeSort_perm _ _

theorem WalkSetup.exists_companions {setup : WalkSetup} {file : Path}
    (hResolve : setup.system.resolve = Path.resolve) (hNormal : file.IsNormal) :
    ∃ companions, setup.CompanionsOf file companions ∧
      (Walk.companionTasks setup file).1 = companions.map (.companion file) := by
  refine ⟨_, companionsOf_mergeSort hNormal, ?_⟩
  obtain ⟨stem, extension, names, hOn, hStem, hExtension, hList, hTasks⟩ |
    ⟨reason, hOn, hList, hTasks⟩ | ⟨hNone, hTasks⟩ := Walk.companionTasks_cases setup file
  · have hNames : setup.namesBeside file = names := by
      rw [namesBeside, hOn, hList]
    rw [hTasks, hNames, Walk.companionsAmong_eq hResolve hNormal hStem hExtension]
  · have hPaths : file.companionPaths (setup.namesBeside file) = [] := by
      rw [namesBeside, hOn, hList]
      rfl
    rw [hTasks, hPaths, List.filter_nil, List.mergeSort_nil, List.map_nil]
  · have hPaths : file.companionPaths (setup.namesBeside file) = [] := by
      rcases hNone with hOff | hNone
      · rw [namesBeside, hOff]
        rfl
      · exact Path.companionPaths_eq_nil hNone _
    rw [hTasks, hPaths, List.filter_nil, List.mergeSort_nil, List.map_nil]

/-! ## Listings of a file tree -/

theorem Path.slash_not_mem_of_mem_parts {p : Path} {part : Part} (hPart : part ∈ p.parts)
    (hRoot : part ≠ .root) : '/' ∉ part.text.toList := by
  by_cases hHere : part = .here
  · subst hHere
    decide
  · have hSound := sound_of_mem_steps (List.mem_filter.mpr ⟨hPart, decide_eq_true hHere⟩)
    cases part with
    | root => exact absurd rfl hRoot
    | here => exact absurd rfl hHere
    | up => decide
    | name text => exact hSound.1

theorem FileTree.slash_not_mem_of_list {t : FileTree} {directory : Path} {names : List String}
    {name : String} (hList : t.system.list directory = .ok names) (hName : name ∈ names)
    (hRoot : name ≠ "/") : '/' ∉ name.toList := by
  simp only [FileTree.system, FileTree.list] at hList
  split at hList
  · cases hList
    obtain ⟨file, -, part, rest, hParts, rfl⟩ := mem_namesBelow.mp hName
    have hPart : part ∈ file.parts := by
      rw [hParts]
      exact List.mem_append_right _ List.mem_cons_self
    apply Path.slash_not_mem_of_mem_parts hPart
    rintro rfl
    exact hRoot rfl
  · cases hList

theorem FileTree.mem_namesBeside {t : FileTree} {setup : WalkSetup} {file : Path} {name : String}
    (hOn : setup.companions = true)
    (hList : setup.system.list file.dirname = t.system.list file.dirname) :
    name ∈ setup.namesBeside file ↔ name ∈ t.namesBelow file.dirname.normalize := by
  rw [WalkSetup.namesBeside, hOn, hList]
  cases hDirectory : t.isDirectory file.dirname.normalize with
  | true => simp only [system, list, hDirectory, if_true, Except.mapError]
  | false =>
    simp only [system, list, hDirectory, Bool.false_eq_true, if_false, Except.mapError,
      List.not_mem_nil, false_iff]
    intro hName
    rw [isDirectory_iff.mpr ⟨name, hName⟩] at hDirectory
    cases hDirectory

theorem Path.CompanionName.ne_slash {file : Path} {name : String}
    (hCompanion : file.CompanionName name) : name ≠ "/" := by
  obtain ⟨stem, tag, extension, -, -, -, rfl⟩ := hCompanion
  intro hSlash
  have hDot : '.' ∈ (stem ++ "." ++ tag ++ "." ++ extension).toList := by simp
  rw [hSlash] at hDot
  exact absurd hDot (by decide)

/-- Where the listing is that of a file tree, no companion is left out. -/
theorem WalkSetup.CompanionsOf.perm_of_list {setup : WalkSetup} {t : FileTree} {file : Path}
    {companions : List Path} (hCompanions : setup.CompanionsOf file companions)
    (hList : setup.system.list file.dirname = t.system.list file.dirname) :
    companions.Perm (file.companionPaths (setup.namesBeside file)) := by
  apply hCompanions.all
  intro name hName hCompanion
  rw [namesBeside] at hName
  split at hName
  · rename_i hOk
    exact FileTree.slash_not_mem_of_list (hList.symm.trans hOk) hName hCompanion.ne_slash
  · cases hName

end BraceDoc
