import BraceDoc.Setting.Fold
import BraceDoc.Proofs.Json.Members
import BraceDoc.Proofs.Path.Normal
import BraceDoc.Proofs.Text.Blank

/-!
# Looking up what was assigned

An assignment changes what its own path leads to, and with it what can be found on the way there and
behind it. Every other path leads to the same value as before, whatever the operator. So a value
that was set is found until a related path is assigned.
-/

set_option autoImplicit false

namespace BraceDoc.Setting

open Json (Members)

def Apart (path other : List String) : Prop :=
  ¬ path <+: other ∧ ¬ other <+: path

instance (path other : List String) : Decidable (Apart path other) :=
  inferInstanceAs (Decidable (¬ path <+: other ∧ ¬ other <+: path))

theorem Apart.ne_nil {path other : List String} (hApart : Apart path other) :
    path ≠ [] ∧ other ≠ [] := by
  constructor
  · rintro rfl
    exact hApart.1 List.nil_prefix
  · rintro rfl
    exact hApart.2 List.nil_prefix

theorem Apart.tail {key : String} {path other : List String}
    (hApart : Apart (key :: path) (key :: other)) : Apart path other := by
  constructor
  · intro hPrefix
    exact hApart.1 ((List.prefix_cons_inj key).mpr hPrefix)
  · intro hPrefix
    exact hApart.2 ((List.prefix_cons_inj key).mpr hPrefix)

/-! ## One step along a path -/

/-- The members of what a key holds; none where it holds no object. -/
def inside (key : String) (settings : Settings) : Settings :=
  (Json.ofOption (Members.get? key settings)).members

theorem lookupPath_nil_settings (path : List String) : lookupPath path [] = none := by
  match path with
  | [] => rfl
  | [_] => rfl
  | _ :: _ :: _ => rfl

theorem lookupPath_cons (key : String) {rest : List String} (hRest : rest ≠ [])
    (settings : Settings) :
    lookupPath (key :: rest) settings = lookupPath rest (inside key settings) := by
  obtain ⟨next, more, rfl⟩ := List.exists_cons_of_ne_nil hRest
  rw [lookupPath, inside]
  · split
    · rename_i inner hGet
      rw [hGet]
      rfl
    · rename_i hOther
      suffices hNone : (Json.ofOption (Members.get? key settings)).members = [] by
        rw [hNone, lookupPath_nil_settings]
      unfold Json.members
      split
      · rename_i inner hObject
        cases hGet : Members.get? key settings with
        | none => rw [hGet] at hObject; cases hObject
        | some value =>
          rw [hGet] at hObject
          cases (show value = .obj inner from hObject)
          exact absurd hGet (hOther inner)
      · rfl
  · simp

theorem applyPath_cons (operator : Operator) (value : Option Json) (key : String)
    {rest : List String} (hRest : rest ≠ []) (settings : Settings) :
    applyPath operator value (key :: rest) settings =
      Members.insert key (.obj (applyPath operator value rest (inside key settings))) settings := by
  obtain ⟨next, more, rfl⟩ := List.exists_cons_of_ne_nil hRest
  rfl

@[simp] theorem inside_insert_obj (key : String) (members settings : Settings) :
    inside key (Members.insert key (.obj members) settings) = members := by
  rw [inside, Members.get?_insert_self]
  rfl

theorem lookupPath_congr {key : String} {settings other : Settings}
    (hGet : Members.get? key settings = Members.get? key other) (rest : List String) :
    lookupPath (key :: rest) settings = lookupPath (key :: rest) other := by
  cases rest with
  | nil => exact hGet
  | cons next more =>
    rw [lookupPath_cons key (List.cons_ne_nil _ _), lookupPath_cons key (List.cons_ne_nil _ _),
      inside, inside, hGet]

/-! ## Assignments -/

/-- What an operator makes of the value at `key`; none where it leaves no member. -/
def changed (key : String) (operator : Operator) (value old : Option Json) : Option Json :=
  match operator with
  | .set => some (value.getD .null)
  | .append => some (.arr (listBefore key old ++ [value.getD .null]))
  | .remove =>
    match old, value with
    | some (.arr items), some value => some (.arr (items.filter fun item => !item.same value))
    | _, _ => old
  | .reset => if isPlural key then some (.arr value.toList) else value

/-- An operator inserts the changed value, or leaves the holder as it is, or erases the member. -/
theorem applyAt_cases (key : String) (operator : Operator) (value : Option Json)
    (holder : Settings) :
    (∃ new, changed key operator value (Members.get? key holder) = some new ∧
        applyAt key operator value holder = Members.insert key new holder) ∨
      (changed key operator value (Members.get? key holder) = Members.get? key holder ∧
        applyAt key operator value holder = holder) ∨
      (value = none ∧ changed key operator value (Members.get? key holder) = none ∧
        applyAt key operator value holder = Members.erase key holder) := by
  cases operator with
  | set => exact Or.inl ⟨_, rfl, rfl⟩
  | append => exact Or.inl ⟨_, rfl, rfl⟩
  | remove =>
    by_cases hList : ∃ items item, Members.get? key holder = some (.arr items) ∧ value = some item
    · obtain ⟨items, item, hGet, rfl⟩ := hList
      refine Or.inl ⟨.arr (items.filter fun old => !old.same item), ?_, ?_⟩
      · rw [hGet]
        rfl
      · simp only [applyAt, hGet]
    · refine Or.inr (Or.inl ⟨?_, ?_⟩)
      · simp only [changed]
        split
        · rename_i hGet
          exact (hList ⟨_, _, hGet, rfl⟩).elim
        · rfl
      · simp only [applyAt]
        split
        · rename_i hGet
          exact (hList ⟨_, _, hGet, rfl⟩).elim
        · rfl
  | reset =>
    simp only [applyAt, changed]
    split
    · exact Or.inl ⟨_, rfl, rfl⟩
    · cases value with
      | some new => exact Or.inl ⟨new, rfl, rfl⟩
      | none => exact Or.inr (Or.inr ⟨rfl, rfl, rfl⟩)

theorem get?_applyAt_of_ne {key other : String} (hOther : other ≠ key) (operator : Operator)
    (value : Option Json) (holder : Settings) :
    Members.get? other (applyAt key operator value holder) = Members.get? other holder := by
  obtain ⟨new, -, hApply⟩ | ⟨-, hApply⟩ | ⟨-, -, hApply⟩ := applyAt_cases key operator value holder
  · rw [hApply, Members.get?_insert_of_ne hOther]
  · rw [hApply]
  · rw [hApply, Members.get?_erase_of_ne hOther]

theorem get?_applyAt_self (key : String) (operator : Operator) {value : Option Json}
    {holder : Settings} (hSorted : value = none → holder.Sorted) :
    Members.get? key (applyAt key operator value holder) =
      changed key operator value (Members.get? key holder) := by
  obtain ⟨new, hNew, hApply⟩ | ⟨hOld, hApply⟩ | ⟨hNone, hGone, hApply⟩ :=
    applyAt_cases key operator value holder
  · rw [hApply, hNew, Members.get?_insert_self]
  · rw [hApply, hOld]
  · rw [hApply, hGone, (hSorted hNone).get?_erase_self]

theorem get?_applyPath_of_ne {key other : String} (hOther : other ≠ key) (operator : Operator)
    (value : Option Json) (rest : List String) (settings : Settings) :
    Members.get? other (applyPath operator value (key :: rest) settings) =
      Members.get? other settings := by
  cases rest with
  | nil => exact get?_applyAt_of_ne hOther operator value settings
  | cons next more =>
    rw [applyPath_cons operator value key (List.cons_ne_nil _ _)]
    exact Members.get?_insert_of_ne hOther _ _

theorem lookupPath_applyPath_self {path : List String} (hPath : path ≠ []) (operator : Operator)
    (value : Json) (settings : Settings) :
    lookupPath path (applyPath operator (some value) path settings) =
      changed (path.getLast hPath) operator (some value) (lookupPath path settings) := by
  induction path generalizing settings with
  | nil => exact absurd rfl hPath
  | cons key rest ih =>
    cases rest with
    | nil =>
      exact get?_applyAt_self key operator fun hNone => absurd hNone (Option.some_ne_none value)
    | cons next more =>
      have hRest : next :: more ≠ [] := List.cons_ne_nil next more
      rw [applyPath_cons _ _ key hRest, lookupPath_cons key hRest, inside_insert_obj, ih hRest,
        lookupPath_cons key hRest, List.getLast_cons hRest]

theorem lookupPath_applyPath_set {path : List String} (hPath : path ≠ []) (value : Json)
    (settings : Settings) :
    lookupPath path (applyPath .set (some value) path settings) = some value :=
  lookupPath_applyPath_self hPath .set value settings

theorem lookupPath_applyPath_of_apart {path other : List String} (hApart : Apart path other)
    (operator : Operator) (value : Option Json) (settings : Settings) :
    lookupPath path (applyPath operator value other settings) = lookupPath path settings := by
  induction path generalizing other settings with
  | nil => exact absurd rfl hApart.ne_nil.1
  | cons key rest ih =>
    obtain ⟨first, more, rfl⟩ := List.exists_cons_of_ne_nil hApart.ne_nil.2
    by_cases hSame : key = first
    · subst hSame
      obtain ⟨hRest, hMore⟩ := hApart.tail.ne_nil
      rw [applyPath_cons operator value key hMore, lookupPath_cons key hRest,
        lookupPath_cons key hRest,
        inside_insert_obj]
      exact ih hApart.tail _
    · exact lookupPath_congr (get?_applyPath_of_ne hSame operator value more settings) rest

theorem lookupPath_foldl_apply {path : List String} {later : List Assignment}
    (hApart : ∀ b ∈ later, Apart path b.path) (settings : Settings) :
    lookupPath path (later.foldl apply settings) = lookupPath path settings := by
  induction later generalizing settings with
  | nil => rfl
  | cons b later ih =>
    obtain ⟨hFirst, hLater⟩ := List.forall_mem_cons.mp hApart
    rw [List.foldl_cons, ih hLater]
    exact lookupPath_applyPath_of_apart hFirst b.operator b.value settings

/-! ## Dotted paths -/

/-- A part of a path that survives being written between dots. -/
def IsSegment (segment : String) : Prop :=
  segment.toList ≠ [] ∧ '.' ∉ segment.toList

instance (segment : String) : Decidable (IsSegment segment) :=
  inferInstanceAs (Decidable (segment.toList ≠ [] ∧ '.' ∉ segment.toList))

theorem lookup_intercalate {path : List String} (hPath : path ≠ [])
    (hSegments : ∀ segment ∈ path, IsSegment segment) (settings : Settings) :
    lookup (String.intercalate "." path) settings = lookupPath path settings := by
  have hText : (String.intercalate "." path).toList =
      Text.joined ['.'] (path.map String.toList) := by
    rw [String.toList_intercalate, Path.joined_eq_intercalate]
    rfl
  have hFields : Text.fields '.' (String.intercalate "." path).toList = path.map String.toList := by
    rw [hText]
    apply Text.fields_joined (mt List.map_eq_nil_iff.mp hPath)
    exact List.forall_mem_map.mpr fun segment hSegment => (hSegments segment hSegment).2
  have hShown : (path.map String.toList).filter (fun segment => !segment.isEmpty) =
      path.map String.toList := by
    rw [List.filter_eq_self]
    refine List.forall_mem_map.mpr fun segment hSegment => ?_
    simp [List.isEmpty_eq_false_iff.mpr (hSegments segment hSegment).1]
  rw [lookup, hFields, hShown, List.map_map]
  congr 1
  exact (List.map_congr_left fun _ _ => String.ofList_toList).trans (List.map_id _)

theorem isSegment_of_mem_pathSegments {cs : List Char} {segment : String}
    (hSegment : segment ∈ pathSegments cs) : IsSegment segment := by
  obtain ⟨trimmed, hTrimmed, rfl⟩ := List.mem_map.mp hSegment
  obtain ⟨hMapped, hSome⟩ := List.mem_filter.mp hTrimmed
  obtain ⟨field, hField, rfl⟩ := List.mem_map.mp hMapped
  obtain ⟨before, behind, -, -, hText⟩ := Text.exists_append_trim field
  rw [IsSegment, String.toList_ofList]
  constructor
  · simpa using hSome
  · intro hDot
    apply Text.not_mem_of_mem_fields hField
    rw [hText]
    exact List.mem_append_right _ (List.mem_append_left _ hDot)

theorem path_of_parseClause {clause : List Char} {a : Assignment}
    (hParse : parseClause clause = .ok a) :
    a.path ≠ [] ∧ ∀ segment ∈ a.path, IsSegment segment := by
  rw [parseClause] at hParse
  split at hParse
  · cases hParse
  · simp only at hParse
    split at hParse
    · cases hParse
    · rename_i hSome
      cases hParse
      exact ⟨mt List.isEmpty_iff.mpr hSome, fun segment hSegment =>
        isSegment_of_mem_pathSegments hSegment⟩

end BraceDoc.Setting
