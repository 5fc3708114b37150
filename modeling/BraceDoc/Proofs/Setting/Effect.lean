import BraceDoc.Proofs.Setting.Lookup

/-!
# What an assignment changes

Seen from an object, an assignment changes the member at the first segment of its path, in a way
that depends on this member only. So it decides what its own path leads to and leaves every path
apart from it alone. Assignments to paths apart from each other can change places, and an assignment
that overwrites a path makes up for all that was assigned behind it.
-/

set_option autoImplicit false

namespace BraceDoc.Setting

open Json (Members)

/-- What an assignment to `key :: rest` makes of the value at `key`. -/
def changedBehind (operator : Operator) (value : Option Json) (key : String) (rest : List String)
    (old : Option Json) : Option Json :=
  match rest with
  | [] => changed key operator value old
  | _ :: _ => some (.obj (applyPath operator value rest (Json.ofOption old).members))

theorem changedBehind_of_ne_nil (operator : Operator) (value : Option Json) (key : String)
    {rest : List String} (hRest : rest ≠ []) (old : Option Json) :
    changedBehind operator value key rest old =
      some (.obj (applyPath operator value rest (Json.ofOption old).members)) := by
  obtain ⟨next, more, rfl⟩ := List.exists_cons_of_ne_nil hRest
  rfl

theorem get?_applyPath (operator : Operator) (value : Option Json) (key : String)
    (rest : List String) {settings : Settings} (hSorted : settings.Sorted) (seen : String) :
    Members.get? seen (applyPath operator value (key :: rest) settings) =
      if seen = key then changedBehind operator value key rest (Members.get? seen settings)
      else Members.get? seen settings := by
  split
  · rename_i hSame
    subst hSame
    cases rest with
    | nil => exact get?_applyAt_self seen operator fun _ => hSorted
    | cons next more => exact Members.get?_insert_self seen _ settings
  · rename_i hOther
    exact get?_applyPath_of_ne hOther operator value rest settings

/-! ## Looking up the path of an assignment -/

/-- What an append to `key` keeps of the old value, in front of the new item. -/
inductive Keeps (key : String) : Option Json → List Json → Prop where
  | items (items : List Json) : Keeps key (some (.arr items)) items
  | single {value : Json} (hList : ∀ items, value ≠ .arr items) (hNull : value ≠ .null)
    (hKey : isPlural key = false) : Keeps key (some value) [value]
  | plural {value : Json} (hList : ∀ items, value ≠ .arr items) (hKey : isPlural key = true) :
    Keeps key (some value) []
  | null : Keeps key (some .null) []
  | absent : Keeps key none []

theorem keeps_listBefore (key : String) (old : Option Json) :
    Keeps key old (listBefore key old) := by
  unfold listBefore
  split
  · exact .items _
  · exact .absent
  · exact .null
  · rename_i value hList hNull
    split
    · rename_i hKey
      exact .plural hList hKey
    · rename_i hKey
      exact .single hList hNull (Bool.eq_false_iff.mpr hKey)

/-- An assignment decides what its path leads to: the value that was set, or a list that ends in the
appended value. It changes nothing at the paths apart from its own. -/
theorem lookup_apply (settings : Settings) (a : Assignment) (hPath : a.path ≠ [])
    (hSegments : ∀ segment ∈ a.path, IsSegment segment) :
    (∀ value, a.value = some value →
        (a.operator = .set ∨ a.operator = .reset ∧ isPlural (a.path.getLast hPath) = false →
          lookup (String.intercalate "." a.path) (apply settings a) = some value) ∧
        (a.operator = .append →
          ∃ kept, lookup (String.intercalate "." a.path) (apply settings a) =
              some (.arr (kept ++ [value])) ∧
            Keeps (a.path.getLast hPath) (lookup (String.intercalate "." a.path) settings) kept)) ∧
      ∀ other, other ≠ [] → (∀ segment ∈ other, IsSegment segment) → Apart other a.path →
        lookup (String.intercalate "." other) (apply settings a) =
          lookup (String.intercalate "." other) settings := by
  constructor
  · intro value hValue
    have hSelf := lookupPath_applyPath_self hPath a.operator value settings
    rw [← hValue, ← apply, ← lookup_intercalate hPath hSegments,
      ← lookup_intercalate hPath hSegments] at hSelf
    constructor
    · rintro (hSet | ⟨hReset, hSingle⟩)
      · rw [hSelf, hSet, hValue]
        rfl
      · rw [hSelf, hReset, changed, hSingle, hValue]
        rfl
    · intro hAppend
      refine ⟨_, ?_, keeps_listBefore _ _⟩
      rw [hSelf, hAppend, hValue]
      rfl
  · intro other hOther hParts hApart
    rw [lookup_intercalate hOther hParts, lookup_intercalate hOther hParts]
    exact lookupPath_applyPath_of_apart hApart a.operator a.value settings

/-- A single value with a plain name beside another member. -/
def taggedSettings : Settings :=
  [("doc", .obj [("by", .str "me"), ("tag", .str "x")])]

theorem lookup_apply_tagged :
    let appended := apply taggedSettings ⟨["doc", "tag"], .append, some (.int 1)⟩
    (∀ segment ∈ ["doc", "tag"], IsSegment segment) ∧ Apart ["doc", "by"] ["doc", "tag"] ∧
      lookup (String.intercalate "." ["doc", "tag"]) appended =
        some (.arr [.str "x", .int 1]) ∧
      lookup (String.intercalate "." ["doc", "by"]) appended = some (.str "me") := by
  intro appended
  have hSegments : ∀ segment ∈ ["doc", "tag"], IsSegment segment := by decide
  have hApart : Apart ["doc", "by"] ["doc", "tag"] := by decide
  obtain ⟨hOwn, hOther⟩ := lookup_apply taggedSettings ⟨["doc", "tag"], .append, some (.int 1)⟩
    (List.cons_ne_nil _ _) hSegments
  refine ⟨hSegments, hApart, ?_, ?_⟩
  · obtain ⟨kept, hLookup, hKept⟩ := (hOwn (.int 1) rfl).2 rfl
    have hOld : lookup (String.intercalate "." ["doc", "tag"]) taggedSettings =
        some (.str "x") := by
      with_unfolding_all rfl
    rw [hOld] at hKept
    cases hKept with
    | single => exact hLookup
    | plural hList hKey => cases hKey
  · rw [hOther ["doc", "by"] (List.cons_ne_nil _ _) (by decide) hApart]
    with_unfolding_all rfl

/-! ## Changing the order of assignments -/

theorem sorted_applyAt (key : String) (operator : Operator) (value : Option Json)
    {holder : Settings} (hSorted : holder.Sorted) : (applyAt key operator value holder).Sorted := by
  obtain ⟨new, -, hApply⟩ | ⟨-, hApply⟩ | ⟨-, -, hApply⟩ := applyAt_cases key operator value holder
  · rw [hApply]
    exact hSorted.insert key new
  · rwa [hApply]
  · rw [hApply]
    exact hSorted.erase key

theorem sorted_applyPath (operator : Operator) (value : Option Json) (path : List String)
    {settings : Settings} (hSorted : settings.Sorted) :
    (applyPath operator value path settings).Sorted := by
  match path with
  | [] => exact hSorted
  | [key] => exact sorted_applyAt key operator value hSorted
  | key :: _ :: _ => exact hSorted.insert key _

theorem ordered_inside {settings : Settings} (hOrdered : Json.Ordered (.obj settings))
    (key : String) :
    Json.Ordered (.obj (inside key settings)) := by
  cases hOrdered with
  | obj hSorted hValues =>
    rw [inside]
    cases hGet : Members.get? key settings with
    | none => exact .obj .nil (by simp [Json.ofOption, Json.members])
    | some value =>
      have hValue := hValues _ (Members.mem_of_get? hGet)
      cases value with
      | obj members => exact hValue
      | null | bool | int | real | str | arr =>
        exact .obj .nil (by simp [Json.ofOption, Json.members])

theorem applyPath_comm {path other : List String} (hApart : Apart path other)
    (operator operator' : Operator) (value value' : Option Json) {settings : Settings}
    (hOrdered : Json.Ordered (.obj settings)) :
    applyPath operator' value' other (applyPath operator value path settings) =
      applyPath operator value path (applyPath operator' value' other settings) := by
  induction path generalizing other settings with
  | nil => exact absurd rfl hApart.ne_nil.1
  | cons key rest ih =>
    obtain ⟨first, more, rfl⟩ := List.exists_cons_of_ne_nil hApart.ne_nil.2
    have hSorted : settings.Sorted := hOrdered.sorted
    have hLeft := sorted_applyPath operator value (key :: rest) hSorted
    have hRight := sorted_applyPath operator' value' (first :: more) hSorted
    refine Members.Sorted.ext (sorted_applyPath _ _ _ hLeft) (sorted_applyPath _ _ _ hRight) ?_
    intro seen
    rw [get?_applyPath _ _ _ _ hLeft, get?_applyPath _ _ _ _ hRight, get?_applyPath _ _ _ _ hSorted,
      get?_applyPath _ _ _ _ hSorted]
    by_cases hFirst : seen = first
    · by_cases hKey : seen = key
      · -- both go on inside the same member
        subst hFirst hKey
        obtain ⟨hRest, hMore⟩ := hApart.tail.ne_nil
        have hInside := ih hApart.tail (ordered_inside hOrdered seen)
        simp only [if_true, changedBehind_of_ne_nil _ _ _ hRest,
          changedBehind_of_ne_nil _ _ _ hMore]
        exact congrArg (fun members => some (Json.obj members)) hInside
      · simp only [if_pos hFirst, if_neg hKey]
    · simp only [if_neg hFirst]

theorem applyPath_set_of_prefix {path other : List String} (hPath : path ≠ [])
    (hPrefix : path <+: other) (value : Json) (operator : Operator) (value' : Option Json)
    {settings : Settings} (hOrdered : Json.Ordered (.obj settings)) :
    applyPath .set (some value) path (applyPath operator value' other settings) =
      applyPath .set (some value) path settings := by
  induction path generalizing other settings with
  | nil => exact absurd rfl hPath
  | cons key rest ih =>
    obtain ⟨behind, rfl⟩ := hPrefix
    have hSorted : settings.Sorted := hOrdered.sorted
    have hLeft := sorted_applyPath operator value' (key :: rest ++ behind) hSorted
    refine Members.Sorted.ext (sorted_applyPath _ _ _ hLeft) (sorted_applyPath _ _ _ hSorted) ?_
    intro seen
    rw [get?_applyPath _ _ _ _ hLeft, get?_applyPath _ _ _ _ hSorted, List.cons_append,
      get?_applyPath _ _ _ _ hSorted]
    by_cases hKey : seen = key
    · subst hKey
      simp only [if_true]
      cases rest with
      | nil => rfl
      | cons next more =>
        have hInside := ih (List.cons_ne_nil next more) (List.prefix_append _ behind)
          (ordered_inside hOrdered seen)
        exact congrArg (fun members => some (Json.obj members)) hInside
    · simp only [if_neg hKey]

/-! ## Settings in order -/

theorem Keeps.ordered {key : String} {old : Option Json} {kept : List Json}
    (hKeeps : Keeps key old kept)
    (hOld : ∀ value ∈ old, value.Ordered) : ∀ item ∈ kept, item.Ordered := by
  cases hKeeps with
  | items items =>
    cases hOld _ rfl with
    | arr hItems => exact hItems
  | single => simpa using hOld
  | plural | null | absent => simp

theorem ordered_changed (key : String) (operator : Operator) {value old : Option Json}
    (hValue : ∀ v ∈ value, v.Ordered) (hOld : ∀ v ∈ old, v.Ordered) :
    ∀ v ∈ changed key operator value old, v.Ordered := by
  have hGiven : (value.getD .null).Ordered := by
    cases value with
    | none => exact .null
    | some v => exact hValue v rfl
  cases operator with
  | set =>
    rintro _ ⟨⟩
    exact hGiven
  | append =>
    rintro _ ⟨⟩
    refine .arr fun item hItem => ?_
    rcases List.mem_append.mp hItem with hKept | hNew
    · exact (keeps_listBefore key old).ordered hOld item hKept
    · rw [List.mem_singleton.mp hNew]
      exact hGiven
  | remove =>
    simp only [changed]
    split
    · rintro _ ⟨⟩
      cases hOld _ rfl with
      | arr hItems => exact .arr fun item hItem => hItems item (List.mem_of_mem_filter hItem)
    · exact hOld
  | reset =>
    simp only [changed]
    split
    · rintro _ ⟨⟩
      exact .arr fun item hItem => hValue item (Option.mem_toList.mp hItem)
    · exact hValue

theorem ordered_applyAt (key : String) (operator : Operator) {value : Option Json}
    {holder : Settings} (hValue : ∀ v ∈ value, v.Ordered) (hOrdered : Json.Ordered (.obj holder)) :
    Json.Ordered (.obj (applyAt key operator value holder)) := by
  have hOld : ∀ v ∈ Members.get? key holder, v.Ordered := fun v hv =>
    hOrdered.value (Members.mem_of_get? hv)
  have hChanged := ordered_changed key operator hValue hOld
  obtain ⟨new, hNew, hApply⟩ | ⟨-, hApply⟩ | ⟨-, -, hApply⟩ :=
    applyAt_cases key operator value holder
  · rw [hApply]
    exact hOrdered.insert (hChanged new hNew) key
  · rwa [hApply]
  · rw [hApply]
    exact hOrdered.erase key

theorem ordered_applyPath (operator : Operator) {value : Option Json}
    (hValue : ∀ v ∈ value, v.Ordered) (path : List String) {settings : Settings}
    (hOrdered : Json.Ordered (.obj settings)) :
    Json.Ordered (.obj (applyPath operator value path settings)) := by
  induction path generalizing settings with
  | nil => exact hOrdered
  | cons key rest ih =>
    cases rest with
    | nil => exact ordered_applyAt key operator hValue hOrdered
    | cons next more => exact hOrdered.insert (ih (ordered_inside hOrdered key)) key

/-- Settings stay in order as long as the assigned values are. -/
theorem ordered_foldl_apply {history : List Assignment} {settings : Settings}
    (hValues : ∀ a ∈ history, ∀ v ∈ a.value, v.Ordered) (hOrdered : Json.Ordered (.obj settings)) :
    Json.Ordered (.obj (history.foldl apply settings)) := by
  induction history generalizing settings with
  | nil => exact hOrdered
  | cons a history ih =>
    obtain ⟨hFirst, hRest⟩ := List.forall_mem_cons.mp hValues
    exact ih hRest (ordered_applyPath a.operator hFirst a.path hOrdered)

/-- Assignments to paths apart from each other can change places, and what was assigned to a path or
behind it is lost when the path is set. -/
theorem apply_comm_and_absorb (settings : Settings) (hOrdered : Json.Ordered (.obj settings)) :
    (∀ a b : Assignment, Apart a.path b.path →
        apply (apply settings a) b = apply (apply settings b) a) ∧
      ∀ (path : List String) (value : Json) (o : Assignment), path ≠ [] → path <+: o.path →
        apply (apply settings o) ⟨path, .set, some value⟩ =
          apply settings ⟨path, .set, some value⟩ := by
  constructor
  · intro a b hApart
    exact applyPath_comm hApart a.operator b.operator a.value b.value hOrdered
  · intro path value o hPath hPrefix
    exact applyPath_set_of_prefix hPath hPrefix value o.operator o.value hOrdered

theorem apply_comm_and_absorb_history :
    let settings := [⟨["doc", "tags"], .append, some (.str "x")⟩,
      ⟨["doc", "by"], .set, some (.str "me")⟩].foldl apply []
    let cut : Assignment := ⟨["doc", "tags", "y"], .remove, some (.int 1)⟩
    let dropped : Assignment := ⟨["doc", "by"], .reset, none⟩
    Json.Ordered (.obj settings) ∧ Apart cut.path dropped.path ∧
      apply (apply settings cut) dropped = apply (apply settings dropped) cut ∧
      ["doc"] <+: cut.path ∧
      apply (apply settings cut) ⟨["doc"], .set, some .null⟩ =
        apply settings ⟨["doc"], .set, some .null⟩ := by
  intro settings cut dropped
  have hOrdered : Json.Ordered (.obj settings) := by
    refine ordered_foldl_apply ?_ (.obj .nil (by simp))
    simp only [List.forall_mem_cons, Option.mem_some_iff, forall_eq']
    exact ⟨.str "x", .str "me", by simp⟩
  have hApart : Apart cut.path dropped.path := by decide
  have hPrefix : ["doc"] <+: cut.path := by decide
  obtain ⟨hComm, hAbsorb⟩ := apply_comm_and_absorb settings hOrdered
  exact ⟨hOrdered, hApart, hComm cut dropped hApart, hPrefix,
    hAbsorb ["doc"] .null cut (List.cons_ne_nil _ _) hPrefix⟩

end BraceDoc.Setting
