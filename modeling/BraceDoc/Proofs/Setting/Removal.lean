import BraceDoc.Proofs.Setting.Effect

/-!
# Removing from what is no list

A removal acts on lists only, but first it follows its path, and whatever is not an object on the
way becomes one. Where its path leads to no list, it changes nothing else. So it leaves the settings
as they are exactly when there were objects all the way before.
-/

set_option autoImplicit false

namespace BraceDoc.Setting

open Json (Members)

/-- Every step along the path leads to an object. -/
def IsOpen (path : List String) (settings : Settings) : Prop :=
  ∀ front, front ≠ [] → front <+: path → ∃ members, lookupPath front settings = some (.obj members)

theorem isOpen_nil (settings : Settings) : IsOpen [] settings := by
  intro front hFront hPrefix
  exact absurd (List.prefix_nil.mp hPrefix) hFront

theorem isOpen_cons {key : String} {rest : List String} {settings : Settings} :
    IsOpen (key :: rest) settings ↔
      (∃ members, Members.get? key settings = some (.obj members)) ∧
        IsOpen rest (inside key settings) := by
  constructor
  · intro hOpen
    constructor
    · exact hOpen [key] (List.cons_ne_nil _ _) (List.prefix_append [key] rest)
    · intro front hFront hPrefix
      rw [← lookupPath_cons key hFront]
      exact hOpen (key :: front) (List.cons_ne_nil _ _) ((List.prefix_cons_inj key).mpr hPrefix)
  · rintro ⟨hFirst, hRest⟩ front hFront hPrefix
    obtain ⟨first, more, rfl⟩ := List.exists_cons_of_ne_nil hFront
    obtain ⟨rfl, hMore⟩ := List.cons_prefix_cons.mp hPrefix
    cases more with
    | nil => exact hFirst
    | cons next more =>
      rw [lookupPath_cons first (List.cons_ne_nil _ _)]
      exact hRest (next :: more) (List.cons_ne_nil _ _) hMore

theorem inside_of_get? {key : String} {members settings : Settings}
    (hGet : Members.get? key settings = some (.obj members)) : inside key settings = members := by
  rw [inside, hGet]
  rfl

/-- Whatever the operator, there are objects all the way behind an assignment. -/
theorem isOpen_applyPath (operator : Operator) (value : Option Json) (path : List String)
    (settings : Settings) : IsOpen path.dropLast (applyPath operator value path settings) := by
  induction path generalizing settings with
  | nil => exact isOpen_nil settings
  | cons key rest ih =>
    cases rest with
    | nil => exact isOpen_nil _
    | cons next more =>
      have hRest : next :: more ≠ [] := List.cons_ne_nil next more
      rw [applyPath_cons operator value key hRest, List.dropLast_cons_of_ne_nil hRest, isOpen_cons]
      constructor
      · exact ⟨_, Members.get?_insert_self key _ settings⟩
      · rw [inside_insert_obj]
        exact ih _

section NoList

variable {path : List String} {settings : Settings}

theorem applyAt_remove {key : String}
    (hTarget : ∀ items, Members.get? key settings ≠ some (.arr items))
    (value : Option Json) : applyAt key .remove value settings = settings := by
  simp only [applyAt]
  split
  · rename_i hGet
    exact absurd hGet (hTarget _)
  · rfl

theorem applyPath_remove_eq_self_iff (hPath : path ≠ [])
    (hTarget : ∀ items, lookupPath path settings ≠ some (.arr items)) (value : Option Json)
    (hOrdered : Json.Ordered (.obj settings)) :
    applyPath .remove value path settings = settings ↔ IsOpen path.dropLast settings := by
  induction path generalizing settings with
  | nil => exact absurd rfl hPath
  | cons key rest ih =>
    cases rest with
    | nil => exact iff_of_true (applyAt_remove hTarget value) (isOpen_nil settings)
    | cons next more =>
      have hRest : next :: more ≠ [] := List.cons_ne_nil next more
      rw [lookupPath_cons key hRest] at hTarget
      rw [applyPath_cons .remove value key hRest, List.dropLast_cons_of_ne_nil hRest, isOpen_cons,
        hOrdered.sorted.insert_eq_self_iff, ← ih hRest hTarget (ordered_inside hOrdered key)]
      constructor
      · intro hGet
        exact ⟨⟨_, hGet⟩, (inside_of_get? hGet).symm⟩
      · rintro ⟨⟨members, hGet⟩, hInside⟩
        rw [hInside, inside_of_get? hGet]
        exact hGet

theorem lookupPath_applyPath_remove (hPath : path ≠ [])
    (hTarget : ∀ items, lookupPath path settings ≠ some (.arr items)) (value : Option Json)
    {other : List String} (hOther : ¬ other <+: path.dropLast) :
    lookupPath other (applyPath .remove value path settings) = lookupPath other settings := by
  induction path generalizing settings other with
  | nil => exact absurd rfl hPath
  | cons key rest ih =>
    cases rest with
    | nil =>
      rw [applyPath, applyAt_remove hTarget]
    | cons next more =>
      have hRest : next :: more ≠ [] := List.cons_ne_nil next more
      rw [lookupPath_cons key hRest] at hTarget
      rw [List.dropLast_cons_of_ne_nil hRest] at hOther
      cases other with
      | nil => exact absurd List.nil_prefix hOther
      | cons first behind =>
        by_cases hSame : first = key
        · subst hSame
          rw [List.prefix_cons_inj] at hOther
          have hBehind : behind ≠ [] := by
            rintro rfl
            exact hOther List.nil_prefix
          rw [applyPath_cons .remove value first hRest, lookupPath_cons first hBehind,
            lookupPath_cons first hBehind, inside_insert_obj]
          exact ih hRest hTarget hOther
        · exact lookupPath_congr (get?_applyPath_of_ne hSame .remove value _ settings) behind

end NoList

/-- A removal whose path leads to no list makes objects of all on the way and leaves every other
path as it is. So it changes nothing exactly when these were objects already. -/
theorem apply_remove_of_not_list (settings : Settings) (hOrdered : Json.Ordered (.obj settings))
    (path : List String) (hPath : path ≠ []) (value : Option Json)
    (hTarget : ∀ items, lookupPath path settings ≠ some (.arr items)) :
    let removed := apply settings ⟨path, .remove, value⟩
    (removed = settings ↔ IsOpen path.dropLast settings) ∧ IsOpen path.dropLast removed ∧
      ∀ other, ¬ other <+: path.dropLast →
        lookupPath other removed = lookupPath other settings := by
  refine ⟨?_, ?_, ?_⟩
  · exact applyPath_remove_eq_self_iff hPath hTarget value hOrdered
  · exact isOpen_applyPath .remove value path settings
  · intro other hOther
    exact lookupPath_applyPath_remove hPath hTarget value hOther

theorem ordered_taggedSettings : Json.Ordered (.obj taggedSettings) := by
  have hMembers : Json.Ordered (.obj [("by", .str "me"), ("tag", .str "x")]) := by
    refine .obj (List.pairwise_pair.mpr (by decide)) ?_
    simp only [List.forall_mem_cons]
    exact ⟨.str "me", .str "x", by simp⟩
  exact .obj (List.pairwise_singleton _ _) (List.forall_mem_singleton.mpr hMembers)

theorem apply_remove_of_not_list_tagged :
    let path := ["doc", "tag"]
    Json.Ordered (.obj taggedSettings) ∧ lookupPath path taggedSettings = some (.str "x") ∧
      IsOpen path.dropLast taggedSettings ∧
      apply taggedSettings ⟨path, .remove, some (.str "x")⟩ = taggedSettings := by
  intro path
  have hLookup : lookupPath path taggedSettings = some (.str "x") := rfl
  have hOpen : IsOpen path.dropLast taggedSettings :=
    isOpen_cons.mpr ⟨⟨_, rfl⟩, isOpen_nil _⟩
  have hTarget : ∀ items, lookupPath path taggedSettings ≠ some (.arr items) := by simp [hLookup]
  obtain ⟨hSame, -⟩ := apply_remove_of_not_list taggedSettings ordered_taggedSettings path
    (List.cons_ne_nil _ _) (some (.str "x")) hTarget
  exact ⟨ordered_taggedSettings, hLookup, hOpen, hSame.mpr hOpen⟩

/-- A removal can change settings in which its path leads nowhere: here an object takes the place of
a number. -/
theorem apply_remove_replaces_number :
    let settings : Settings := [("a", .int 1)]
    let removed := apply settings ⟨["a", "b"], .remove, some (.str "x")⟩
    Json.Ordered (.obj settings) ∧ lookupPath ["a", "b"] settings = none ∧
      removed = [("a", .obj [])] ∧ removed ≠ settings := by
  intro settings removed
  have hRemoved : removed = [("a", .obj [])] := rfl
  refine ⟨?_, rfl, hRemoved, ?_⟩
  · exact .obj (List.pairwise_singleton _ _) (List.forall_mem_singleton.mpr (.int 1))
  · simp [hRemoved, settings]

end BraceDoc.Setting
