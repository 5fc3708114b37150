import BraceDoc.Proofs.Path.Directory

/-!
# Normal forms of joined paths

The parts of a path act on a list of parts in normal form, one after the other. Bringing them into
normal form first does not change what they do, so either side of a joined path may be replaced by
its normal form.
-/

set_option autoImplicit false

namespace BraceDoc.Path

/-! ## Parts in normal form act like the parts they came from -/

/-- Adding a part before or behind the parts in `done` comes to the same. -/
theorem foldl_push_push (base done : List Part) (part : Part) :
    (push done part).reverse.foldl push base = push (done.reverse.foldl push base) part := by
  cases part with
  | root => rfl
  | here => rfl
  | name text => rw [push, List.reverse_cons, List.foldl_append, List.foldl_cons, List.foldl_nil]
  | up =>
    obtain ⟨text, rest, rfl, hPush⟩ | ⟨rest, rfl, hPush⟩ | ⟨-, -, hPush⟩ := push_up_cases done
    · -- The name and the step up behind it take each other away.
      rw [hPush, List.reverse_cons, List.foldl_append]
      rfl
    · rw [hPush, List.reverse_cons, List.foldl_append]
      rfl
    · rw [hPush, List.reverse_cons, List.foldl_append, List.foldl_cons, List.foldl_nil]

theorem foldl_push_normalParts (base parts : List Part) :
    (normalParts parts).foldl push base = parts.foldl push base := by
  induction parts using List.reverseRecOn with
  | nil => rfl
  | append_singleton parts part ih =>
    rw [normalParts] at ih
    rw [normalParts, List.foldl_append, List.foldl_cons, List.foldl_nil, foldl_push_push, ih,
      List.foldl_append, List.foldl_cons, List.foldl_nil]

theorem normalParts_append (before after : List Part) :
    normalParts (before ++ after) = (after.foldl push (before.foldl push [])).reverse := by
  rw [normalParts, List.foldl_append]

theorem normalParts_append_left (before after : List Part) :
    normalParts (normalParts before ++ after) = normalParts (before ++ after) := by
  rw [normalParts_append, normalParts_append, foldl_push_normalParts]

theorem normalParts_append_right (before after : List Part) :
    normalParts (before ++ normalParts after) = normalParts (before ++ after) := by
  rw [normalParts_append, normalParts_append, foldl_push_normalParts]

theorem resolve_normalize_left (base path : Path) :
    resolve base.normalize path = resolve base path := by
  rw [resolve_eq, resolve_eq, steps_normalize, normalParts_append_left]

theorem resolve_normalize_right (base path : Path) :
    resolve base path.normalize = resolve base path := by
  rw [resolve_eq, resolve_eq, steps_normalize, normalParts_append_right]

/-! ## The root is kept -/

theorem root_mem_steps_iff (p : Path) : Part.root ∈ p.steps ↔ p.isAbsolute = true := by
  rw [steps_eq, rootPart, List.mem_append]
  have hSegments : Part.root ∉ segmentParts (Text.fields '/' p.text.toList) := by
    intro hRoot
    obtain ⟨segment, -, hSegment⟩ := List.mem_map.mp hRoot
    rw [segmentPart] at hSegment
    split at hSegment
    · cases hSegment
    · cases hSegment
  cases p.isAbsolute with
  | true => exact iff_of_true (Or.inl List.mem_cons_self) rfl
  | false => exact iff_of_false (not_or.mpr ⟨List.not_mem_nil, hSegments⟩) Bool.false_ne_true

theorem root_mem_push {done : List Part} {part : Part} (hRoot : .root ∈ done ∨ part = .root) :
    .root ∈ push done part := by
  cases part with
  | root => exact List.mem_cons_self
  | here => exact hRoot.resolve_right nofun
  | name text => exact List.mem_cons_of_mem _ (hRoot.resolve_right nofun)
  | up =>
    have hDone := hRoot.resolve_right nofun
    obtain ⟨text, rest, rfl, hPush⟩ | ⟨rest, -, hPush⟩ | ⟨-, -, hPush⟩ := push_up_cases done
    · rw [hPush]
      exact (List.mem_cons.mp hDone).resolve_left nofun
    · rw [hPush]
      exact hDone
    · rw [hPush]
      exact List.mem_cons_of_mem _ hDone

theorem root_mem_foldl_push {parts done : List Part} (hRoot : .root ∈ done ∨ .root ∈ parts) :
    .root ∈ parts.foldl push done := by
  induction parts generalizing done with
  | nil => exact hRoot.resolve_right List.not_mem_nil
  | cons part parts ih =>
    apply ih
    rcases hRoot with hDone | hParts
    · exact Or.inl (root_mem_push (Or.inl hDone))
    · rcases List.mem_cons.mp hParts with hPart | hRest
      · exact Or.inl (root_mem_push (Or.inr hPart.symm))
      · exact Or.inr hRest

theorem root_mem_normalParts_iff (parts : List Part) :
    .root ∈ normalParts parts ↔ .root ∈ parts := by
  refine ⟨mem_of_mem_normalParts, fun hRoot => ?_⟩
  rw [normalParts, List.mem_reverse]
  exact root_mem_foldl_push (Or.inr hRoot)

theorem isAbsolute_normalize (p : Path) : p.normalize.isAbsolute = p.isAbsolute := by
  rw [Bool.eq_iff_iff, ← root_mem_steps_iff, ← root_mem_steps_iff, steps_normalize,
    root_mem_normalParts_iff]

/-! ## The shapes of normal forms -/

theorem parts_render {parts : List Part} (hSome : parts ≠ []) (hNormal : NormalForm parts)
    (hSound : ∀ part ∈ parts, part.Sound) : Path.parts ⟨render parts⟩ = parts := by
  have hParts : Path.parts ⟨render parts⟩ = openingPart (opening (render parts).toList).1 ++
      segmentParts (Text.fields '/' (opening (render parts).toList).2) := rfl
  rw [hParts]
  rcases hNormal.cases with ⟨rest, rfl, hMove⟩ | hMove
  · rw [opening_render_root, segmentParts_fields_spelled hMove fun part hPart =>
      hSound part (List.mem_cons_of_mem _ hPart)]
    rfl
  · rw [opening_render_moves hSome hMove hSound, segmentParts_fields_spelled hMove hSound]
    rfl

theorem exists_names {parts : List Part} (hNames : ∀ part ∈ parts, part.isName = true) :
    ∃ names : List String, parts = names.map Part.name := by
  induction parts with
  | nil => exact ⟨[], rfl⟩
  | cons part parts ih =>
    obtain ⟨hFirst, hRest⟩ := List.forall_mem_cons.mp hNames
    obtain ⟨names, rfl⟩ := ih hRest
    cases part with
    | name text => exact ⟨text :: names, rfl⟩
    | root => cases hFirst
    | here => cases hFirst
    | up => cases hFirst

theorem map_text_names (names : List String) : (names.map Part.name).map Part.text = names := by
  rw [List.map_map]
  exact List.map_id names

/-- The shapes of a normal form: a dot, names behind a root, or names behind steps up, with single
slashes between them. -/
inductive Canonical : Path → Prop
  | here : Canonical ⟨"."⟩
  | absolute (p : Path) (names : List String) (hParts : p.parts = .root :: names.map .name)
      (hText : p.text = "/" ++ "/".intercalate names) : Canonical p
  | relative (p : Path) (ups : Nat) (names : List String) (hSome : 0 < ups + names.length)
      (hParts : p.parts = List.replicate ups .up ++ names.map .name)
      (hText : p.text = "/".intercalate (List.replicate ups ".." ++ names)) : Canonical p

theorem normalForm_absolute (names : List String) : NormalForm (.root :: names.map .name) := by
  refine ⟨[.root], names.map .name, rfl, Or.inl rfl, ?_⟩
  intro part hPart
  obtain ⟨name, -, rfl⟩ := List.mem_map.mp hPart
  rfl

theorem normalForm_relative (ups : Nat) (names : List String) :
    NormalForm (List.replicate ups .up ++ names.map .name) := by
  refine ⟨List.replicate ups .up, names.map .name, rfl, Or.inr ⟨ups, rfl⟩, ?_⟩
  intro part hPart
  obtain ⟨name, -, rfl⟩ := List.mem_map.mp hPart
  rfl

theorem render_absolute (names : List String) :
    render (.root :: names.map .name) = "/" ++ "/".intercalate names := by
  rw [render, map_text_names]

theorem render_relative {ups : Nat} {names : List String} (hSome : 0 < ups + names.length) :
    render (List.replicate ups .up ++ names.map .name) =
      "/".intercalate (List.replicate ups ".." ++ names) := by
  have hMove : ∀ part ∈ List.replicate ups .up ++ names.map Part.name, part.isMove = true := by
    intro part hPart
    rcases List.mem_append.mp hPart with hUp | hName
    · rw [List.eq_of_mem_replicate hUp]
      rfl
    · obtain ⟨name, -, rfl⟩ := List.mem_map.mp hName
      rfl
  have hParts : List.replicate ups .up ++ names.map Part.name ≠ [] := by
    rw [← List.length_pos_iff, List.length_append, List.length_replicate, List.length_map]
    exact hSome
  rw [render_of_moves hParts hMove, List.map_append, map_text_names, List.map_replicate]
  rfl

theorem IsNormal.canonical {p : Path} (hNormal : p.IsNormal) : p.Canonical := by
  obtain ⟨parts, hForm, hSound, hText⟩ := hNormal
  by_cases hEmpty : parts = []
  · subst hEmpty
    have hHere : p = ⟨"."⟩ := by
      rw [← show p.text = "." from hText]
    rw [hHere]
    exact .here
  · have hParts : p.parts = parts := by
      have hRender := parts_render hEmpty hForm hSound
      rwa [← hText] at hRender
    obtain ⟨base, names, rfl, hBase, hNames⟩ := hForm
    obtain ⟨names, rfl⟩ := exists_names hNames
    rcases hBase with rfl | ⟨ups, rfl⟩
    · exact .absolute p names hParts (hText.trans (render_absolute names))
    · have hSome : 0 < ups + names.length := by
        have hLength := List.length_pos_of_ne_nil hEmpty
        rwa [List.length_append, List.length_replicate, List.length_map] at hLength
      exact .relative p ups names hSome hParts (hText.trans (render_relative hSome))

/-- A path whose parts are in normal form and spelled as such is its own normal form. -/
theorem normalize_of_parts {p : Path} (hForm : NormalForm p.parts)
    (hText : p.text = render p.parts) : p.normalize = p := by
  rw [normalize, normalParts_of_normalForm hForm, ← hText]

theorem normalize_eq_self_iff (p : Path) : p.normalize = p ↔ p.Canonical := by
  constructor
  · intro hSelf
    rw [← hSelf]
    exact (isNormal_normalize p).canonical
  · intro hCanonical
    cases hCanonical with
    | here => decide
    | absolute _ names hParts hText =>
      apply normalize_of_parts
      · rw [hParts]
        exact normalForm_absolute names
      · rw [hText, hParts, render_absolute]
    | relative _ ups names hSome hParts hText =>
      apply normalize_of_parts
      · rw [hParts]
        exact normalForm_relative ups names
      · rw [hText, hParts, render_relative hSome]

/-- The normal form of a path has one of three shapes, the paths of these shapes are their own
normal forms, a normal form is absolute just when its path is, and joining paths respects normal
forms. -/
theorem normalize_lawful (base path : Path) :
    path.normalize.Canonical ∧ (path.normalize = path ↔ path.Canonical) ∧
      path.normalize.isAbsolute = path.isAbsolute ∧
      path.normalize.normalize = path.normalize ∧
      (base.join path).normalize = (base.normalize.join path).normalize ∧
      (base.join path).normalize = (base.join path.normalize).normalize :=
  ⟨(isNormal_normalize path).canonical, normalize_eq_self_iff path, isAbsolute_normalize path,
    (isNormal_normalize path).normalize_eq, (resolve_normalize_left base path).symm,
    (resolve_normalize_right base path).symm⟩

end BraceDoc.Path
