import BraceDoc.Proofs.Path.Normal

/-!
# Files and their directories

For a path in normal form whose last step is a name, the directory is spelled by the steps before
that name, and resolving another name against the directory replaces the last step.
-/

set_option autoImplicit false

namespace BraceDoc.Path

theorem isIdle_of_mem_spelled {parts : List Part} (hMove : ∀ part ∈ parts, part.isMove = true)
    (hSound : ∀ part ∈ parts, part.Sound) {segment : List Char}
    (hSegment : segment ∈ spelled parts) :
    isIdle segment = false := by
  obtain ⟨part, hPart, rfl⟩ := List.mem_map.mp hSegment
  exact (segment_of_move (hMove part hPart) (hSound part hPart)).2.1

theorem dropIdleEnd_eq_self {segments : List (List Char)}
    (hBusy : ∀ segment ∈ segments, isIdle segment = false) : dropIdleEnd segments = segments := by
  have hDrop : segments.reverse.dropWhile isIdle = segments.reverse := by
    cases hReverse : segments.reverse with
    | nil => rfl
    | cons last front =>
      have hLast : isIdle last = false := hBusy last (by rw [← List.mem_reverse, hReverse]; simp)
      rw [List.dropWhile_cons_of_neg (by rw [hLast]; exact Bool.false_ne_true)]
  rw [dropIdleEnd, hDrop, List.reverse_reverse]

theorem opening_of_busy {cs segment : List Char} {rest : List (List Char)}
    (hFields : Text.fields '/' cs = segment :: rest) (hBusy : isIdle segment = false) :
    opening cs = ([], cs) := by
  unfold opening
  split
  · rw [Text.fields_cons_self] at hFields
    cases hFields
    cases hBusy
  · cases hFields
    cases hBusy
  · rename_i body
    have hSplit := Text.fields_append '/' ['.'] body
    rw [List.singleton_append, hFields] at hSplit
    cases hSplit
    cases hBusy
  · rfl

theorem opening_render_root (rest : List Part) :
    opening (render (.root :: rest)).toList = (['/'], Text.joined ['/'] (spelled rest)) := by
  rw [toList_render_root]
  rfl

theorem opening_render_moves {parts : List Part} (hSome : parts ≠ [])
    (hMove : ∀ part ∈ parts, part.isMove = true) (hSound : ∀ part ∈ parts, part.Sound) :
    opening (render parts).toList = ([], Text.joined ['/'] (spelled parts)) := by
  rw [toList_render_moves hSome hMove]
  have hFields := fields_spelled hSome hMove hSound
  obtain ⟨segment, rest, hSpelled⟩ := List.exists_cons_of_ne_nil (l := spelled parts)
    (by rwa [spelled, Ne, List.map_eq_nil_iff])
  refine opening_of_busy (hFields.trans hSpelled) (isIdle_of_mem_spelled hMove hSound ?_)
  rw [hSpelled]
  exact List.mem_cons_self

theorem spelled_snoc (front : List Part) (name : String) :
    spelled (front ++ [.name name]) = spelled front ++ [name.toList] := by
  rw [spelled, List.map_append]
  rfl

/-- The parent of a spelled path ends before the last name. -/
theorem parent?_of_spelled {text : String} {start : List Char} {front : List Part} {name : String}
    (hMove : ∀ part ∈ front ++ [.name name], part.isMove = true)
    (hSound : ∀ part ∈ front ++ [.name name], part.Sound)
    (hOpening : opening text.toList =
      (start, Text.joined ['/'] (spelled (front ++ [.name name])))) :
    parent? ⟨text⟩ = some ⟨String.ofList (start ++ Text.joined ['/'] (spelled front))⟩ := by
  have hBusy : ∀ segment ∈ spelled front ++ [name.toList], isIdle segment = false := by
    intro segment hSegment
    rw [← spelled_snoc] at hSegment
    exact isIdle_of_mem_spelled hMove hSound hSegment
  have hSegments : segments ⟨text⟩ = spelled front ++ [name.toList] := by
    rw [segments, hOpening, fields_spelled (by simp) hMove hSound, spelled_snoc]
  have hFront : dropIdleEnd (spelled front) = spelled front :=
    dropIdleEnd_eq_self fun segment hSegment => hBusy segment (List.mem_append_left _ hSegment)
  rw [parent?, hOpening, hSegments, dropIdleEnd_eq_self hBusy]
  simp only [List.reverse_append, List.reverse_singleton, List.singleton_append,
    List.reverse_reverse, hFront]

theorem dirname_of_parent? {p parent : Path} (hParent : p.parent? = some parent)
    (hText : parent.text ≠ "") : p.dirname = parent := by
  have hEmpty : ¬ parent.text.isEmpty = true := by
    rwa [String.isEmpty_iff]
  rw [dirname, hParent]
  exact if_neg hEmpty

theorem render_ne_empty {parts : List Part} (hNormal : NormalForm parts)
    (hSound : ∀ part ∈ parts, part.Sound) : render parts ≠ "" := by
  intro hText
  have hSteps := steps_render hNormal hSound
  rw [hText] at hSteps
  subst hSteps
  exact absurd hText (by decide)

theorem dirname_render {front : List Part} {name : String}
    (hNormal : NormalForm (front ++ [.name name]))
    (hSound : ∀ part ∈ front ++ [.name name], part.Sound) :
    dirname ⟨render (front ++ [.name name])⟩ = ⟨render front⟩ := by
  have hText := render_ne_empty hNormal.of_append fun part hPart =>
    hSound part (List.mem_append_left _ hPart)
  rcases hNormal.cases with ⟨rest, hRoot, hMove⟩ | hMove
  · -- an absolute file
    cases front with
    | nil => cases hRoot
    | cons first front =>
      rw [List.cons_append] at hRoot
      obtain ⟨rfl, rfl⟩ := List.cons.inj hRoot
      have hParent := parent?_of_spelled hMove
        (fun part hPart => hSound part (List.mem_cons_of_mem _ hPart)) (opening_render_root _)
      rw [List.singleton_append, ← toList_render_root, String.ofList_toList] at hParent
      exact dirname_of_parent? hParent hText
  · have hParent := parent?_of_spelled hMove hSound (opening_render_moves (by simp) hMove hSound)
    rw [List.nil_append] at hParent
    by_cases hEmpty : front = []
    · subst hEmpty
      rw [dirname, hParent]
      rfl
    · have hMoves : ∀ part ∈ front, part.isMove = true := fun part hPart =>
        hMove part (List.mem_append_left _ hPart)
      rw [← toList_render_moves hEmpty hMoves, String.ofList_toList] at hParent
      exact dirname_of_parent? hParent hText

/-! ## Names in the directory of a file -/

theorem steps_of_move {part : Part} (hMove : part.isMove = true) (hSound : part.Sound) :
    steps ⟨part.text⟩ = [part] := by
  obtain ⟨hSlash, hIdle, hPart⟩ := segment_of_move hMove hSound
  have hRelative : isAbsolute ⟨part.text⟩ = false := by
    rw [Bool.eq_false_iff, Ne, isAbsolute_iff]
    intro hHead
    exact hSlash (List.mem_of_mem_head? hHead)
  rw [steps_eq, rootPart, hRelative, Text.fields_of_not_mem hSlash, segmentParts,
    List.filter_cons_of_pos (by rw [hIdle]; rfl)]
  change [segmentPart part.text.toList] = _
  rw [hPart]

theorem IsNormal.exists_front {file : Path} {name : String} (hNormal : file.IsNormal)
    (hName : file.fileName? = some name) :
    ∃ front, file.steps = front ++ [.name name] ∧ file.dirname = ⟨render front⟩ := by
  have hLast : file.parts.getLast? = some (.name name) := by
    rw [fileName?] at hName
    split at hName
    · rename_i hLast
      cases hName
      exact hLast
    · cases hName
  obtain ⟨parts, hParts⟩ := List.getLast?_eq_some_iff.mp hLast
  have hSteps : file.steps =
      (parts.filter fun part => decide (part ≠ .here)) ++ [.name name] := by
    rw [steps, hParts, List.filter_append]
    rfl
  refine ⟨_, hSteps, ?_⟩
  have hForm := hNormal.normalForm
  have hFile := hNormal.eq_render
  have hSound : ∀ part ∈ file.steps, part.Sound := fun part hPart => sound_of_mem_steps hPart
  rw [hSteps] at hForm hFile hSound
  rw [hFile]
  exact dirname_render hForm hSound

theorem IsNormal.isNormal_dirname {file : Path} {name : String} (hNormal : file.IsNormal)
    (hName : file.fileName? = some name) :
    file.dirname.IsNormal ∧ file.steps = file.dirname.steps ++ [.name name] := by
  obtain ⟨front, hSteps, hDirectory⟩ := hNormal.exists_front hName
  have hForm := hNormal.normalForm
  rw [hSteps] at hForm
  have hSound : ∀ part ∈ front, part.Sound := by
    intro part hPart
    refine sound_of_mem_steps (p := file) ?_
    rw [hSteps]
    exact List.mem_append_left _ hPart
  rw [hDirectory]
  refine ⟨⟨front, hForm.of_append, hSound, rfl⟩, ?_⟩
  rw [steps_render hForm.of_append hSound, hSteps]

/-- A part that keeps the normal form is added at the end. -/
theorem resolve_part {directory : Path} {part : Part} (hMove : part.isMove = true)
    (hSound : part.Sound) (hForm : NormalForm (directory.steps ++ [part])) :
    directory.resolve ⟨part.text⟩ = ⟨render (directory.steps ++ [part])⟩ := by
  rw [resolve_eq, steps_of_move hMove hSound, normalParts_of_normalForm hForm]

theorem IsNormal.resolve_name {directory : Path} {name : String} (hNormal : directory.IsNormal)
    (hSound : (Part.name name).Sound) :
    directory.resolve ⟨name⟩ = ⟨render (directory.steps ++ [.name name])⟩ :=
  @resolve_part directory (.name name) rfl hSound (hNormal.normalForm.snoc_name name)

theorem sound_of_mem_snoc {directory : Path} {last part : Part} (hSound : last.Sound)
    (hPart : part ∈ directory.steps ++ [last]) : part.Sound := by
  rcases List.mem_append.mp hPart with hOld | hLast
  · exact sound_of_mem_steps hOld
  · rw [List.mem_singleton.mp hLast]
    exact hSound

theorem IsNormal.steps_resolve_name {directory : Path} {name : String}
    (hNormal : directory.IsNormal) (hSound : (Part.name name).Sound) :
    (directory.resolve ⟨name⟩).steps = directory.steps ++ [.name name] := by
  rw [hNormal.resolve_name hSound]
  exact steps_render (hNormal.normalForm.snoc_name name) fun part => sound_of_mem_snoc hSound

/-- Another name in the directory of a file is another path. -/
theorem resolve_dirname_ne {file : Path} {name other : String} (hNormal : file.IsNormal)
    (hName : file.fileName? = some name) (hSound : (Part.name other).Sound)
    (hOther : other ≠ name) :
    resolve file.dirname ⟨other⟩ ≠ file := by
  obtain ⟨hDirectory, hSteps⟩ := hNormal.isNormal_dirname hName
  intro hSame
  have hResolved := hDirectory.steps_resolve_name hSound
  rw [hSame, hSteps] at hResolved
  have hNames := (List.append_inj' hResolved rfl).2
  cases hNames
  exact hOther rfl

end BraceDoc.Path
