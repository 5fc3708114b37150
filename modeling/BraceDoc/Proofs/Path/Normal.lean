import BraceDoc.Proofs.Path.Steps

/-!
# Normal forms

A list of parts is in normal form when it is a root or a run of steps up, followed by names. Such a
list is read back from its spelling, so a path in normal form is its own normal form.
-/

set_option autoImplicit false

namespace BraceDoc.Path

def Part.isName : Part → Bool
  | .name _ => true
  | _ => false

/-- A part that its own text denotes as a segment of a path. -/
def Part.Sound : Part → Prop
  | .name text => '/' ∉ text.toList ∧ isIdle text.toList = false ∧ text.toList ≠ ['.', '.']
  | _ => True

/-- A root or steps up, and names behind them. -/
def NormalForm (parts : List Part) : Prop :=
  ∃ base names, parts = base ++ names ∧ (base = [.root] ∨ ∃ n, base = List.replicate n .up) ∧
    ∀ part ∈ names, part.isName = true

def IsNormal (p : Path) : Prop :=
  ∃ parts, NormalForm parts ∧ (∀ part ∈ parts, part.Sound) ∧ p.text = render parts

theorem sound_of_mem_steps {p : Path} {part : Part} (hPart : part ∈ p.steps) : part.Sound := by
  rw [steps_eq] at hPart
  rcases List.mem_append.mp hPart with hRoot | hSegment
  · rw [rootPart] at hRoot
    split at hRoot
    · rw [List.mem_singleton.mp hRoot]
      trivial
    · cases hRoot
  · obtain ⟨segment, hFiltered, rfl⟩ := List.mem_map.mp hSegment
    obtain ⟨hField, hIdle⟩ := List.mem_filter.mp hFiltered
    have hSlash := Text.not_mem_of_mem_fields hField
    rw [segmentPart]
    split
    · trivial
    · rename_i hUp
      refine ⟨?_, ?_, ?_⟩
      · rwa [String.toList_ofList]
      · rw [String.toList_ofList]
        simpa using hIdle
      · rwa [String.toList_ofList]

/-! ## Bringing parts into normal form -/

theorem normalForm_nil : NormalForm [] :=
  ⟨[], [], rfl, Or.inr ⟨0, rfl⟩, nofun⟩

theorem NormalForm.snoc_name {parts : List Part} (hNormal : NormalForm parts) (text : String) :
    NormalForm (parts ++ [.name text]) := by
  obtain ⟨base, names, rfl, hBase, hNames⟩ := hNormal
  refine ⟨base, names ++ [.name text], List.append_assoc _ _ _, hBase, ?_⟩
  intro part hPart
  rcases List.mem_append.mp hPart with hOld | hNew
  · exact hNames part hOld
  · rw [List.mem_singleton.mp hNew]
    rfl

theorem NormalForm.of_append {parts rest : List Part} (hNormal : NormalForm (parts ++ rest)) :
    NormalForm parts := by
  obtain ⟨base, names, hParts, hBase, hNames⟩ := hNormal
  rcases List.append_eq_append_iff.mp hParts with ⟨left, rfl, -⟩ | ⟨kept, rfl, rfl⟩
  · -- the cut lies in the base
    rcases hBase with hRoot | ⟨n, hUps⟩
    · rcases List.append_eq_singleton_iff.mp hRoot with ⟨rfl, -⟩ | ⟨rfl, -⟩
      · exact normalForm_nil
      · exact ⟨[.root], [], rfl, Or.inl rfl, nofun⟩
    · obtain ⟨-, hUps, -⟩ := List.append_eq_replicate_iff.mp hUps
      exact ⟨parts, [], (List.append_nil _).symm, Or.inr ⟨parts.length, hUps⟩, nofun⟩
  · exact ⟨base, kept, rfl, hBase, fun part hPart => hNames part (List.mem_append_left _ hPart)⟩

theorem NormalForm.snoc_up {parts : List Part} (hNormal : NormalForm parts)
    (hName : ∀ text, parts.getLast? ≠ some (.name text)) (hRoot : parts.getLast? ≠ some .root) :
    NormalForm (parts ++ [.up]) := by
  obtain ⟨base, names, rfl, hBase, hNames⟩ := hNormal
  obtain rfl | ⟨front, last, rfl⟩ := List.eq_nil_or_concat names
  · rw [List.append_nil] at hRoot ⊢
    rcases hBase with rfl | ⟨n, rfl⟩
    · exact absurd rfl hRoot
    · refine ⟨List.replicate (n + 1) .up, [], ?_, Or.inr ⟨n + 1, rfl⟩, nofun⟩
      rw [List.append_nil, List.replicate_succ']
  · have hLast := hNames last (by simp)
    cases last with
    | name text => exact absurd (by simp) (hName text)
    | root => cases hLast
    | here => cases hLast
    | up => cases hLast

theorem push_up_cases (done : List Part) :
    (∃ text rest, done = .name text :: rest ∧ push done .up = rest) ∨
      (∃ rest, done = .root :: rest ∧ push done .up = done) ∨
      ((∀ text, done.head? ≠ some (.name text)) ∧ done.head? ≠ some .root ∧
        push done .up = .up :: done) := by
  match done with
  | .name text :: rest => exact Or.inl ⟨text, rest, rfl, rfl⟩
  | .root :: rest => exact Or.inr (Or.inl ⟨rest, rfl, rfl⟩)
  | [] => exact Or.inr (Or.inr ⟨nofun, nofun, rfl⟩)
  | .here :: _ => exact Or.inr (Or.inr ⟨nofun, nofun, rfl⟩)
  | .up :: _ => exact Or.inr (Or.inr ⟨nofun, nofun, rfl⟩)

theorem normalForm_push {done : List Part} (hNormal : NormalForm done.reverse) (part : Part) :
    NormalForm (push done part).reverse := by
  cases part with
  | root => exact ⟨[.root], [], rfl, Or.inl rfl, nofun⟩
  | here => exact hNormal
  | name text =>
    rw [push, List.reverse_cons]
    exact hNormal.snoc_name text
  | up =>
    obtain ⟨text, rest, rfl, hPush⟩ | ⟨rest, -, hPush⟩ | ⟨hName, hRoot, hPush⟩ := push_up_cases done
    · rw [List.reverse_cons] at hNormal
      rw [hPush]
      exact hNormal.of_append
    · rw [hPush]
      exact hNormal
    · rw [hPush, List.reverse_cons]
      refine hNormal.snoc_up ?_ ?_
      · intro text
        rw [List.getLast?_reverse]
        exact hName text
      · rw [List.getLast?_reverse]
        exact hRoot

theorem normalForm_foldl_push (parts : List Part) {done : List Part}
    (hNormal : NormalForm done.reverse) : NormalForm (parts.foldl push done).reverse := by
  induction parts generalizing done with
  | nil => exact hNormal
  | cons part parts ih => exact ih (normalForm_push hNormal part)

theorem normalForm_normalParts (parts : List Part) : NormalForm (normalParts parts) :=
  normalForm_foldl_push parts normalForm_nil

theorem mem_push {done : List Part} {part x : Part} (hMem : x ∈ push done part) :
    x ∈ done ∨ x = part := by
  cases part with
  | root => exact Or.inr (List.mem_singleton.mp hMem)
  | here => exact Or.inl hMem
  | name text => exact (List.mem_cons.mp hMem).symm
  | up =>
    obtain ⟨text, rest, rfl, hPush⟩ | ⟨rest, -, hPush⟩ | ⟨-, -, hPush⟩ := push_up_cases done
    · rw [hPush] at hMem
      exact Or.inl (List.mem_cons_of_mem _ hMem)
    · rw [hPush] at hMem
      exact Or.inl hMem
    · rw [hPush] at hMem
      exact (List.mem_cons.mp hMem).symm

theorem mem_of_mem_foldl_push {parts done : List Part} {x : Part}
    (hMem : x ∈ parts.foldl push done) : x ∈ done ∨ x ∈ parts := by
  induction parts generalizing done with
  | nil => exact Or.inl hMem
  | cons part parts ih =>
    rcases ih hMem with hDone | hParts
    · rcases mem_push hDone with hOld | rfl
      · exact Or.inl hOld
      · exact Or.inr List.mem_cons_self
    · exact Or.inr (List.mem_cons_of_mem part hParts)

theorem mem_of_mem_normalParts {parts : List Part} {x : Part} (hMem : x ∈ normalParts parts) :
    x ∈ parts := by
  rw [normalParts, List.mem_reverse] at hMem
  exact (mem_of_mem_foldl_push hMem).resolve_left List.not_mem_nil

theorem isNormal_render {parts : List Part} (hSound : ∀ part ∈ parts, part.Sound) :
    IsNormal ⟨render (normalParts parts)⟩ :=
  ⟨normalParts parts, normalForm_normalParts parts,
    fun part hPart => hSound part (mem_of_mem_normalParts hPart), rfl⟩

theorem isNormal_normalize (p : Path) : IsNormal p.normalize := by
  rw [normalize_eq]
  exact isNormal_render fun part hPart => sound_of_mem_steps hPart

/-! ## Reading a normal form back -/

theorem foldl_push_names {names : List Part} (hNames : ∀ part ∈ names, part.isName = true)
    (done : List Part) : names.foldl push done = names.reverse ++ done := by
  induction names generalizing done with
  | nil => rfl
  | cons part names ih =>
    obtain ⟨hFirst, hRest⟩ := List.forall_mem_cons.mp hNames
    cases part with
    | name text =>
      rw [List.foldl_cons, push, ih hRest, List.reverse_cons, List.append_assoc]
      rfl
    | root => cases hFirst
    | here => cases hFirst
    | up => cases hFirst

theorem foldl_push_ups (n m : Nat) :
    (List.replicate n Part.up).foldl push (List.replicate m .up) = List.replicate (n + m) .up := by
  induction n generalizing m with
  | zero => rw [Nat.zero_add]; rfl
  | succ n ih =>
    have hPush : push (List.replicate m .up) .up = List.replicate (m + 1) .up := by
      cases m with
      | zero => rfl
      | succ m => rfl
    rw [List.replicate_succ, List.foldl_cons, hPush, ih]
    congr 1
    omega

theorem normalParts_of_normalForm {parts : List Part} (hNormal : NormalForm parts) :
    normalParts parts = parts := by
  obtain ⟨base, names, rfl, hBase, hNames⟩ := hNormal
  have hFold : base.foldl push [] = base.reverse := by
    rcases hBase with rfl | ⟨n, rfl⟩
    · rfl
    · rw [List.reverse_replicate]
      exact foldl_push_ups n 0
  rw [normalParts, List.foldl_append, hFold, foldl_push_names hNames, List.reverse_append,
    List.reverse_reverse, List.reverse_reverse]

theorem joined_eq_intercalate (separator : List Char) (segments : List (List Char)) :
    Text.joined separator segments = separator.intercalate segments := by
  match segments with
  | [] => rfl
  | [cs] => rw [List.intercalate_singleton, Text.joined]
  | first :: second :: rest =>
    rw [List.intercalate_cons_cons, Text.joined_cons (List.cons_ne_nil _ _),
      joined_eq_intercalate separator (second :: rest)]

def spelled (parts : List Part) : List (List Char) :=
  parts.map fun part => part.text.toList

theorem toList_intercalate_text (parts : List Part) :
    (String.intercalate "/" (parts.map Part.text)).toList = Text.joined ['/'] (spelled parts) := by
  rw [String.toList_intercalate, joined_eq_intercalate, spelled, List.map_map]
  rfl

def Part.isMove : Part → Bool
  | .up | .name _ => true
  | _ => false

theorem segment_of_move {part : Part} (hMove : part.isMove = true) (hSound : part.Sound) :
    '/' ∉ part.text.toList ∧ isIdle part.text.toList = false ∧
      segmentPart part.text.toList = part := by
  cases part with
  | root => cases hMove
  | here => cases hMove
  | up => exact ⟨by decide, by decide, by decide⟩
  | name text =>
    obtain ⟨hSlash, hIdle, hUp⟩ := hSound
    refine ⟨hSlash, hIdle, ?_⟩
    rw [Part.text, segmentPart, if_neg hUp, String.ofList_toList]

theorem segmentParts_spelled {parts : List Part} (hMove : ∀ part ∈ parts, part.isMove = true)
    (hSound : ∀ part ∈ parts, part.Sound) : segmentParts (spelled parts) = parts := by
  induction parts with
  | nil => rfl
  | cons part parts ih =>
    obtain ⟨hMove, hMoves⟩ := List.forall_mem_cons.mp hMove
    obtain ⟨hSound, hSounds⟩ := List.forall_mem_cons.mp hSound
    obtain ⟨-, hIdle, hPart⟩ := segment_of_move hMove hSound
    have hRest := ih hMoves hSounds
    rw [segmentParts] at hRest ⊢
    rw [spelled, List.map_cons, List.filter_cons_of_pos (by rw [hIdle]; rfl), List.map_cons, hPart]
    exact congrArg (part :: ·) hRest

theorem fields_spelled {parts : List Part} (hSome : parts ≠ [])
    (hMove : ∀ part ∈ parts, part.isMove = true) (hSound : ∀ part ∈ parts, part.Sound) :
    Text.fields '/' (Text.joined ['/'] (spelled parts)) = spelled parts := by
  apply Text.fields_joined
  · rwa [spelled, Ne, List.map_eq_nil_iff]
  · intro segment hSegment
    obtain ⟨part, hPart, rfl⟩ := List.mem_map.mp hSegment
    exact (segment_of_move (hMove part hPart) (hSound part hPart)).1

theorem segmentParts_fields_spelled {parts : List Part}
    (hMove : ∀ part ∈ parts, part.isMove = true) (hSound : ∀ part ∈ parts, part.Sound) :
    segmentParts (Text.fields '/' (Text.joined ['/'] (spelled parts))) = parts := by
  by_cases hEmpty : parts = []
  · subst hEmpty
    rfl
  · rw [fields_spelled hEmpty hMove hSound, segmentParts_spelled hMove hSound]

theorem head?_joined_spelled_ne {parts : List Part} (hSome : parts ≠ [])
    (hMove : ∀ part ∈ parts, part.isMove = true) (hSound : ∀ part ∈ parts, part.Sound) :
    (Text.joined ['/'] (spelled parts)).head? ≠ some '/' := by
  intro hHead
  -- a slash at the front would make the first segment empty
  obtain ⟨rest, hText⟩ := List.head?_eq_some_iff.mp hHead
  have hFields := fields_spelled hSome hMove hSound
  obtain ⟨part, parts, rfl⟩ := List.exists_cons_of_ne_nil hSome
  rw [hText, Text.fields_cons_self] at hFields
  have hFirst : [] = part.text.toList := (List.cons.inj hFields).1
  have hIdle :=
    (segment_of_move (hMove part List.mem_cons_self) (hSound part List.mem_cons_self)).2.1
  rw [← hFirst] at hIdle
  cases hIdle

theorem NormalForm.cases {parts : List Part} (hNormal : NormalForm parts) :
    (∃ rest, parts = .root :: rest ∧ ∀ part ∈ rest, part.isMove = true) ∨
      ∀ part ∈ parts, part.isMove = true := by
  obtain ⟨base, names, rfl, hBase, hNames⟩ := hNormal
  have hMoves : ∀ part ∈ names, part.isMove = true := by
    intro part hPart
    have hName := hNames part hPart
    cases part with
    | name text => rfl
    | root => cases hName
    | here => cases hName
    | up => rfl
  rcases hBase with rfl | ⟨n, rfl⟩
  · exact Or.inl ⟨names, rfl, hMoves⟩
  · refine Or.inr fun part hPart => ?_
    rcases List.mem_append.mp hPart with hUp | hName
    · rw [List.eq_of_mem_replicate hUp]
      rfl
    · exact hMoves part hName

theorem render_of_moves {parts : List Part} (hSome : parts ≠ [])
    (hMove : ∀ part ∈ parts, part.isMove = true) :
    render parts = String.intercalate "/" (parts.map Part.text) := by
  match parts, hSome with
  | .root :: _, _ => cases hMove .root List.mem_cons_self
  | .here :: _, _ => rfl
  | .up :: _, _ => rfl
  | .name _ :: _, _ => rfl

theorem toList_render_root (rest : List Part) :
    (render (.root :: rest)).toList = '/' :: Text.joined ['/'] (spelled rest) := by
  rw [render, String.toList_append, toList_intercalate_text]
  rfl

theorem toList_render_moves {parts : List Part} (hSome : parts ≠ [])
    (hMove : ∀ part ∈ parts, part.isMove = true) :
    (render parts).toList = Text.joined ['/'] (spelled parts) := by
  rw [render_of_moves hSome hMove, toList_intercalate_text]

theorem steps_render {parts : List Part} (hNormal : NormalForm parts)
    (hSound : ∀ part ∈ parts, part.Sound) : steps ⟨render parts⟩ = parts := by
  rw [steps_eq]
  rcases hNormal.cases with ⟨rest, rfl, hMove⟩ | hMove
  · have hText := toList_render_root rest
    rw [rootPart, (isAbsolute_iff _).mpr (by rw [hText]; rfl), hText, Text.fields_cons_self,
      segmentParts_idle_cons rfl, segmentParts_fields_spelled hMove
        (fun part hPart => hSound part (List.mem_cons_of_mem _ hPart))]
    rfl
  · by_cases hEmpty : parts = []
    · subst hEmpty
      rfl
    · have hText := toList_render_moves hEmpty hMove
      have hRelative : isAbsolute ⟨render parts⟩ = false := by
        rw [Bool.eq_false_iff, Ne, isAbsolute_iff, hText]
        exact head?_joined_spelled_ne hEmpty hMove hSound
      rw [rootPart, hRelative, hText, segmentParts_fields_spelled hMove hSound]
      rfl

theorem IsNormal.eq_render {p : Path} (hNormal : p.IsNormal) : p = ⟨render p.steps⟩ := by
  obtain ⟨parts, hForm, hSound, hText⟩ := hNormal
  have hPath : p = ⟨render parts⟩ := by
    rw [← hText]
  rw [hPath, steps_render hForm hSound]

theorem IsNormal.eq_of_parts {p q : Path} (hFirst : p.IsNormal) (hSecond : q.IsNormal)
    (hParts : p.parts = q.parts) : p = q := by
  rw [hFirst.eq_render, hSecond.eq_render, steps, steps, hParts]

theorem IsNormal.normalForm {p : Path} (hNormal : p.IsNormal) : NormalForm p.steps := by
  obtain ⟨parts, hForm, hSound, hText⟩ := hNormal
  have hPath : p = ⟨render parts⟩ := by
    rw [← hText]
  rw [hPath, steps_render hForm hSound]
  exact hForm

theorem IsNormal.normalize_eq {p : Path} (hNormal : p.IsNormal) : p.normalize = p := by
  rw [Path.normalize_eq, normalParts_of_normalForm hNormal.normalForm, ← hNormal.eq_render]

theorem steps_normalize (p : Path) : p.normalize.steps = normalParts p.steps := by
  rw [normalize_eq]
  exact steps_render (normalForm_normalParts _) fun part hPart =>
    sound_of_mem_steps (mem_of_mem_normalParts hPart)

end BraceDoc.Path
