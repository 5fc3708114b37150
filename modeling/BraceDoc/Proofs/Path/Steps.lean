import BraceDoc.Path.Normal
import BraceDoc.Proofs.Text.Cut

/-!
# The steps of a path

The steps of a path are its parts without a leading dot. They are read off the segments of the whole
spelling, so the steps of a joined path are those of its two sides. Normal forms depend on the steps
alone.
-/

set_option autoImplicit false

namespace BraceDoc

namespace Path

/-- The parts that lead somewhere: all but a leading dot. -/
def steps (p : Path) : List Part :=
  p.parts.filter fun part => decide (part ≠ .here)

def segmentParts (segments : List (List Char)) : List Part :=
  (segments.filter fun segment => !isIdle segment).map segmentPart

def rootPart (p : Path) : List Part :=
  if p.isAbsolute then [.root] else []

theorem segmentPart_ne_here (segment : List Char) : segmentPart segment ≠ .here := by
  unfold segmentPart
  split
  · nofun
  · nofun

theorem segmentParts_append (first rest : List (List Char)) :
    segmentParts (first ++ rest) = segmentParts first ++ segmentParts rest := by
  rw [segmentParts, List.filter_append, List.map_append]
  rfl

theorem segmentParts_idle_cons {segment : List Char} (hIdle : isIdle segment = true)
    (rest : List (List Char)) : segmentParts (segment :: rest) = segmentParts rest := by
  rw [segmentParts, List.filter_cons_of_neg (by rw [hIdle]; exact Bool.false_ne_true)]
  rfl

theorem filter_segmentParts (segments : List (List Char)) :
    ((segmentParts segments).filter fun part => decide (part ≠ .here)) = segmentParts segments := by
  rw [List.filter_eq_self]
  intro part hPart
  obtain ⟨segment, _, rfl⟩ := List.mem_map.mp hPart
  exact decide_eq_true (segmentPart_ne_here segment)

/-- The steps are read off the segments of the whole spelling: an opening adds idle segments
only. -/
theorem steps_eq (p : Path) :
    p.steps = p.rootPart ++ segmentParts (Text.fields '/' p.text.toList) := by
  have hParts : p.parts = openingPart (opening p.text.toList).1 ++
      segmentParts (Text.fields '/' (opening p.text.toList).2) := rfl
  rw [steps, hParts, List.filter_append, filter_segmentParts, rootPart, isAbsolute]
  generalize p.text.toList = cs
  unfold opening
  split
  · rw [Text.fields_cons_self, segmentParts_idle_cons rfl]
    rfl
  · rfl
  · rename_i body
    have hFields := Text.fields_append '/' ['.'] body
    rw [List.singleton_append] at hFields
    rw [hFields, Text.fields_cons_self, segmentParts_idle_cons rfl, segmentParts_append]
    rfl
  · rename_i hRoot _ _
    split
    · exact absurd rfl (hRoot _)
    · rfl

/-! ## Joined paths -/

theorem isAbsolute_iff (p : Path) : p.isAbsolute = true ↔ p.text.toList.head? = some '/' := by
  unfold isAbsolute
  generalize p.text.toList = cs
  split
  · simp
  · rename_i hRoot
    refine iff_of_false Bool.false_ne_true fun hHead => ?_
    obtain ⟨rest, rfl⟩ := List.head?_eq_some_iff.mp hHead
    exact hRoot _ rfl

theorem rootPart_eq_of_head? {p q : Path} (hHead : p.text.toList.head? = q.text.toList.head?) :
    p.rootPart = q.rootPart := by
  have hSame : p.isAbsolute = q.isAbsolute := by
    rw [Bool.eq_iff_iff, isAbsolute_iff, isAbsolute_iff, hHead]
  rw [rootPart, rootPart, hSame]

theorem steps_of_segments {p q r : Path}
    (hFields : segmentParts (Text.fields '/' p.text.toList) =
      segmentParts (Text.fields '/' q.text.toList) ++ segmentParts (Text.fields '/' r.text.toList))
    (hRoot : p.rootPart = q.rootPart) (hRelative : r.rootPart = []) :
    p.steps = q.steps ++ r.steps := by
  rw [steps_eq, steps_eq, steps_eq, hFields, hRoot, hRelative, List.nil_append, List.append_assoc]

theorem steps_join {base path : Path} (hRelative : path.isAbsolute = false) :
    (base.join path).steps = base.steps ++ path.steps := by
  have hPath : path.rootPart = [] := by
    rw [rootPart, hRelative]
    rfl
  rw [join, hRelative, if_neg Bool.false_ne_true]
  split
  · rename_i hLast
    obtain hEmpty | ⟨front, last, hBase⟩ := List.eq_nil_or_concat base.text.toList
    · refine steps_of_segments ?_ ?_ hPath
      · rw [String.toList_append, hEmpty, List.nil_append]
        rfl
      · rw [rootPart_eq_of_head? (q := path), hPath, rootPart, isAbsolute, hEmpty]
        · rfl
        · rw [String.toList_append, hEmpty, List.nil_append]
    · rw [List.concat_eq_append] at hBase
      have hSlash : last = '/' := by
        rw [hBase, List.getLast?_concat] at hLast
        exact of_decide_eq_true hLast
      subst hSlash
      refine steps_of_segments ?_ (rootPart_eq_of_head? ?_) hPath
      · rw [String.toList_append, hBase, List.append_assoc, List.singleton_append,
          Text.fields_append, Text.fields_append, segmentParts_append, segmentParts_append]
        change _ = _ ++ [] ++ _
        rw [List.append_nil]
      · rw [String.toList_append, hBase]
        cases front with
        | nil => rfl
        | cons c front => rfl
  · rename_i hLast
    refine steps_of_segments ?_ (rootPart_eq_of_head? ?_) hPath
    · rw [String.toList_append, String.toList_append, List.append_assoc]
      change segmentParts (Text.fields '/' (_ ++ '/' :: _)) = _
      rw [Text.fields_append, segmentParts_append]
      rfl
    · rw [String.toList_append, String.toList_append]
      cases hBase : base.text.toList with
      | nil =>
        rw [hBase] at hLast
        exact absurd rfl hLast
      | cons c rest => rfl

/-! ## Normal forms depend on the steps -/

theorem foldl_push_steps (parts done : List Part) :
    (parts.filter fun part => decide (part ≠ .here)).foldl push done = parts.foldl push done := by
  induction parts generalizing done with
  | nil => rfl
  | cons part parts ih =>
    by_cases hHere : part = .here
    · subst hHere
      rw [List.filter_cons_of_neg (by simp), ih]
      rfl
    · rw [List.filter_cons_of_pos (by simpa using hHere), List.foldl_cons, ih, List.foldl_cons]

theorem normalParts_parts (p : Path) : normalParts p.parts = normalParts p.steps := by
  rw [normalParts, normalParts, steps, foldl_push_steps]

theorem normalize_eq (p : Path) : p.normalize = ⟨render (normalParts p.steps)⟩ := by
  rw [normalize, normalParts_parts]

/-- A root discards what stands before it. -/
theorem normalParts_append_root (before after : List Part) :
    normalParts (before ++ .root :: after) = normalParts (.root :: after) := by
  rw [normalParts, List.foldl_append]
  rfl

theorem normalParts_steps_join (base path : Path) :
    normalParts (base.join path).steps = normalParts (base.steps ++ path.steps) := by
  cases hAbsolute : path.isAbsolute with
  | false => rw [steps_join hAbsolute]
  | true =>
    have hSteps : path.steps = .root :: segmentParts (Text.fields '/' path.text.toList) := by
      rw [steps_eq, rootPart, hAbsolute]
      rfl
    rw [join, hAbsolute, if_pos rfl, hSteps, normalParts_append_root]

theorem resolve_eq (base path : Path) :
    resolve base path = ⟨render (normalParts (base.steps ++ path.steps))⟩ := by
  rw [resolve, normalize_eq, normalParts_steps_join]

end Path

end BraceDoc
