import BraceDoc.Setting.Assignment
import BraceDoc.Proofs.Setting.Written

/-!
# Written assignments

An assignment is written as its dotted path, its operator and its value, with or without blanks
around the operator. A payload of written assignments is read as exactly these assignments.
-/

set_option autoImplicit false

namespace BraceDoc.Setting

open Text (allBlank isBlank trim Trimmed)

/-- What stands before the equals sign of an operator. -/
def Operator.sign : Operator → List Char
  | .set => []
  | .append => ['+']
  | .remove => ['-']
  | .reset => ['!']

theorem Operator.toList_text (operator : Operator) :
    operator.text.toList = operator.sign ++ ['='] := by
  cases operator with
  | set => rfl
  | append => rfl
  | remove => rfl
  | reset => rfl

theorem Operator.plain_sign (operator : Operator) : Plain operator.sign := by
  cases operator with
  | set => exact Text.forall_mem_of_all rfl
  | append => exact Text.forall_mem_of_all (by decide)
  | remove => exact Text.forall_mem_of_all (by decide)
  | reset => exact Text.forall_mem_of_all (by decide)

namespace Assignment

def pathText (a : Assignment) : List Char :=
  Text.joined ['.'] (a.path.map String.toList)

def valueText (a : Assignment) : List Char :=
  a.value.elim [] Setting.written

/-- The clause of an assignment, with `gap` on both sides of the operator. -/
def written (gap : List Char) (a : Assignment) : List Char :=
  a.pathText ++ gap ++ a.operator.text.toList ++ gap ++ a.valueText

/-- The assignments that a clause can spell out. -/
structure Writable (a : Assignment) : Prop where
  path_ne_nil : a.path ≠ []
  segments : ∀ segment ∈ a.path, Bare segment ∧ '.' ∉ segment.toList
  /-- Else the end of the path would be taken for a part of the operator. -/
  path_end : a.operator = .set →
    ∀ segment ∈ a.path.getLast?, ∀ c ∈ segment.toList.getLast?, c ∉ ['+', '-', '!']
  value : ∀ value ∈ a.value, Setting.Writable value
  has_value : a.value = none → a.operator = .reset

end Assignment

/-! ## Paths -/

theorem plain_joined {separator : List Char} (hSeparator : Plain separator)
    {texts : List (List Char)} (hTexts : ∀ cs ∈ texts, Plain cs) :
    Plain (Text.joined separator texts) := by
  induction texts with
  | nil => exact List.forall_mem_nil _
  | cons cs rest ih =>
    obtain ⟨hFirst, hRest⟩ := List.forall_mem_cons.mp hTexts
    cases rest with
    | nil => exact hFirst
    | cons next rest =>
      exact plain_append.mpr ⟨plain_append.mpr ⟨hFirst, hSeparator⟩, ih hRest⟩

theorem trimmed_joined (separator : List Char) {texts : List (List Char)} (hSome : texts ≠ [])
    (hTexts : ∀ cs ∈ texts, Trimmed cs ∧ cs ≠ []) :
    Trimmed (Text.joined separator texts) ∧ Text.joined separator texts ≠ [] := by
  induction texts with
  | nil => exact absurd rfl hSome
  | cons cs rest ih =>
    obtain ⟨⟨hFirst, hStart⟩, hRest⟩ := List.forall_mem_cons.mp hTexts
    cases rest with
    | nil => exact ⟨hFirst, hStart⟩
    | cons next rest =>
      obtain ⟨hLast, hEnd⟩ := ih (List.cons_ne_nil _ _) hRest
      rw [Text.joined_cons (List.cons_ne_nil _ _), List.append_assoc]
      exact ⟨hFirst.append hLast hStart hEnd separator,
        fun hNil => hStart (List.append_eq_nil_iff.mp hNil).1⟩

theorem getLast?_joined (separator : List Char) {texts : List (List Char)} {last : List Char}
    (hLast : texts.getLast? = some last) (hTexts : ∀ cs ∈ texts, Trimmed cs ∧ cs ≠ []) :
    (Text.joined separator texts).getLast? = last.getLast? := by
  induction texts with
  | nil => cases hLast
  | cons cs rest ih =>
    obtain ⟨-, hRest⟩ := List.forall_mem_cons.mp hTexts
    cases rest with
    | nil =>
      cases hLast
      rfl
    | cons next rest =>
      have hEnd := (trimmed_joined separator (List.cons_ne_nil next rest) hRest).2
      rw [Text.joined_cons (List.cons_ne_nil _ _), List.getLast?_append_of_ne_nil _ hEnd]
      exact ih hLast hRest

theorem map_trim_fields_joined {gap : List Char} (hGap : allBlank gap = true)
    {segments : List (List Char)} (hSome : segments ≠ [])
    (hNot : ∀ segment ∈ segments, '.' ∉ segment) :
    (Text.fields '.' (Text.joined ['.'] segments ++ gap)).map trim = segments.map trim := by
  induction segments with
  | nil => exact absurd rfl hSome
  | cons segment rest ih =>
    obtain ⟨hFirst, hRest⟩ := List.forall_mem_cons.mp hNot
    cases rest with
    | nil =>
      have hWhole : '.' ∉ segment ++ gap := by
        rw [List.mem_append, not_or]
        exact ⟨hFirst, Text.not_mem_of_allBlank hGap (by decide)⟩
      change (Text.fields '.' (segment ++ gap)).map trim = _
      rw [Text.fields_of_not_mem hWhole, List.map_singleton, List.map_singleton,
        Text.trim_append_blank segment hGap]
    | cons next rest =>
      rw [Text.joined_cons (List.cons_ne_nil _ _), List.append_assoc, List.append_assoc,
        List.singleton_append, Text.fields_append, Text.fields_of_not_mem hFirst, List.map_append,
        ih (List.cons_ne_nil _ _) hRest]
      rfl

theorem splitOperator_append_sign {left : List Char} {operator : Operator}
    (hEnd : operator = .set → ∀ c ∈ left.getLast?, c ∉ ['+', '-', '!']) :
    splitOperator (left ++ operator.sign) = (operator, left) := by
  cases operator with
  | set =>
    have hOther := hEnd rfl
    rw [Operator.sign, List.append_nil, splitOperator]
    split
    · rename_i hLast
      exact absurd (by decide) (hOther '+' hLast)
    · rename_i hLast
      exact absurd (by decide) (hOther '-' hLast)
    · rename_i hLast
      exact absurd (by decide) (hOther '!' hLast)
    · rfl
  | append =>
    rw [splitOperator, Operator.sign, List.getLast?_concat, List.dropLast_concat]
    rfl
  | remove =>
    rw [splitOperator, Operator.sign, List.getLast?_concat, List.dropLast_concat]
    rfl
  | reset =>
    rw [splitOperator, Operator.sign, List.getLast?_concat, List.dropLast_concat]
    rfl

namespace Assignment.Writable

variable {a : Assignment} (hWritable : a.Writable) {gap : List Char} (hGap : allBlank gap = true)

include hWritable

theorem segmentTexts : ∀ cs ∈ a.path.map String.toList, Trimmed cs ∧ cs ≠ [] := by
  refine List.forall_mem_map.mpr fun segment hSegment => ?_
  have hBare := (hWritable.segments segment hSegment).1
  exact ⟨hBare.toList_trimmed, hBare.ne_nil⟩

theorem pathText_trimmed : Trimmed a.pathText ∧ a.pathText ≠ [] :=
  trimmed_joined ['.'] (mt List.map_eq_nil_iff.mp hWritable.path_ne_nil) hWritable.segmentTexts

theorem pathText_plain : Plain a.pathText :=
  plain_joined (Text.forall_mem_of_all (by decide))
    (List.forall_mem_map.mpr fun segment hSegment => (hWritable.segments segment hSegment).1.plain)

theorem valueText_sealed : Level.Sealed 0 a.valueText := by
  rw [valueText]
  cases hValue : a.value with
  | none => exact .of_allBlank rfl 0
  | some value => exact (hWritable.value value hValue).isSealed 0

include hGap

theorem pathSegments_eq : pathSegments (a.pathText ++ gap) = a.path := by
  have hDots : ∀ cs ∈ a.path.map String.toList, '.' ∉ cs :=
    List.forall_mem_map.mpr fun segment hSegment => (hWritable.segments segment hSegment).2
  have hTrim : (a.path.map String.toList).map trim = a.path.map String.toList := by
    refine (List.map_congr_left fun cs hMem => ?_).trans (List.map_id _)
    exact (hWritable.segmentTexts cs hMem).1.trim_eq
  have hShown : (a.path.map String.toList).filter (fun segment => !segment.isEmpty) =
      a.path.map String.toList := by
    rw [List.filter_eq_self]
    intro cs hMem
    rw [List.isEmpty_eq_false_iff.mpr (hWritable.segmentTexts cs hMem).2]
    rfl
  rw [pathSegments, pathText, map_trim_fields_joined hGap
    (mt List.map_eq_nil_iff.mp hWritable.path_ne_nil) hDots, hTrim, hShown, List.map_map]
  exact (List.map_congr_left fun _ _ => String.ofList_toList).trans (List.map_id _)

theorem splitOperator_eq :
    splitOperator (a.pathText ++ gap ++ a.operator.sign) = (a.operator, a.pathText ++ gap) := by
  refine splitOperator_append_sign fun hSet c hLast => ?_
  by_cases hEmpty : gap = []
  · subst hEmpty
    obtain ⟨segment, hSegment⟩ : ∃ segment, a.path.getLast? = some segment :=
      ⟨_, List.getLast?_eq_some_getLast hWritable.path_ne_nil⟩
    have hText : (a.path.map String.toList).getLast? = some segment.toList := by
      rw [List.getLast?_map, hSegment, Option.map_some]
    rw [List.append_nil, pathText, getLast?_joined ['.'] hText hWritable.segmentTexts] at hLast
    exact hWritable.path_end hSet segment hSegment c hLast
  · rw [List.getLast?_append_of_ne_nil _ hEmpty] at hLast
    have hShown : ∀ c ∈ ['+', '-', '!'], isBlank c = false := Text.forall_mem_of_all (by decide)
    exact fun hSign =>
      Text.not_mem_of_allBlank hGap (hShown c hSign) (List.mem_of_mem_getLast? hLast)

theorem head_plain : Plain (a.pathText ++ gap ++ a.operator.sign) :=
  plain_append.mpr ⟨plain_append.mpr ⟨hWritable.pathText_plain, plain_of_allBlank hGap⟩,
    a.operator.plain_sign⟩

omit hWritable hGap in
theorem written_eq : a.written gap =
    a.pathText ++ gap ++ a.operator.sign ++ '=' :: (gap ++ a.valueText) := by
  rw [written, Operator.toList_text]
  simp only [List.append_assoc, List.cons_append, List.nil_append]

theorem isClause : IsClause (a.written gap) := by
  rw [written_eq]
  exact isClause_append (hWritable.head_plain hGap)
    ((Level.Sealed.of_allBlank hGap 0).append hWritable.valueText_sealed)

/-- Reading the clause up to its value, whatever stands behind the equals sign. -/
theorem parseClause_append (right : List Char) :
    parseClause (a.pathText ++ gap ++ a.operator.sign ++ '=' :: right) =
      .ok ⟨a.path, a.operator,
        if a.operator = .reset && allBlank right then none else some (parseValue right)⟩ := by
  have hSome : a.path.isEmpty = false := List.isEmpty_eq_false_iff.mpr hWritable.path_ne_nil
  simp only [parseClause, cutAtEquals?_plain (hWritable.head_plain hGap),
    hWritable.splitOperator_eq hGap, hWritable.pathSegments_eq hGap, hSome, Bool.false_eq_true,
    if_false]

omit hGap in
theorem clause_trimmed {last : List Char} (hLast : Trimmed last) (hEnd : last ≠ [])
    (middle : List Char) : Trimmed (a.pathText ++ gap ++ a.operator.sign ++ (middle ++ last)) := by
  obtain ⟨hPath, hStart⟩ := hWritable.pathText_trimmed
  have hClause := hPath.append hLast hStart hEnd (gap ++ a.operator.sign ++ middle)
  simpa only [List.append_assoc] using hClause

theorem parseClause_trim_written : parseClause (trim (a.written gap)) = .ok a := by
  rw [written_eq, valueText]
  cases hValue : a.value with
  | none =>
    have hReset : a.operator = .reset := hWritable.has_value hValue
    have hClause : Trimmed (a.pathText ++ gap ++ a.operator.sign ++ ['=']) :=
      hWritable.clause_trimmed (Text.trimmed_of_forall (Text.forall_mem_of_all (by decide)))
        (List.cons_ne_nil _ _) []
    rw [Option.elim_none, List.append_nil, List.append_cons, Text.trim_append_blank _ hGap,
      hClause.trim_eq, hWritable.parseClause_append hGap, decide_eq_true hReset]
    change Except.ok (Assignment.mk a.path a.operator none) = .ok a
    rw [← hValue]
  | some value =>
    have hParsed := parseValue_written (hWritable.value value hValue)
    obtain ⟨hLast, hEnd⟩ := (hWritable.value value hValue).trimmed
    have hClause : Trimmed (a.pathText ++ gap ++ a.operator.sign ++
        '=' :: (gap ++ Setting.written value)) :=
      hWritable.clause_trimmed hLast hEnd ('=' :: gap)
    rw [Option.elim_some, hClause.trim_eq, hWritable.parseClause_append hGap,
      hLast.allBlank_append hEnd, Bool.and_false, if_neg Bool.false_ne_true,
      parseValue_blank_append hGap, hParsed, ← hValue]

end Assignment.Writable

/-- Assignments survive being written and read, whatever blanks stand around the operators. A string
in quotes that stands alone is read back even where it ends in a backslash. -/
theorem parse_written (gap : List Char) (hGap : allBlank gap = true)
    {assignments : List Assignment} (hWritable : ∀ a ∈ assignments, a.Writable) :
    parse (String.ofList (Text.joined [',', ' '] (assignments.map (Assignment.written gap)))) =
        assignments.map .ok ∧
      ∀ s : String, parseValue (inQuotes s) = .str s := by
  refine ⟨?_, parseValue_inQuotes⟩
  have hClauses : ∀ cs ∈ assignments.map (Assignment.written gap), IsClause cs :=
    List.forall_mem_map.mpr fun a hMem => (hWritable a hMem).isClause hGap
  rw [parse, String.toList_ofList, clauses_trim, clauses_joined rfl hClauses, List.map_map,
    List.map_map]
  exact List.map_congr_left fun a hMem => (hWritable a hMem).parseClause_trim_written hGap

/-- Punctuation inside a string, members inside members, a path that ends in a sign, and a reset
without value. -/
def sample : List Assignment :=
  [⟨["title"], .set, some (.str "a, \"b\" = [c]")⟩,
    ⟨["out", "tags+"], .append,
      some (.obj [("deep", .obj [("n", .int (-7))]), ("on", .bool true)])⟩,
    ⟨["log"], .reset, none⟩]

theorem sample_writable : ∀ a ∈ sample, a.Writable := by
  have hString : Writable (.str "a, \"b\" = [c]") := .str (by decide)
  have hInner : Writable (.obj [("n", .int (-7))]) :=
    .obj (List.pairwise_singleton _ _) (by decide) (List.forall_mem_singleton.mpr (.int rfl))
  have hOuter : Writable (.obj [("deep", .obj [("n", .int (-7))]), ("on", .bool true)]) := by
    refine .obj (List.pairwise_pair.mpr (by decide)) ?_ ?_
    · exact List.forall_mem_cons.mpr ⟨by decide, List.forall_mem_singleton.mpr (by decide)⟩
    · exact List.forall_mem_cons.mpr ⟨hInner, List.forall_mem_singleton.mpr (.bool true)⟩
  refine List.forall_mem_cons.mpr
    ⟨?_, List.forall_mem_cons.mpr ⟨?_, List.forall_mem_singleton.mpr ?_⟩⟩
  · have hEnd : ∀ segment ∈ some "title", ∀ c ∈ segment.toList.getLast?, c ∉ ['+', '-', '!'] := by
      intro segment hSegment c hLast
      obtain rfl : "title" = segment := Option.some.inj hSegment
      obtain rfl : 'e' = c := Option.some.inj hLast
      decide
    exact ⟨by decide, by decide, fun _ => hEnd, fun _ hMem => Option.some.inj hMem ▸ hString,
      fun hNone => absurd hNone (Option.some_ne_none _)⟩
  · exact ⟨by decide, by decide, fun hSet => absurd hSet (by decide),
      fun _ hMem => Option.some.inj hMem ▸ hOuter,
      fun hNone => absurd hNone (Option.some_ne_none _)⟩
  · exact ⟨by decide, by decide, fun hSet => absurd hSet (by decide),
      fun _ hMem => absurd hMem (Option.not_mem_none _), fun _ => rfl⟩

theorem parse_written_sample :
    (∀ a ∈ sample, a.Writable) ∧
      parse "title=\"a, \\\"b\\\" = [c]\", out.tags++=[deep=[n=-7],on=true], log!=" =
        sample.map .ok :=
  ⟨sample_writable, (parse_written [] rfl sample_writable).1⟩

end BraceDoc.Setting
