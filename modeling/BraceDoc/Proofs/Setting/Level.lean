import BraceDoc.Setting.Clause
import BraceDoc.Proofs.Text.Blank

/-!
# Texts that hide their marks

The cuts of a payload depend on the level at each character. A text hides a mark from a level when
the mark never stands at the top on the way through it, and such a text is passed as a whole: at
commas by `stretches`, at equals signs by `cutAtEquals?`. A sealed text hides both marks and leaves
the level as it was, at whatever depth it stands. Texts are divided by the commas between them when
each hides its own commas and all but the last end at the top.
-/

set_option autoImplicit false

namespace BraceDoc.Setting

open Text (allBlank isBlank trim)

/-- The characters that change a level or cut at the top. -/
def punctuation : List Char :=
  [',', '=', '[', ']', '"']

def Plain (cs : List Char) : Prop :=
  ∀ c ∈ cs, c ∉ punctuation

theorem plain_append {cs ds : List Char} : Plain (cs ++ ds) ↔ Plain cs ∧ Plain ds :=
  List.forall_mem_append

theorem Plain.not_mem {cs : List Char} (hPlain : Plain cs) {mark : Char}
    (hMark : mark ∈ punctuation) : mark ∉ cs :=
  fun hMem => hPlain mark hMem hMark

theorem plain_of_allBlank {gap : List Char} (hGap : allBlank gap = true) : Plain gap := by
  have hShown : ∀ c ∈ punctuation, isBlank c = false := Text.forall_mem_of_all (by decide)
  exact fun c hMem hMark => Text.not_mem_of_allBlank hGap (hShown c hMark) hMem

namespace Level

def after (l : Level) (cs : List Char) : Level :=
  cs.foldl step l

theorem after_append (l : Level) (cs ds : List Char) :
    l.after (cs ++ ds) = (l.after cs).after ds :=
  List.foldl_append

theorem after_cons (l : Level) (c : Char) (cs : List Char) :
    l.after (c :: cs) = (l.step c).after cs :=
  rfl

/-- No `mark` of the text stands at the top. -/
def Hides (mark : Char) (l : Level) : List Char → Prop
  | [] => True
  | c :: cs => (c = mark → l.isTop = false) ∧ Hides mark (l.step c) cs

theorem hides_append {mark : Char} {l : Level} {cs ds : List Char} :
    l.Hides mark (cs ++ ds) ↔ l.Hides mark cs ∧ (l.after cs).Hides mark ds := by
  induction cs generalizing l with
  | nil => exact (Iff.of_eq (true_and _)).symm
  | cons c cs ih =>
    rw [List.cons_append, Hides, Hides, ih, and_assoc]
    rfl

theorem hides_of_not_mem {mark : Char} {cs : List Char} (hNot : mark ∉ cs) (l : Level) :
    l.Hides mark cs := by
  induction cs generalizing l with
  | nil => trivial
  | cons c cs ih =>
    rw [List.mem_cons, not_or] at hNot
    exact ⟨fun hMark => absurd hMark.symm hNot.1, ih hNot.2 _⟩

theorem not_cut_of_hidden {mark c : Char} {l : Level} (hHidden : c = mark → l.isTop = false) :
    ¬ (decide (c = mark) && l.isTop) = true := by
  intro hCut
  obtain ⟨hMark, hTop⟩ := (Bool.and_eq_true _ _).mp hCut
  rw [hHidden (of_decide_eq_true hMark)] at hTop
  exact Bool.false_ne_true hTop

theorem step_of_not_punctuation {c : Char} (hPlain : c ∉ punctuation) (l : Level) :
    l.step c = { l with escaped := c = '\\' } := by
  simp only [punctuation, List.mem_cons, List.not_mem_nil, or_false, not_or] at hPlain
  obtain ⟨-, -, hOpen, hClose, hQuote⟩ := hPlain
  simp [step, hOpen, hClose, hQuote]

theorem step_comma {l : Level} (hTop : l.isTop = true) : l.step ',' = {} := by
  obtain ⟨hQuoted, hDepth⟩ : l.quoted = false ∧ l.depth = 0 := by simpa [isTop] using hTop
  simp [step, hQuoted, hDepth]

def ground (depth : Nat) : Level where
  depth := depth

theorem exists_after_plain {cs : List Char} (hPlain : Plain cs) (l : Level) :
    ∃ escaped, l.after cs = { l with escaped } := by
  induction cs generalizing l with
  | nil => exact ⟨l.escaped, rfl⟩
  | cons c cs ih =>
    obtain ⟨hFirst, hRest⟩ := List.forall_mem_cons.mp hPlain
    obtain ⟨escaped, hAfter⟩ := ih hRest (l.step c)
    exact ⟨escaped, by rw [after_cons, hAfter, step_of_not_punctuation hFirst]⟩

theorem after_plain {cs : List Char} (hPlain : Plain cs) (hBackslash : '\\' ∉ cs) (depth : Nat) :
    (ground depth).after cs = ground depth := by
  induction cs with
  | nil => rfl
  | cons c cs ih =>
    obtain ⟨hFirst, hRest⟩ := List.forall_mem_cons.mp hPlain
    rw [List.mem_cons, not_or] at hBackslash
    rw [after_cons, step_of_not_punctuation hFirst, decide_eq_false (Ne.symm hBackslash.1)]
    exact ih hRest hBackslash.2

/-- A backslash at the end of a key has no effect behind the equals sign. -/
theorem after_plain_equals {cs : List Char} (hPlain : Plain cs) (depth : Nat) :
    (ground depth).after (cs ++ ['=']) = ground depth := by
  obtain ⟨escaped, hAfter⟩ := exists_after_plain hPlain (ground depth)
  rw [after_append, hAfter]
  rfl

/-- Such a text can stand anywhere in a payload. -/
structure Sealed (depth : Nat) (cs : List Char) : Prop where
  after : (ground depth).after cs = ground depth
  hides : ∀ mark ∈ [',', '='], (ground depth).Hides mark cs

namespace Sealed

variable {depth : Nat} {cs ds : List Char}

theorem append (hFirst : Sealed depth cs) (hSecond : Sealed depth ds) :
    Sealed depth (cs ++ ds) where
  after := by rw [after_append, hFirst.after, hSecond.after]
  hides mark hMark := by
    rw [hides_append, hFirst.after]
    exact ⟨hFirst.hides mark hMark, hSecond.hides mark hMark⟩

theorem of_plain (hPlain : Plain cs) (hBackslash : '\\' ∉ cs) (depth : Nat) : Sealed depth cs where
  after := after_plain hPlain hBackslash depth
  hides mark hMark := by
    refine hides_of_not_mem (hPlain.not_mem ?_) _
    exact List.mem_append_left ['[', ']', '"'] hMark

theorem of_allBlank (hBlank : allBlank cs = true) (depth : Nat) : Sealed depth cs :=
  of_plain (plain_of_allBlank hBlank) (Text.not_mem_of_allBlank hBlank (by decide)) depth

/-- Inside brackets commas and equals signs cut nothing. -/
theorem comma_deep (depth : Nat) : Sealed (depth + 1) [','] where
  after := rfl
  hides _ _ := ⟨fun _ => rfl, trivial⟩

theorem equals_deep (hPlain : Plain cs) (depth : Nat) : Sealed (depth + 1) (cs ++ ['=']) where
  after := after_plain_equals hPlain _
  hides mark hMark := by
    obtain ⟨escaped, hAfter⟩ := exists_after_plain hPlain (ground (depth + 1))
    have hMember : mark ∈ punctuation := List.mem_append_left ['[', ']', '"'] hMark
    rw [hides_append, hAfter]
    exact ⟨hides_of_not_mem (hPlain.not_mem hMember) _, fun _ => rfl, trivial⟩

theorem brackets (hInner : Sealed (depth + 1) cs) : Sealed depth ('[' :: cs ++ [']']) where
  after := by
    change (ground (depth + 1)).after (cs ++ [']']) = _
    rw [after_append, hInner.after]
    rfl
  hides mark hMark := by
    have hDistinct : ∀ mark ∈ [',', '='], '[' ≠ mark ∧ ']' ≠ mark :=
      Text.forall_mem_of_all (by decide)
    obtain ⟨hOpen, hClose⟩ := hDistinct mark hMark
    refine ⟨fun hSame => absurd hSame hOpen, ?_⟩
    change (ground (depth + 1)).Hides mark (cs ++ [']'])
    rw [hides_append]
    exact ⟨hInner.hides mark hMark, fun hSame => absurd hSame hClose, trivial⟩

end Sealed

end Level

/-! ## Commas -/

theorem stretches_ne_nil (l : Level) (cs : List Char) : stretches l cs ≠ [] := by
  cases cs with
  | nil => exact List.cons_ne_nil _ _
  | cons c cs =>
    rw [stretches]
    split
    · exact List.cons_ne_nil _ _
    · split
      · exact List.cons_ne_nil _ _
      · exact List.cons_ne_nil _ _

theorem stretches_comma {l : Level} (hTop : l.isTop = true) (cs : List Char) :
    stretches l (',' :: cs) = [] :: stretches (l.step ',') cs := by
  rw [stretches, hTop]
  rfl

theorem stretches_cons_of_hidden {l : Level} {c : Char} (hHidden : c = ',' → l.isTop = false)
    (cs : List Char) :
    stretches l (c :: cs) = (stretches (l.step c) cs).modifyHead (c :: ·) := by
  obtain ⟨first, rest, hRest⟩ := List.exists_cons_of_ne_nil (stretches_ne_nil (l.step c) cs)
  rw [stretches, if_neg (Level.not_cut_of_hidden hHidden), hRest]
  rfl

theorem stretches_append {l : Level} {cs : List Char} (hHides : l.Hides ',' cs) (ds : List Char) :
    stretches l (cs ++ ds) = (stretches (l.after cs) ds).modifyHead (cs ++ ·) := by
  induction cs generalizing l with
  | nil =>
    obtain ⟨first, rest, hRest⟩ := List.exists_cons_of_ne_nil (stretches_ne_nil l ds)
    change stretches l ds = (stretches l ds).modifyHead _
    rw [hRest]
    rfl
  | cons c cs ih =>
    rw [List.cons_append, stretches_cons_of_hidden hHides.1, ih hHides.2,
      List.modifyHead_modifyHead]
    rfl

theorem stretches_of_hides {l : Level} {cs : List Char} (hHides : l.Hides ',' cs) :
    stretches l cs = [cs] := by
  have hAppend := stretches_append hHides []
  rwa [List.append_nil, stretches, List.modifyHead_cons, List.append_nil] at hAppend

/-- Characters without a comma, written behind a text, go to its last stretch. -/
theorem exists_stretches_append {behind : List Char} (hNot : ',' ∉ behind) (l : Level)
    (cs : List Char) :
    ∃ init last, stretches l cs = init ++ [last] ∧
      stretches l (cs ++ behind) = init ++ [last ++ behind] := by
  induction cs generalizing l with
  | nil => exact ⟨[], [], rfl, stretches_of_hides (Level.hides_of_not_mem hNot l)⟩
  | cons c cs ih =>
    obtain ⟨init, last, hShort, hLong⟩ := ih (l.step c)
    by_cases hCut : c = ',' ∧ l.isTop = true
    · obtain ⟨rfl, hTop⟩ := hCut
      refine ⟨[] :: init, last, ?_, ?_⟩
      · rw [stretches_comma hTop, hShort, List.cons_append]
      · rw [List.cons_append, stretches_comma hTop, hLong, List.cons_append]
    · have hHidden : c = ',' → l.isTop = false :=
        fun hMark => Bool.eq_false_iff.mpr fun hTop => hCut ⟨hMark, hTop⟩
      rw [List.cons_append, stretches_cons_of_hidden hHidden, stretches_cons_of_hidden hHidden,
        hShort, hLong]
      cases init with
      | nil => exact ⟨[], c :: last, rfl, rfl⟩
      | cons first init => exact ⟨(c :: first) :: init, last, rfl, rfl⟩

/-! ## Clauses -/

theorem map_trim_modifyHead {gap : List Char} (hGap : allBlank gap = true)
    (texts : List (List Char)) : (texts.modifyHead (gap ++ ·)).map trim = texts.map trim := by
  cases texts with
  | nil => rfl
  | cons first rest =>
    rw [List.modifyHead_cons, List.map_cons, List.map_cons, Text.trim_blank_append hGap]

theorem map_trim_stretches_blank_append {gap : List Char} (hGap : allBlank gap = true)
    (cs : List Char) : (stretches {} (gap ++ cs)).map trim = (stretches {} cs).map trim := by
  have hSealed := Level.Sealed.of_allBlank hGap 0
  have hHides : Level.Hides ',' {} gap := hSealed.hides ',' List.mem_cons_self
  have hAfter : Level.after {} gap = {} := hSealed.after
  rw [stretches_append hHides, hAfter, map_trim_modifyHead hGap]

theorem clauses_trim (cs : List Char) : clauses (trim cs) = clauses cs := by
  obtain ⟨before, behind, hBefore, hBehind, hEq⟩ := Text.exists_append_trim cs
  have hNot : ',' ∉ behind := (plain_of_allBlank hBehind).not_mem List.mem_cons_self
  obtain ⟨init, last, hShort, hLong⟩ := exists_stretches_append hNot {} (trim cs)
  have hStretches : (stretches {} cs).map trim = (stretches {} (trim cs)).map trim := by
    calc (stretches {} cs).map trim
      _ = (stretches {} (before ++ (trim cs ++ behind))).map trim := by rw [← hEq]
      _ = (init ++ [last ++ behind]).map trim := by
        rw [map_trim_stretches_blank_append hBefore, hLong]
      _ = (init ++ [last]).map trim := by
        rw [List.map_append, List.map_append, List.map_singleton, List.map_singleton,
          Text.trim_append_blank last hBehind]
      _ = (stretches {} (trim cs)).map trim := by rw [hShort]
  rw [clauses, clauses, hStretches]

/-- A text that stands between the commas of a payload as one clause. -/
structure IsClause (cs : List Char) : Prop where
  after : Level.after {} cs = {}
  hides : Level.Hides ',' {} cs
  shown : allBlank cs = false

theorem IsClause.trim_ne_nil {cs : List Char} (hClause : IsClause cs) : trim cs ≠ [] := by
  intro hNil
  obtain ⟨before, behind, hBefore, hBehind, hEq⟩ := Text.exists_append_trim cs
  have hBlank : allBlank cs = true := by
    rw [hEq, hNil, allBlank, List.all_append]
    exact (Bool.and_eq_true _ _).mpr ⟨hBefore, hBehind⟩
  rw [hClause.shown] at hBlank
  exact Bool.false_ne_true hBlank

/-- Texts that commas at the top keep apart. The first one is read from the level `l` on, and behind
every comma the reading starts anew. -/
inductive Divided : Level → List (List Char) → Prop where
  | last {l : Level} {cs : List Char} (hHides : l.Hides ',' cs) : Divided l [cs]
  | next {l : Level} {cs : List Char} {rest : List (List Char)} (hHides : l.Hides ',' cs)
    (hTop : (l.after cs).isTop = true) (hRest : Divided {} rest) : Divided l (cs :: rest)

theorem Divided.ne_nil {l : Level} {texts : List (List Char)} (hDivided : Divided l texts) :
    texts ≠ [] := by
  cases hDivided with
  | last => exact List.cons_ne_nil _ _
  | next => exact List.cons_ne_nil _ _

theorem Divided.map_trim_stretches {gap : List Char} (hGap : allBlank gap = true) {l : Level}
    {texts : List (List Char)} (hDivided : Divided l texts) :
    (stretches l (Text.joined (',' :: gap) texts)).map trim = texts.map trim := by
  induction hDivided with
  | last hHides =>
    rw [Text.joined, stretches_of_hides hHides]
  | next hHides hTop hRest ih =>
    rw [Text.joined_cons hRest.ne_nil, List.append_assoc, stretches_append hHides, List.cons_append,
      stretches_comma hTop, Level.step_comma hTop, List.modifyHead_cons, List.append_nil,
      List.map_cons, map_trim_stretches_blank_append hGap, ih, List.map_cons]

theorem clauses_joined_of_divided {gap : List Char} (hGap : allBlank gap = true)
    {texts : List (List Char)} (hDivided : Divided {} texts) (hShown : ∀ cs ∈ texts, trim cs ≠ []) :
    clauses (Text.joined (',' :: gap) texts) = texts.map trim := by
  rw [clauses, hDivided.map_trim_stretches hGap, List.filter_eq_self]
  intro clause hClause
  obtain ⟨cs, hMem, rfl⟩ := List.mem_map.mp hClause
  simp [hShown cs hMem]

theorem divided_of_isClause {texts : List (List Char)} (hSome : texts ≠ [])
    (hTexts : ∀ cs ∈ texts, IsClause cs) : Divided {} texts := by
  induction texts with
  | nil => exact absurd rfl hSome
  | cons cs rest ih =>
    obtain ⟨hFirst, hRest⟩ := List.forall_mem_cons.mp hTexts
    cases rest with
    | nil => exact .last hFirst.hides
    | cons next more =>
      refine .next hFirst.hides ?_ (ih (List.cons_ne_nil next more) hRest)
      rw [hFirst.after]
      rfl

theorem clauses_joined {gap : List Char} (hGap : allBlank gap = true) {texts : List (List Char)}
    (hTexts : ∀ cs ∈ texts, IsClause cs) :
    clauses (Text.joined (',' :: gap) texts) = texts.map trim := by
  by_cases hSome : texts = []
  · subst hSome
    rfl
  · exact clauses_joined_of_divided hGap (divided_of_isClause hSome hTexts)
      fun cs hMem => (hTexts cs hMem).trim_ne_nil

/-! ## Equals signs -/

theorem cutAtEquals?_append {l : Level} {cs : List Char} (hHides : l.Hides '=' cs)
    (ds : List Char) :
    cutAtEquals? l (cs ++ ds) =
      (cutAtEquals? (l.after cs) ds).map fun parts => (cs ++ parts.1, parts.2) := by
  induction cs generalizing l with
  | nil => exact Option.map_id'.symm
  | cons c cs ih =>
    rw [List.cons_append, cutAtEquals?, if_neg (Level.not_cut_of_hidden hHides.1), ih hHides.2,
      Option.map_map]
    rfl

theorem cutAtEquals?_plain {cs : List Char} (hPlain : Plain cs) (ds : List Char) :
    cutAtEquals? {} (cs ++ '=' :: ds) = some (cs, ds) := by
  have hNot : '=' ∉ cs := hPlain.not_mem (List.mem_cons_of_mem _ List.mem_cons_self)
  obtain ⟨escaped, hAfter⟩ := Level.exists_after_plain hPlain {}
  rw [cutAtEquals?_append (Level.hides_of_not_mem hNot {}), hAfter]
  change some (cs ++ [], ds) = some (cs, ds)
  rw [List.append_nil]

/-- A key without punctuation, an equals sign and a sealed text make a clause. -/
theorem isClause_append {cs ds : List Char} (hPlain : Plain cs) (hSealed : Level.Sealed 0 ds) :
    IsClause (cs ++ '=' :: ds) := by
  have hEquals : cs ++ '=' :: ds = cs ++ ['='] ++ ds := List.append_cons _ _ _
  have hAfter : Level.after {} (cs ++ ['=']) = {} := Level.after_plain_equals hPlain 0
  have hComma : ',' ∉ cs ++ ['='] := by
    rw [List.mem_append, not_or]
    exact ⟨hPlain.not_mem List.mem_cons_self, by decide⟩
  refine ⟨?_, ?_, ?_⟩
  · rw [hEquals, Level.after_append, hAfter]
    exact hSealed.after
  · rw [hEquals, Level.hides_append, hAfter]
    exact ⟨Level.hides_of_not_mem hComma {}, hSealed.hides ',' List.mem_cons_self⟩
  · rw [Bool.eq_false_iff]
    intro hBlank
    exact Text.not_mem_of_allBlank hBlank (by decide)
      (List.mem_append_right cs (List.mem_cons_self (a := '=')))

end BraceDoc.Setting
