import BraceDoc.Markup.Command
import BraceDoc.Proofs.Source.LineTable
import BraceDoc.Proofs.Text.Blank

/-!
# Searching a source for commands

The search takes the commands one behind the other and does not look into those that it has taken.
Nothing is lost by that: a simple command has no opening brace inside, so the search finds a command
behind every opening brace where there is one. The spans that it gives are those of the names.
-/

set_option autoImplicit false

namespace BraceDoc

namespace Command

/-! ## Simple commands -/

structure IsName (name : List Char) : Prop where
  start : name.head?.any isNameStart = true
  chars : ∀ c ∈ name, isNameChar c = true

/-- The content of a simple command: a name, or a name and a text without braces behind a colon. -/
inductive SimpleContent : List Char → Prop
  | name {name : List Char} (hName : IsName name) : SimpleContent name
  | call {name arg : List Char} (hName : IsName name) (hArg : ∀ c ∈ arg, isNotBrace c = true) :
      SimpleContent (name ++ ':' :: arg)

namespace Simple

def content (s : Simple) : List Char :=
  match s.arg with
  | none => s.name
  | some arg => s.name ++ ':' :: arg

structure WellFormed (s : Simple) : Prop where
  name : IsName s.name
  arg : ∀ arg, s.arg = some arg → ∀ c ∈ arg, isNotBrace c = true

end Simple

theorem simpleContent_iff {content : List Char} (rest : List Char) :
    SimpleContent content ↔ ∃ s : Simple, s.WellFormed ∧ s.content = content ∧ s.rest = rest := by
  constructor
  · rintro (⟨hName⟩ | ⟨hName, hArg⟩)
    · exact ⟨⟨content, none, rest⟩, ⟨hName, nofun⟩, rfl, rfl⟩
    · rename_i name arg
      refine ⟨⟨name, some arg, rest⟩, ⟨hName, ?_⟩, rfl, rfl⟩
      rintro _ ⟨⟩
      exact hArg
  · rintro ⟨⟨name, arg, rest⟩, hWellFormed, rfl, rfl⟩
    cases arg with
    | none => exact .name hWellFormed.name
    | some arg => exact .call hWellFormed.name (hWellFormed.arg arg rfl)

theorem isBlank_of_isNameChar {c : Char} (hName : isNameChar c = true) :
    Text.isBlank c = false := by
  have hRange : 45 ≤ c.toNat ∧ c.toNat ≤ 122 := by
    have hLe : ∀ a b : Char, a ≤ b → a.toNat ≤ b.toNat := fun _ _ hLe => hLe
    simp only [isNameChar, isNameStart, Bool.or_eq_true, Bool.and_eq_true, decide_eq_true_eq]
      at hName
    rcases hName with (((⟨hLow, hHigh⟩ | ⟨hLow, hHigh⟩) | rfl) | ⟨hLow, hHigh⟩) | rfl
    · exact ⟨Nat.le_trans (by decide) (hLe _ _ hLow), Nat.le_trans (hLe _ _ hHigh) (by decide)⟩
    · exact ⟨Nat.le_trans (by decide) (hLe _ _ hLow), Nat.le_trans (hLe _ _ hHigh) (by decide)⟩
    · decide
    · exact ⟨Nat.le_trans (by decide) (hLe _ _ hLow), Nat.le_trans (hLe _ _ hHigh) (by decide)⟩
    · decide
  simp only [Text.isBlank, Bool.or_eq_false_iff, Bool.and_eq_false_iff, decide_eq_false_iff_not,
    beq_eq_false_iff_ne, ne_eq]
  omega

namespace IsName

variable {name : List Char}

theorem ne_nil (hName : IsName name) : name ≠ [] := by
  rintro rfl
  cases hName.start

theorem not_mem (hName : IsName name) {c : Char} (hOther : isNameChar c = false) : c ∉ name := by
  intro hMem
  rw [hName.chars c hMem] at hOther
  cases hOther

theorem trimmed (hName : IsName name) : Text.Trimmed name :=
  Text.trimmed_of_forall fun c hMem => isBlank_of_isNameChar (hName.chars c hMem)

end IsName

theorem isNotBrace_iff (c : Char) : isNotBrace c = true ↔ c ≠ '\x7b' ∧ c ≠ '\x7d' := by
  simp [isNotBrace]

theorem Simple.WellFormed.brace_not_mem {s : Simple} (hWellFormed : s.WellFormed) :
    '\x7b' ∉ s.content := by
  obtain ⟨name, arg, rest⟩ := s
  have hName : '\x7b' ∉ name := hWellFormed.name.not_mem (by decide)
  cases arg with
  | none => exact hName
  | some arg =>
    intro hMem
    rcases List.mem_append.mp hMem with hMem | hMem
    · exact hName hMem
    · rcases List.mem_cons.mp hMem with hColon | hArg
      · cases hColon
      · exact ((isNotBrace_iff _).mp (hWellFormed.arg arg rfl _ hArg)).1 rfl

theorem isName_takeWhile {cs : List Char} (hStart : cs.head?.any isNameStart = true) :
    IsName (cs.takeWhile isNameChar) := by
  cases cs with
  | nil => cases hStart
  | cons c cs =>
    have hFirst : isNameStart c = true := hStart
    have hChar : isNameChar c = true := by
      rw [isNameChar, hFirst, Bool.true_or, Bool.true_or]
    refine ⟨?_, fun x hMem => List.mem_takeWhile_imp hMem⟩
    rw [List.takeWhile_cons_of_pos hChar]
    exact hFirst

theorem wellFormed_of_simple? {cs : List Char} {s : Simple} (hSimple : simple? cs = some s) :
    s.WellFormed ∧ cs = s.content ++ '\x7d' :: s.rest := by
  have hSplit := List.takeWhile_append_dropWhile (p := isNameChar) (l := cs)
  unfold simple? at hSimple
  split at hSimple
  · rename_i hStart
    have hName := isName_takeWhile hStart
    simp only at hSimple
    split at hSimple
    · rename_i rest hRest
      cases hSimple
      rw [hRest] at hSplit
      exact ⟨⟨hName, nofun⟩, hSplit.symm⟩
    · rename_i more hMore
      have hArg := List.takeWhile_append_dropWhile (p := isNotBrace) (l := more)
      split at hSimple
      · rename_i rest hRest
        cases hSimple
        rw [hRest] at hArg
        rw [hMore, ← hArg] at hSplit
        refine ⟨⟨hName, ?_⟩, hSplit.symm.trans ?_⟩
        · rintro _ ⟨⟩ c hMem
          exact List.mem_takeWhile_imp hMem
        · simp only [Simple.content, List.append_assoc, List.cons_append]
      · cases hSimple
    · cases hSimple
  · cases hSimple

theorem simple?_of_wellFormed {s : Simple} (hWellFormed : s.WellFormed) :
    simple? (s.content ++ '\x7d' :: s.rest) = some s := by
  obtain ⟨name, arg, rest⟩ := s
  have hName : IsName name := hWellFormed.name
  have hStart : ∀ more, (name ++ more).head?.any isNameStart = true := by
    intro more
    rw [List.head?_append_of_ne_nil _ hName.ne_nil]
    exact hName.start
  cases arg with
  | none =>
    obtain ⟨hTake, hDrop⟩ := Text.span_append_cons hName.chars
      (show isNameChar '\x7d' = false by decide) rest
    simp only [Simple.content, simple?, hStart, hTake, hDrop, if_true]
  | some arg =>
    obtain ⟨hTake, hDrop⟩ := Text.span_append_cons hName.chars
      (show isNameChar ':' = false by decide) (arg ++ '\x7d' :: rest)
    obtain ⟨hArg, hRest⟩ := Text.span_append_cons (hWellFormed.arg arg rfl)
      (show isNotBrace '\x7d' = false by decide) rest
    simp only [Simple.content, List.append_assoc, List.cons_append, simple?, hStart, hTake, hDrop,
      hArg, hRest, if_true]

/-- What is read as a simple command, and what is left behind its closing brace. -/
theorem simple?_eq_some_iff {cs : List Char} {s : Simple} :
    simple? cs = some s ↔ s.WellFormed ∧ cs = s.content ++ '\x7d' :: s.rest := by
  constructor
  · exact wellFormed_of_simple?
  · rintro ⟨hWellFormed, rfl⟩
    exact simple?_of_wellFormed hWellFormed

theorem exists_simple?_iff (content : List Char) :
    (∃ s ∈ simple? (content ++ ['\x7d']), s.rest = []) ↔ SimpleContent content := by
  rw [simpleContent_iff []]
  constructor
  · rintro ⟨s, hSimple, hRest⟩
    obtain ⟨hWellFormed, hContent⟩ := simple?_eq_some_iff.mp hSimple
    rw [hRest] at hContent
    exact ⟨s, hWellFormed, (List.append_cancel_right hContent).symm, hRest⟩
  · rintro ⟨s, hWellFormed, rfl, hRest⟩
    refine ⟨s, simple?_eq_some_iff.mpr ⟨hWellFormed, ?_⟩, hRest⟩
    rw [hRest]

instance (content : List Char) : Decidable (SimpleContent content) :=
  decidable_of_iff _ (exists_simple?_iff content)

/-! ## The search finds a command behind every opening brace -/

/-- The simple commands behind the opening braces of a text, with the offsets of their names. -/
def openings (offset : Nat) : List Char → List (Nat × Simple)
  | [] => []
  | c :: cs =>
    let next := offset + c.utf8Size
    if c = '\x7b' then
      match simple? cs with
      | some s => (next, s) :: openings next cs
      | none => openings next cs
    else
      openings next cs

theorem openings_of_other {c : Char} (hOther : c ≠ '\x7b') (offset : Nat) (cs : List Char) :
    openings offset (c :: cs) = openings (offset + c.utf8Size) cs := by
  rw [openings, if_neg hOther]

theorem openings_append_of_not_mem {xs : List Char} (hBrace : '\x7b' ∉ xs) (offset : Nat)
    (ys : List Char) : openings offset (xs ++ ys) = openings (offset + Text.byteLength xs) ys := by
  induction xs generalizing offset with
  | nil => rfl
  | cons c xs ih =>
    rw [List.mem_cons, not_or] at hBrace
    rw [List.cons_append, openings_of_other (Ne.symm hBrace.1), ih hBrace.2, Text.byteLength,
      Nat.add_assoc]

theorem openings_suffix (offset : Nat) (xs ys : List Char) :
    openings (offset + Text.byteLength xs) ys <:+ openings offset (xs ++ ys) := by
  induction xs generalizing offset with
  | nil => exact List.suffix_refl _
  | cons c xs ih =>
    have hRest := ih (offset + c.utf8Size)
    rw [Nat.add_assoc] at hRest
    rw [List.cons_append, openings]
    split
    · split
      · exact hRest.trans (List.suffix_cons _ _)
      · exact hRest
    · exact hRest

/-- A simple command is found behind its brace, and the next one is found behind it. -/
theorem openings_simple {s : Simple} (hWellFormed : s.WellFormed) (offset : Nat) :
    openings offset ('\x7b' :: (s.content ++ '\x7d' :: s.rest)) =
      (offset + 1, s) ::
        openings (offset + 1 + Text.byteLength (s.content ++ ['\x7d'])) s.rest := by
  have hBrace : '\x7b' ∉ s.content ++ ['\x7d'] := by
    rw [List.mem_append, not_or]
    exact ⟨hWellFormed.brace_not_mem, by decide⟩
  rw [openings, simple?_of_wellFormed hWellFormed]
  simp only [if_true]
  rw [List.append_cons, openings_append_of_not_mem hBrace]
  rfl

theorem simpleCommands_eq_openings (offset : Nat) (cs : List Char) :
    simpleCommands offset cs = openings offset cs := by
  induction offset, cs using simpleCommands.induct with
  | case1 offset => rw [simpleCommands, openings]
  | case2 offset cs s hSimple next ih =>
    -- What has been taken holds no further opening brace, so nothing is passed over.
    obtain ⟨hWellFormed, rfl⟩ := simple?_eq_some_iff.mp hSimple
    have hTaken : (s.content ++ '\x7d' :: s.rest).take
        ((s.content ++ '\x7d' :: s.rest).length - s.rest.length) = s.content ++ ['\x7d'] := by
      rw [List.append_cons, List.length_append, Nat.add_sub_cancel]
      exact List.take_left
    rw [hTaken] at ih
    rw [openings_simple hWellFormed, simpleCommands, if_pos rfl]
    split
    · rename_i found hFound
      cases hSimple.symm.trans hFound
      rw [hTaken]
      exact congrArg ((offset + 1, s) :: ·) ih
    · rename_i hNone
      cases hSimple.symm.trans hNone
  | case3 offset cs hNone next ih =>
    rw [simpleCommands, openings, if_pos rfl, if_pos rfl, hNone, ← ih]
  | case4 offset c cs next hOther ih =>
    rw [simpleCommands, if_neg hOther, openings_of_other hOther, ih]

/-- Every command that the search finds stands in the text, right behind an opening brace. -/
theorem exists_of_mem_openings {offset place : Nat} {cs : List Char} {s : Simple}
    (hMem : (place, s) ∈ openings offset cs) :
    s.WellFormed ∧ ∃ before, cs = before ++ (s.content ++ '\x7d' :: s.rest) ∧
      place = offset + Text.byteLength before := by
  induction cs generalizing offset with
  | nil => cases hMem
  | cons c cs ih =>
    have hLater : (place, s) ∈ openings (offset + c.utf8Size) cs → s.WellFormed ∧
        ∃ before, c :: cs = before ++ (s.content ++ '\x7d' :: s.rest) ∧
          place = offset + Text.byteLength before := by
      intro hRest
      obtain ⟨hWellFormed, before, rfl, rfl⟩ := ih hRest
      exact ⟨hWellFormed, c :: before, rfl, by rw [Text.byteLength, Nat.add_assoc]⟩
    rw [openings] at hMem
    split at hMem
    · split at hMem
      · rename_i found hFound
        rcases List.mem_cons.mp hMem with hHere | hRest
        · cases hHere
          obtain ⟨hWellFormed, hText⟩ := simple?_eq_some_iff.mp hFound
          exact ⟨hWellFormed, [c], congrArg (c :: ·) hText, rfl⟩
        · exact hLater hRest
      · exact hLater hMem
    · exact hLater hMem

/-! ## Spans of names -/

def ofOpening (opening : Nat × Simple) : String × Option String × Option Nat :=
  (String.ofList opening.2.name, opening.2.arg.bind filled?, some opening.1)

/-- Name, argument and the offset `shift` bytes behind the start of the command. -/
def entry (shift : Nat) (c : Command) : String × Option String × Option Nat :=
  (c.name, c.arg, c.span.map fun span => span.start.offset + shift)

theorem exists_span_of_mem_openings {cs : List Char} {opening : Nat × Simple}
    (hMem : opening ∈ openings 0 cs) :
    ((LineTable.ofText cs).position opening.1).offset = opening.1 ∧
      ((LineTable.ofText cs).span opening.1
        (opening.1 + Text.byteLength opening.2.name)).Covers cs opening.2.name := by
  obtain ⟨place, s⟩ := opening
  obtain ⟨-, before, hText, rfl⟩ := exists_of_mem_openings hMem
  have hName : ∃ after, s.content ++ '\x7d' :: s.rest = s.name ++ after := by
    cases hArg : s.arg with
    | none => exact ⟨_, by rw [Simple.content, hArg]⟩
    | some arg => exact ⟨_, by rw [Simple.content, hArg, List.append_assoc]⟩
  obtain ⟨after, hAfter⟩ := hName
  rw [hAfter, ← List.append_assoc] at hText
  rw [hText, Nat.zero_add]
  refine ⟨?_, LineTable.covers_span before s.name after⟩
  rw [List.append_assoc]
  exact LineTable.offset_position before _

theorem map_entry_ofSource (source : String) :
    (ofSource source).map (entry 0) = (openings 0 source.toList).map ofOpening := by
  rw [ofSource, List.map_map, simpleCommands_eq_openings]
  refine List.map_congr_left fun opening hMem => ?_
  have hOffset := (exists_span_of_mem_openings hMem).1
  simp only [Function.comp_apply, entry, ofOpening, Option.map_some, LineTable.span, hOffset,
    Nat.add_zero]

theorem covers_of_mem_ofSource {source : String} {c : Command} (hMem : c ∈ ofSource source) :
    ∃ span, c.span = some span ∧ span.Covers source.toList c.name.toList := by
  rw [ofSource, simpleCommands_eq_openings] at hMem
  obtain ⟨opening, hOpening, rfl⟩ := List.mem_map.mp hMem
  refine ⟨_, rfl, ?_⟩
  rw [String.toList_ofList]
  exact (exists_span_of_mem_openings hOpening).2

end Command

end BraceDoc
