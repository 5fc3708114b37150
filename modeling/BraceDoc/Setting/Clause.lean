import BraceDoc.Text.Blank
import BraceDoc.Text.Cut

/-!
# Clauses of a settings payload

A payload is a list of clauses with commas between them. Only characters at the top level count:
outside double quotes, and outside square brackets. A quote behind a backslash neither opens nor
closes. Brackets that close nothing are passed over.
-/

set_option autoImplicit false

namespace BraceDoc.Setting

/-- What has been passed on the way through a payload. -/
structure Level where
  /-- Inside double quotes. -/
  quoted : Bool := false
  /-- The number of open brackets. -/
  depth : Nat := 0
  /-- Right behind a backslash. -/
  escaped : Bool := false
  deriving DecidableEq

namespace Level

def isTop (l : Level) : Bool :=
  !l.quoted && l.depth == 0

def step (l : Level) (c : Char) : Level where
  quoted := if c = '"' && !l.escaped then !l.quoted else l.quoted
  depth :=
    if l.quoted then l.depth
    else if c = '[' then l.depth + 1
    else if c = ']' then l.depth - 1
    else l.depth
  escaped := c = '\\'

end Level

/-- The stretches of text between the commas at the top level. -/
def stretches (l : Level) : List Char → List (List Char)
  | [] => [[]]
  | c :: cs =>
    if c = ',' && l.isTop then
      [] :: stretches (l.step c) cs
    else
      match stretches (l.step c) cs with
      | [] => [[c]]
      | stretch :: rest => (c :: stretch) :: rest

/-- The clauses of a payload, trimmed and without the empty ones. -/
def clauses (payload : List Char) : List (List Char) :=
  ((stretches {} payload).map Text.trim).filter fun clause => !clause.isEmpty

/-- The text before and behind the first equals sign at the top level. -/
def cutAtEquals? (l : Level) : List Char → Option (List Char × List Char)
  | [] => none
  | c :: cs =>
    if c = '=' && l.isTop then
      some ([], cs)
    else
      (cutAtEquals? (l.step c) cs).map fun parts => (c :: parts.1, parts.2)

/-! ## Lengths -/

theorem length_le_of_mem_stretches {l : Level} {cs stretch : List Char}
    (hMem : stretch ∈ stretches l cs) : stretch.length ≤ cs.length := by
  induction cs generalizing l stretch with
  | nil =>
    rw [stretches, List.mem_singleton] at hMem
    exact Nat.le_of_eq (congrArg List.length hMem)
  | cons c cs ih =>
    rw [stretches] at hMem
    split at hMem
    · rcases List.mem_cons.mp hMem with rfl | hRest
      · exact Nat.zero_le _
      · exact Nat.le_succ_of_le (ih hRest)
    · split at hMem
      · rw [List.mem_singleton.mp hMem]
        exact Nat.succ_le_succ (Nat.zero_le _)
      · rename_i first rest hStretches
        have hFirst : first.length ≤ cs.length :=
          ih (by rw [hStretches]; exact List.mem_cons_self)
        rcases List.mem_cons.mp hMem with rfl | hRest
        · exact Nat.succ_le_succ hFirst
        · exact Nat.le_succ_of_le (ih (by rw [hStretches]; exact List.mem_cons_of_mem _ hRest))

theorem length_trim_le (cs : List Char) : (Text.trim cs).length ≤ cs.length := by
  have hStart := (List.dropWhile_sublist Text.isBlank (l := cs)).length_le
  have hEnd := (List.dropWhile_sublist Text.isBlank
    (l := (cs.dropWhile Text.isBlank).reverse)).length_le
  simp only [Text.trim, Text.trimEnd, Text.trimStart, List.length_reverse] at hEnd ⊢
  omega

theorem length_le_of_mem_clauses {payload clause : List Char} (hMem : clause ∈ clauses payload) :
    clause.length ≤ payload.length := by
  obtain ⟨stretch, hStretch, rfl⟩ := List.mem_map.mp (List.mem_filter.mp hMem).1
  exact Nat.le_trans (length_trim_le _) (length_le_of_mem_stretches hStretch)

theorem length_cutAtEquals?_snd {l : Level} {cs before behind : List Char}
    (hCut : cutAtEquals? l cs = some (before, behind)) : behind.length < cs.length := by
  induction cs generalizing l before with
  | nil => cases hCut
  | cons c cs ih =>
    rw [cutAtEquals?] at hCut
    split at hCut
    · cases hCut
      exact Nat.lt_succ_self _
    · obtain ⟨⟨front, back⟩, hRest, hEq⟩ := Option.map_eq_some_iff.mp hCut
      cases hEq
      exact Nat.lt_succ_of_lt (ih hRest)

end BraceDoc.Setting
