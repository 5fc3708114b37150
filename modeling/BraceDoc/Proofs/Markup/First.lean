import BraceDoc.Proofs.Markup.Grammar

/-!
# The first piece of a text

A piece is the first one of a text when it spells the beginning of the text, is well-formed, and
stops where another piece can begin. `next` finds the first piece, and there is only one.
-/

set_option autoImplicit false

namespace BraceDoc.Piece

/-- What can follow a piece in a text. -/
def Stops : Piece → List Char → Prop
  | .text content, rest =>
    rest = [] ∨ startsBlock rest = true ∧ (content.getLast? = some '/' → rest.head? ≠ some '/')
  | .lineComment _, rest => rest = [] ∨ rest.head? = some '\n'
  | .command _ closed, rest | .literal _ _ closed, rest | .blockComment _ closed, rest =>
    closed = false → rest = []

/-- The piece stands at the beginning of a text, and `rest` is the text behind it. -/
structure First (p : Piece) (rest cs : List Char) : Prop where
  spelled : p.render ++ rest = cs
  wellFormed : p.WellFormed
  stops : p.Stops rest

/-! ## Pieces with delimiters -/

theorem closeAt_append {mark body : List Char} (hEnds : Text.EndsAt mark body)
    (make : List Char → Bool → Piece) (rest : List Char) :
    closeAt mark make (body ++ mark ++ rest) = (make body true, rest) := by
  rw [closeAt, Text.cut?_append hEnds]

theorem closeAt_of_no_mark {mark cs : List Char} (hInfix : ¬ mark <:+: cs)
    (make : List Char → Bool → Piece) : closeAt mark make cs = (make cs false, []) := by
  rw [closeAt, Text.cut?_eq_none_iff.mpr hInfix]

theorem closeAt_cases (mark cs : List Char) (make : List Char → Bool → Piece) :
    (∃ body rest, closeAt mark make cs = (make body true, rest) ∧ cs = body ++ mark ++ rest ∧
        Text.EndsAt mark body) ∨
      closeAt mark make cs = (make cs false, []) ∧ ¬ mark <:+: cs := by
  cases hCut : Text.cut? mark cs with
  | none =>
    have hInfix := Text.cut?_eq_none_iff.mp hCut
    exact Or.inr ⟨closeAt_of_no_mark hInfix make, hInfix⟩
  | some parts =>
    obtain ⟨hText, hEnds⟩ := Text.cut?_eq_some_iff.mp hCut
    refine Or.inl ⟨parts.1, parts.2, ?_, hText, hEnds⟩
    rw [hText, closeAt_append hEnds]

/-- The kind of a piece behind one brace and `more` further ones. -/
def fenced (more : Nat) : List Char → Bool → Piece :=
  if more = 0 then .command else .literal (more + 1)

theorem span_openFence (more : Nat) {cs : List Char} (hHead : cs.head? ≠ some '\x7b') :
    (openFence more ++ cs).takeWhile (· = '\x7b') = openFence more ∧
      (openFence more ++ cs).dropWhile (· = '\x7b') = cs := by
  have hOpen : ∀ c ∈ openFence more, decide (c = '\x7b') = true := fun c hc =>
    decide_eq_true (List.eq_of_mem_replicate hc)
  have hStop : ∀ c, cs.head? = some c → decide (c = '\x7b') = false := fun c hc =>
    decide_eq_false (by rintro rfl; exact hHead hc)
  exact Text.span_append hOpen hStop

theorem braced_append (more : Nat) {cs : List Char} (hHead : cs.head? ≠ some '\x7b') :
    braced (openFence more ++ cs) = closeAt (closeFence (more + 1)) (fenced more) cs := by
  obtain ⟨hTake, hDrop⟩ := span_openFence more hHead
  rw [braced, hTake, hDrop, openFence, List.length_replicate, Nat.add_comm 1 more, fenced]
  cases more with
  | zero => rfl
  | succ more => rfl

/-- A text behind a brace begins with a run of braces, which may be empty. -/
theorem exists_openFence (cs : List Char) :
    ∃ more tail, cs = openFence more ++ tail ∧ tail.head? ≠ some '\x7b' := by
  refine ⟨(cs.takeWhile (· = '\x7b')).length, cs.dropWhile (· = '\x7b'), ?_, ?_⟩
  · have hRun : cs.takeWhile (· = '\x7b') = openFence (cs.takeWhile (· = '\x7b')).length := by
      rw [openFence, List.eq_replicate_iff]
      exact ⟨rfl, fun c hc => by simpa using List.mem_takeWhile_imp hc⟩
    rw [← hRun, List.takeWhile_append_dropWhile]
  · intro hHead
    exact of_decide_eq_false (Text.head?_dropWhile_eq_false hHead) rfl

theorem render_fenced (more : Nat) (body : List Char) (closed : Bool) :
    (fenced more body closed).render =
      '\x7b' :: (openFence more ++ body ++ if closed then closeFence (more + 1) else []) := by
  cases more with
  | zero => rfl
  | succ more => rfl

theorem wellFormed_fenced_iff (more : Nat) (body : List Char) (closed : Bool) :
    (fenced more body closed).WellFormed ↔ body.head? ≠ some '\x7b' ∧
      if closed then Text.EndsAt (closeFence (more + 1)) body
      else ¬ closeFence (more + 1) <:+: body := by
  cases more with
  | zero =>
    change '\x7d' ∉ body ∧ _ ↔
      _ ∧ if closed then Text.EndsAt ['\x7d'] body else ¬ ['\x7d'] <:+: body
    rw [Text.endsAt_singleton_iff, List.singleton_infix_iff, ite_self, and_comm]
  | succ more =>
    change 2 ≤ more + 1 + 1 ∧ _ ↔ _
    rw [and_iff_right (Nat.le_add_left 2 more)]

/-! ## Finding the first piece -/

theorem first_closeAt (opening : List Char) {mark cs : List Char} {make : List Char → Bool → Piece}
    (hRender : ∀ body closed,
      (make body closed).render = opening ++ body ++ if closed then mark else [])
    (hWellFormed : ∀ body closed, body <+: cs →
      (if closed then Text.EndsAt mark body else ¬ mark <:+: body) → (make body closed).WellFormed)
    (hStops : ∀ body closed rest, (closed = false → rest = []) → (make body closed).Stops rest) :
    First (closeAt mark make cs).1 (closeAt mark make cs).2 (opening ++ cs) := by
  rcases closeAt_cases mark cs make with ⟨body, rest, hClose, hText, hEnds⟩ | ⟨hClose, hInfix⟩
  · rw [hClose]
    have hPrefix : body <+: cs := by
      rw [hText, List.append_assoc]
      exact List.prefix_append _ _
    refine ⟨?_, hWellFormed body true hPrefix hEnds, hStops body true rest nofun⟩
    rw [hRender, hText]
    simp
  · rw [hClose]
    refine ⟨?_, hWellFormed cs false (List.prefix_refl cs) hInfix, hStops cs false [] fun _ => rfl⟩
    rw [hRender]
    simp

theorem stops_fenced_iff (more : Nat) (body : List Char) (closed : Bool) (rest : List Char) :
    (fenced more body closed).Stops rest ↔ (closed = false → rest = []) := by
  cases more with
  | zero => exact Iff.rfl
  | succ more => exact Iff.rfl

theorem first_braced (cs : List Char) :
    First (braced cs).1 (braced cs).2 ('\x7b' :: cs) := by
  obtain ⟨more, tail, rfl, hHead⟩ := exists_openFence cs
  rw [braced_append more hHead]
  refine first_closeAt ('\x7b' :: openFence more) ?_ ?_ ?_
  · intro body closed
    rw [render_fenced]
    simp
  · intro body closed hPrefix hMark
    refine (wellFormed_fenced_iff more body closed).mpr ⟨?_, hMark⟩
    intro hBody
    obtain ⟨rest, rfl⟩ := hPrefix
    exact hHead (by rw [List.head?_append, hBody, Option.some_or])
  · intro body closed rest hRest
    exact (stops_fenced_iff more body closed rest).mpr hRest

theorem first_lineComment (cs : List Char) :
    First (.lineComment (cs.takeWhile isNotLineEnd)) (cs.dropWhile isNotLineEnd)
      ('/' :: '/' :: cs) where
  spelled := by
    change '/' :: '/' :: (cs.takeWhile isNotLineEnd ++ cs.dropWhile isNotLineEnd) = _
    rw [List.takeWhile_append_dropWhile]
  wellFormed := by
    intro hMem
    have hClass := List.mem_takeWhile_imp hMem
    exact absurd hClass (by decide)
  stops := by
    cases hRest : cs.dropWhile isNotLineEnd with
    | nil => exact Or.inl rfl
    | cons c rest =>
      have hHead : (cs.dropWhile isNotLineEnd).head? = some c := by
        rw [hRest]
        rfl
      have hStop := Text.head?_dropWhile_eq_false hHead
      refine Or.inr ?_
      simpa [isNotLineEnd] using hStop

theorem first_plain {c : Char} {cs : List Char} (hPlain : startsBlock (c :: cs) = false) :
    First (.text (spanText (c :: cs)).1) (spanText (c :: cs)).2 (c :: cs) := by
  obtain ⟨hSpelled, hUnbroken, hStop⟩ := spanText_spec (c :: cs)
  obtain ⟨hBrace, hLine, hBlock, hSlash⟩ := (unbroken_iff _ _).mp hUnbroken
  refine ⟨hSpelled, ⟨?_, hBrace, hLine, hBlock⟩, ?_⟩
  · rw [spanText, if_neg (by rw [hPlain]; exact Bool.false_ne_true)]
    exact List.cons_ne_nil _ _
  · exact hStop.imp_right fun hStarts => ⟨hStarts, fun hLast => (hSlash hLast).1⟩

theorem first_next (c : Char) (cs : List Char) :
    First (next c cs).1 (next c cs).2 (c :: cs) := by
  cases hBlock : startsBlock (c :: cs) with
  | false =>
    rw [next_of_plain hBlock]
    exact first_plain hBlock
  | true =>
    rcases (startsBlock_cons_iff c cs).mp hBlock with rfl | ⟨rfl, hHead | hHead⟩
    · exact first_braced cs
    · obtain ⟨tail, rfl⟩ := List.head?_eq_some_iff.mp hHead
      exact first_lineComment tail
    · obtain ⟨tail, rfl⟩ := List.head?_eq_some_iff.mp hHead
      refine first_closeAt ['/', '*'] ?_ ?_ ?_
      · intro body closed
        rfl
      · intro body closed _ hMark
        exact hMark
      · intro body closed rest hRest
        exact hRest

theorem closeAt_of_mark {mark body rest : List Char} {closed : Bool}
    (make : List Char → Bool → Piece)
    (hMark : if closed then Text.EndsAt mark body else ¬ mark <:+: body)
    (hRest : closed = false → rest = []) :
    closeAt mark make (body ++ (if closed then mark else []) ++ rest) =
      (make body closed, rest) := by
  cases closed with
  | true => exact closeAt_append hMark make rest
  | false =>
    rw [hRest rfl]
    simpa using closeAt_of_no_mark hMark make

theorem next_fenced (more : Nat) {body rest : List Char} {closed : Bool}
    (hWellFormed : (fenced more body closed).WellFormed)
    (hStops : (fenced more body closed).Stops rest) :
    next '\x7b' (openFence more ++
      (body ++ (if closed then closeFence (more + 1) else []) ++ rest)) =
        (fenced more body closed, rest) := by
  obtain ⟨hHead, hMark⟩ := (wellFormed_fenced_iff more body closed).mp hWellFormed
  have hRest := (stops_fenced_iff more body closed rest).mp hStops
  refine (braced_append more ?_).trans (closeAt_of_mark (fenced more) hMark hRest)
  cases body with
  | cons c body => exact hHead
  | nil =>
    cases closed with
    | true => simp [closeFence, List.replicate_succ]
    | false => simp [hRest rfl]

theorem next_lineComment {body rest : List Char} (hBody : '\n' ∉ body)
    (hRest : rest = [] ∨ rest.head? = some '\n') :
    next '/' ('/' :: (body ++ rest)) = (.lineComment body, rest) := by
  have hRun : ∀ c ∈ body, isNotLineEnd c = true := by
    intro c hc
    rw [isNotLineEnd, bne_iff_ne]
    rintro rfl
    exact hBody hc
  have hStop : ∀ c, rest.head? = some c → isNotLineEnd c = false := by
    intro c hc
    rcases hRest with rfl | hHead
    · cases hc
    · rw [Option.some.inj (hc.symm.trans hHead)]
      rfl
  obtain ⟨hTake, hDrop⟩ := Text.span_append hRun hStop
  change (Piece.lineComment ((body ++ rest).takeWhile isNotLineEnd), _) = _
  rw [hTake, hDrop]

theorem unbroken_of_stops {content rest : List Char} (hWellFormed : (text content).WellFormed)
    (hStops : (text content).Stops rest) : Unbroken rest content := by
  obtain ⟨-, hBrace, hLine, hBlock⟩ := hWellFormed
  refine (unbroken_iff _ _).mpr ⟨hBrace, hLine, hBlock, fun hLast => ?_⟩
  rcases hStops with rfl | ⟨hStarts, hSlash⟩
  · simp
  · refine ⟨hSlash hLast, ?_⟩
    intro hStar
    obtain ⟨tail, rfl⟩ := List.head?_eq_some_iff.mp hStar
    cases hStarts

theorem next_text {c : Char} {content rest : List Char}
    (hWellFormed : (text (c :: content)).WellFormed) (hStops : (text (c :: content)).Stops rest) :
    next c (content ++ rest) = (.text (c :: content), rest) := by
  have hUnbroken := unbroken_of_stops hWellFormed hStops
  have hSpan := spanText_append hUnbroken (hStops.imp_right And.left)
  rw [next_of_plain hUnbroken.1, ← List.cons_append, hSpan]

theorem next_of_first {p : Piece} {c : Char} {cs rest : List Char}
    (hFirst : First p rest (c :: cs)) :
    next c cs = (p, rest) := by
  obtain ⟨hSpelled, hWellFormed, hStops⟩ := hFirst
  cases p with
  | text content =>
    cases content with
    | nil => exact absurd rfl hWellFormed.1
    | cons d content =>
      obtain ⟨rfl, rfl⟩ := List.cons.inj hSpelled
      exact next_text hWellFormed hStops
  | command inner closed =>
    obtain ⟨rfl, rfl⟩ := List.cons.inj hSpelled
    exact next_fenced 0 hWellFormed hStops
  | literal width content closed =>
    match width, hWellFormed with
    | more + 2, hWellFormed =>
      change (fenced (more + 1) content closed).render ++ rest = _ at hSpelled
      rw [render_fenced, List.cons_append, List.append_assoc (openFence _),
        List.append_assoc (openFence _)] at hSpelled
      obtain ⟨rfl, rfl⟩ := List.cons.inj hSpelled
      exact next_fenced (more + 1) hWellFormed hStops
  | lineComment body =>
    obtain ⟨rfl, rfl⟩ := List.cons.inj hSpelled
    exact next_lineComment hWellFormed hStops
  | blockComment body closed =>
    obtain ⟨rfl, rfl⟩ := List.cons.inj hSpelled
    exact closeAt_of_mark .blockComment hWellFormed hStops

end BraceDoc.Piece
