import BraceDoc.Proofs.Markup.First

/-!
# The division of a text into pieces

Where a piece stops, only certain pieces can begin, and these are the ones that may stand behind it.
So the first pieces of a text and of what is left of it make up a division, and `scan` finds the
only division there is.
-/

set_option autoImplicit false

namespace BraceDoc.Piece

/-! ## Neighbouring pieces -/

theorem WellFormed.render_ne_nil {p : Piece} (hWellFormed : p.WellFormed) : p.render ≠ [] := by
  cases p with
  | text content => exact hWellFormed.1
  | command inner closed => exact List.cons_ne_nil _ _
  | literal width content closed =>
    match width, hWellFormed with
    | more + 2, _ => exact List.cons_ne_nil _ _
  | lineComment body => exact List.cons_ne_nil _ _
  | blockComment body closed => exact List.cons_ne_nil _ _

theorem WellFormed.head?_render {p : Piece} (hWellFormed : p.WellFormed)
    (hText : p.isText = false) :
    p.render.head? = if p.isComment then some '/' else some '\x7b' := by
  cases p with
  | text content => cases hText
  | command inner closed => rfl
  | literal width content closed =>
    match width, hWellFormed with
    | more + 2, _ => rfl
  | lineComment body => rfl
  | blockComment body closed => rfl

theorem WellFormed.startsBlock_render {p : Piece} (hWellFormed : p.WellFormed)
    (hText : p.isText = false) (rest : List Char) : startsBlock (p.render ++ rest) = true := by
  cases p with
  | text content => cases hText
  | command inner closed => rfl
  | literal width content closed =>
    match width, hWellFormed with
    | more + 2, _ => rfl
  | lineComment body => rfl
  | blockComment body closed => rfl

theorem stops_nil (p : Piece) : p.Stops [] := by
  cases p with
  | text content => exact Or.inl rfl
  | command inner closed => exact fun _ => rfl
  | literal width content closed => exact fun _ => rfl
  | lineComment body => exact Or.inl rfl
  | blockComment body closed => exact fun _ => rfl

theorem Stops.isClosed {p : Piece} {rest : List Char} (hStops : p.Stops rest) (hRest : rest ≠ []) :
    p.isClosed = true := by
  cases p with
  | text content => rfl
  | command inner closed => exact Bool.of_not_eq_false fun hOpen => hRest (hStops hOpen)
  | literal width content closed =>
    exact Bool.of_not_eq_false fun hOpen => hRest (hStops hOpen)
  | lineComment body => rfl
  | blockComment body closed =>
    exact Bool.of_not_eq_false fun hOpen => hRest (hStops hOpen)

theorem First.head?_eq {q : Piece} {rest cs : List Char} (hFirst : First q rest cs) :
    cs.head? = q.render.head? := by
  obtain ⟨c, tail, hRender⟩ := List.exists_cons_of_ne_nil hFirst.wellFormed.render_ne_nil
  rw [← hFirst.spelled, hRender]
  rfl

theorem First.isText_eq_false {q : Piece} {rest cs : List Char} (hFirst : First q rest cs)
    (hStarts : startsBlock cs = true) : q.isText = false := by
  obtain ⟨rfl, hWellFormed, hStops⟩ := hFirst
  cases q with
  | text content =>
    have hUnbroken := unbroken_of_stops hWellFormed hStops
    cases content with
    | nil => exact absurd rfl hWellFormed.1
    | cons c content =>
      have hPlain : startsBlock (c :: (content ++ rest)) = false := hUnbroken.1
      exact absurd hStarts (by rw [render, List.cons_append, hPlain]; exact Bool.false_ne_true)
  | command inner closed => rfl
  | literal width content closed => rfl
  | lineComment body => rfl
  | blockComment body closed => rfl

theorem mayPrecede_of_stops {p q : Piece} {rest more : List Char} (hStops : p.Stops rest)
    (hFirst : First q more rest) : p.MayPrecede q := by
  have hRest : rest ≠ [] := by
    rw [← hFirst.spelled]
    exact List.append_ne_nil_of_left_ne_nil hFirst.wellFormed.render_ne_nil _
  cases p with
  | text content =>
    obtain ⟨hStarts, hSlash⟩ := hStops.resolve_left hRest
    have hText := hFirst.isText_eq_false hStarts
    refine ⟨hText, fun hComment hLast => hSlash hLast ?_⟩
    rw [hFirst.head?_eq, hFirst.wellFormed.head?_render hText, if_pos hComment]
  | lineComment body =>
    have hHead := (hFirst.head?_eq).symm.trans (hStops.resolve_left hRest)
    cases hText : q.isText with
    | false =>
      rw [hFirst.wellFormed.head?_render hText] at hHead
      split at hHead
      · cases hHead
      · cases hHead
    | true =>
      cases q with
      | text content => exact hHead
      | command inner closed => cases hText
      | literal width content closed => cases hText
      | lineComment body => cases hText
      | blockComment body closed => cases hText
  | command inner closed => trivial
  | literal width content closed => trivial
  | blockComment body closed => trivial

theorem stops_of_mayPrecede {p q : Piece} (hPrecede : p.MayPrecede q) (hClosed : p.isClosed = true)
    (hWellFormed : q.WellFormed) (rest : List Char) : p.Stops (q.render ++ rest) := by
  cases p with
  | text content =>
    obtain ⟨hText, hSlash⟩ := hPrecede
    refine Or.inr ⟨hWellFormed.startsBlock_render hText rest, fun hLast => ?_⟩
    rw [List.head?_append, hWellFormed.head?_render hText]
    cases hComment : q.isComment with
    | true => exact absurd hLast (hSlash hComment)
    | false => simp
  | lineComment body =>
    cases q with
    | text content =>
      refine Or.inr ?_
      rw [render, List.head?_append, hPrecede, Option.some_or]
    | command inner closed => cases hPrecede
    | literal width content closed => cases hPrecede
    | lineComment body => cases hPrecede
    | blockComment body closed => cases hPrecede
  | command inner closed => exact fun hOpen => absurd hClosed (by simp [isClosed, hOpen])
  | literal width content closed => exact fun hOpen => absurd hClosed (by simp [isClosed, hOpen])
  | blockComment body closed => exact fun hOpen => absurd hClosed (by simp [isClosed, hOpen])

/-! ## The division of a text into pieces -/

theorem divides_nil : Divides [] [] where
  spelled := rfl
  wellFormed := nofun
  chained := .nil
  closed := nofun

theorem Divides.cons {p : Piece} {pieces : List Piece} {rest cs : List Char}
    (hFirst : First p rest cs) (hRest : Divides pieces rest)
    (hNext : ∀ q ∈ pieces.head?, ∃ more, First q more rest) : Divides (p :: pieces) cs where
  spelled := by
    rw [List.flatMap_cons, hRest.spelled, hFirst.spelled]
  wellFormed := List.forall_mem_cons.mpr ⟨hFirst.wellFormed, hRest.wellFormed⟩
  chained := by
    refine List.isChain_cons.mpr ⟨fun q hq => ?_, hRest.chained⟩
    obtain ⟨more, hMore⟩ := hNext q hq
    exact mayPrecede_of_stops hFirst.stops hMore
  closed := by
    cases pieces with
    | nil => nofun
    | cons q pieces =>
      obtain ⟨more, hMore⟩ := hNext q rfl
      have hNonempty : rest ≠ [] := by
        rw [← hMore.spelled]
        exact List.append_ne_nil_of_left_ne_nil hMore.wellFormed.render_ne_nil _
      rw [List.dropLast_cons_cons]
      exact List.forall_mem_cons.mpr ⟨hFirst.stops.isClosed hNonempty, hRest.closed⟩

theorem head?_scan {cs : List Char} {q : Piece} (hHead : q ∈ (scan cs).head?) :
    ∃ more, First q more cs := by
  cases cs with
  | nil =>
    rw [scan] at hHead
    cases hHead
  | cons c cs =>
    rw [scan, List.head?_cons, Option.mem_some_iff] at hHead
    exact ⟨(next c cs).2, hHead ▸ first_next c cs⟩

theorem divides_scan (cs : List Char) : Divides (scan cs) cs := by
  induction cs using scan.induct with
  | case1 =>
    rw [scan]
    exact divides_nil
  | case2 c cs ih =>
    rw [scan]
    exact Divides.cons (first_next c cs) ih fun q hq => head?_scan hq

theorem Divides.first {p : Piece} {pieces : List Piece} {cs : List Char}
    (hDivides : Divides (p :: pieces) cs) : First p (pieces.flatMap render) cs where
  spelled := hDivides.spelled
  wellFormed := hDivides.wellFormed p List.mem_cons_self
  stops := by
    cases pieces with
    | nil => exact stops_nil p
    | cons q pieces =>
      have hPrecede : p.MayPrecede q := (List.isChain_cons.mp hDivides.chained).1 q rfl
      have hClosed : p.isClosed = true := hDivides.closed p (by simp)
      have hNext : q.WellFormed := hDivides.wellFormed q (by simp)
      exact stops_of_mayPrecede hPrecede hClosed hNext _

theorem Divides.tail {p : Piece} {pieces : List Piece} {cs : List Char}
    (hDivides : Divides (p :: pieces) cs) : Divides pieces (pieces.flatMap render) where
  spelled := rfl
  wellFormed q hq := hDivides.wellFormed q (List.mem_cons_of_mem p hq)
  chained := hDivides.chained.tail
  closed := by
    cases pieces with
    | nil => nofun
    | cons q pieces =>
      intro r hr
      refine hDivides.closed r ?_
      rw [List.dropLast_cons_cons]
      exact List.mem_cons_of_mem p hr

theorem scan_of_divides {pieces : List Piece} {cs : List Char} (hDivides : Divides pieces cs) :
    scan cs = pieces := by
  induction pieces generalizing cs with
  | nil =>
    rw [← hDivides.spelled]
    exact scan.eq_1
  | cons p pieces ih =>
    have hFirst := hDivides.first
    cases cs with
    | nil =>
      have hEmpty := (List.append_eq_nil_iff.mp hFirst.spelled).1
      exact absurd hEmpty hFirst.wellFormed.render_ne_nil
    | cons c cs => rw [scan, next_of_first hFirst, ih hDivides.tail]

/-- Every text is divided into pieces in exactly one way. -/
theorem scan_eq_iff {pieces : List Piece} {cs : List Char} :
    scan cs = pieces ↔ Divides pieces cs := by
  constructor
  · rintro rfl
    exact divides_scan cs
  · exact scan_of_divides

end BraceDoc.Piece
