import BraceDoc.Proofs.Markup.Token
import BraceDoc.Proofs.Source.LineTable

/-!
# Scanning by offsets

The tokens and the errors of a text are also found by a loop over byte offsets. A round of the loop
reads coarse tokens, remembers where plain text began, and at the first block among them looks for
the closing mark in the source; the next round begins behind the block. Every slice of the source
that is taken on the way lies between two characters.
-/

set_option autoImplicit false

namespace BraceDoc

open LineTable (slice?)
open Text (byteLength)

/-! ## Coarse tokens -/

inductive Coarse where
  | lineComment
  | blockComment
  | literal
  | command
  | slash
  | text
  deriving DecidableEq

namespace Coarse

def isPlain (c : Char) : Bool :=
  c != '/' && c != '\x7b'

/-- The longest coarse token at the beginning of a text: its class, its characters and the text
behind them. -/
def read (c : Char) (cs : List Char) : Coarse × List Char × List Char :=
  match c, cs with
  | '/', '/' :: cs => (.lineComment, ['/', '/'], cs)
  | '/', '*' :: cs => (.blockComment, ['/', '*'], cs)
  | '/', cs => (.slash, ['/'], cs)
  | '\x7b', cs =>
    (if cs.head? = some '\x7b' then .literal else .command,
      '\x7b' :: cs.takeWhile (· = '\x7b'), cs.dropWhile (· = '\x7b'))
  | c, cs => (.text, c :: cs.takeWhile isPlain, cs.dropWhile isPlain)

theorem read_spec (c : Char) (cs : List Char) :
    (read c cs).2.1 ≠ [] ∧ (read c cs).2.1 ++ (read c cs).2.2 = c :: cs := by
  unfold read
  split <;> simp

theorem length_read_lt (c : Char) (cs : List Char) :
    (read c cs).2.2.length < (c :: cs).length := by
  obtain ⟨hSome, hText⟩ := read_spec c cs
  have hTaken := List.length_pos_of_ne_nil hSome
  rw [← hText, List.length_append]
  omega

theorem lt_stop (start : Nat) (c : Char) (cs : List Char) :
    start < start + byteLength (read c cs).2.1 := by
  have hTaken := List.length_pos_of_ne_nil (read_spec c cs).1
  have hBytes := Text.length_le_byteLength (read c cs).2.1
  omega

theorem read_openFence (more : Nat) {cs : List Char} (hHead : cs.head? ≠ some '\x7b') :
    read '\x7b' (Piece.openFence more ++ cs) =
      (if more = 0 then .command else .literal, Piece.openFence (more + 1), cs) := by
  obtain ⟨hTake, hDrop⟩ := Piece.span_openFence more hHead
  change (if (Piece.openFence more ++ cs).head? = some '\x7b' then literal else .command,
    '\x7b' :: (Piece.openFence more ++ cs).takeWhile _, _) = _
  rw [hTake, hDrop]
  cases more with
  | zero => exact congrArg (·, _, cs) (if_neg hHead)
  | succ more => rfl

theorem spanText_append_plain {plain : List Char} (hPlain : ∀ c ∈ plain, isPlain c = true)
    (cs : List Char) :
    Piece.spanText (plain ++ cs) = (plain ++ (Piece.spanText cs).1, (Piece.spanText cs).2) := by
  induction plain with
  | nil => rfl
  | cons c plain ih =>
    have hClass := hPlain c List.mem_cons_self
    have hInside : ¬ Piece.startsBlock (c :: (plain ++ cs)) = true := by
      rw [Piece.startsBlock_cons_iff]
      simp only [isPlain, Bool.and_eq_true, bne_iff_ne] at hClass
      rintro (hBrace | ⟨hSlash, -⟩)
      · exact hClass.2 hBrace
      · exact hClass.1 hSlash
    rw [List.cons_append, Piece.spanText, if_neg hInside,
      ih fun d hd => hPlain d (List.mem_cons_of_mem c hd)]
    rfl

/-- Where no block begins, a coarse token is plain text. -/
theorem read_of_plain {c : Char} {cs : List Char} (hPlain : Piece.startsBlock (c :: cs) = false) :
    ((read c cs).1 = .slash ∨ (read c cs).1 = .text) ∧
      Piece.spanText (c :: cs) =
        ((read c cs).2.1 ++ (Piece.spanText (read c cs).2.2).1,
          (Piece.spanText (read c cs).2.2).2) := by
  unfold read
  split
  · cases hPlain
  · cases hPlain
  · rename_i cs hLine hBlock
    refine ⟨Or.inl rfl, ?_⟩
    rw [Piece.spanText, if_neg (by rw [hPlain]; exact Bool.false_ne_true)]
    rfl
  · cases hPlain
  · rename_i hSlash hBrace _ _
    refine ⟨Or.inr rfl, ?_⟩
    have hRun : ∀ d ∈ c :: cs.takeWhile isPlain, isPlain d = true := by
      intro d hd
      rcases List.mem_cons.mp hd with rfl | hRest
      · rw [isPlain, bne_iff_ne.mpr hSlash, bne_iff_ne.mpr hBrace]
        rfl
      · exact List.mem_takeWhile_imp hRest
    have hSpan := spanText_append_plain hRun (cs.dropWhile isPlain)
    rw [List.cons_append, List.takeWhile_append_dropWhile] at hSpan
    exact hSpan

end Coarse

/-! ## The loop -/

structure Scanner where
  pos : Nat := 0
  /-- Where plain text began that was not put out yet. -/
  textStart : Option Nat := none
  tokens : List Placed := []
  errors : List (Unclosed × Nat × Nat) := []

namespace Scanner

section Rounds

variable (source : List Char)

def flush? (stop : Nat) (s : Scanner) : Option Scanner :=
  match s.textStart with
  | none => some s
  | some start =>
    if start < stop then
      (slice? start stop source).map fun content =>
        { s with textStart := none, tokens := s.tokens ++ [⟨.text content, start, stop⟩] }
    else
      some { s with textStart := none }

def find? (mark : List Char) (start : Nat) : Option (Option Nat) :=
  (slice? start (byteLength source) source).map fun rest =>
    (Text.cut? mark rest).map fun parts => start + byteLength parts.1

def lineComment? (inner : Nat) (s : Scanner) : Option Scanner :=
  (find? source ['\n'] inner).map fun found =>
    { s with pos := found.getD (byteLength source) }

def blockComment? (start inner : Nat) (s : Scanner) : Option Scanner :=
  (find? source ['*', '/'] inner).map fun found =>
    match found with
    | some close => { s with pos := close + 2 }
    | none =>
      { s with pos := byteLength source, errors := s.errors ++ [(.comment, start, inner)] }

/-- Takes a command or a literal, which closes with as many braces as `width` says. -/
def braced? (make : List Char → Bool → Piece) (what : Unclosed) (width start inner : Nat)
    (s : Scanner) : Option Scanner :=
  (find? source (Piece.closeFence width) inner).bind fun found =>
    match found with
    | some close =>
      (slice? inner close source).map fun content =>
        { s with
          pos := close + width
          tokens := s.tokens ++ [⟨make content true, start, close + width⟩] }
    | none =>
      (slice? inner (byteLength source) source).map fun content =>
        { s with
          pos := byteLength source
          tokens := s.tokens ++ [⟨make content false, start, byteLength source⟩]
          errors := s.errors ++ [(what, start, inner)] }

/-- Reads coarse tokens from an offset on, up to the end of the first block among them. -/
def pass? (start : Nat) (cs : List Char) (s : Scanner) : Option Scanner :=
  match cs with
  | [] => some { s with pos := byteLength source }
  | c :: cs =>
    let stop := start + byteLength (Coarse.read c cs).2.1
    match (Coarse.read c cs).1 with
    | .lineComment => (s.flush? source start).bind (lineComment? source stop)
    | .blockComment => (s.flush? source start).bind (blockComment? source start stop)
    | .literal =>
      (s.flush? source start).bind
        (braced? source (.literal (stop - start)) (.literal (stop - start)) (stop - start) start
          stop)
    | .command => (s.flush? source start).bind (braced? source .command .command 1 start stop)
    | .slash | .text =>
      pass? stop (Coarse.read c cs).2.2 { s with textStart := some (s.textStart.getD start) }
termination_by cs.length
decreasing_by
  all_goals exact Coarse.length_read_lt c _

def round? (s : Scanner) : Option Scanner :=
  (slice? s.pos (byteLength source) source).bind fun rest => s.pass? source s.pos rest

end Rounds

/-! ### Progress -/

section Progress

variable {source : List Char} {s next : Scanner} {base start inner : Nat}

theorem le_of_find? {mark : List Char} {place : Nat}
    (hFound : find? source mark start = some (some place)) : start ≤ place := by
  obtain ⟨rest, -, hCut⟩ := Option.map_eq_some_iff.mp hFound
  obtain ⟨parts, -, rfl⟩ := Option.map_eq_some_iff.mp hCut
  exact Nat.le_add_right _ _

theorem lt_of_lineComment? (hNext : lineComment? source inner s = some next) (hInner : base < inner)
    (hMore : base < byteLength source) : base < next.pos := by
  obtain ⟨found, hFound, rfl⟩ := Option.map_eq_some_iff.mp hNext
  cases found with
  | none => exact hMore
  | some place => exact Nat.lt_of_lt_of_le hInner (le_of_find? hFound)

theorem lt_of_blockComment? (hNext : blockComment? source start inner s = some next)
    (hInner : base < inner) (hMore : base < byteLength source) : base < next.pos := by
  obtain ⟨found, hFound, rfl⟩ := Option.map_eq_some_iff.mp hNext
  cases found with
  | none => exact hMore
  | some place =>
    have hPlace := le_of_find? hFound
    change base < place + 2
    omega

theorem lt_of_braced? {make : List Char → Bool → Piece} {what : Unclosed} {width : Nat}
    (hNext : braced? source make what width start inner s = some next) (hInner : base < inner)
    (hMore : base < byteLength source) : base < next.pos := by
  obtain ⟨found, hFound, hTaken⟩ := Option.bind_eq_some_iff.mp hNext
  cases found with
  | none =>
    obtain ⟨content, -, rfl⟩ := Option.map_eq_some_iff.mp hTaken
    exact hMore
  | some place =>
    obtain ⟨content, -, rfl⟩ := Option.map_eq_some_iff.mp hTaken
    have hPlace := le_of_find? hFound
    change base < place + width
    omega

theorem lt_of_pass? {cs : List Char} (hPass : pass? source start cs s = some next)
    (hStart : base ≤ start) (hMore : base < byteLength source) : base < next.pos := by
  fun_induction pass? source start cs s with
  | case1 start s =>
    cases hPass
    exact hMore
  | case2 start s c cs stop hClass =>
    obtain ⟨flushed, -, hNext⟩ := Option.bind_eq_some_iff.mp hPass
    exact lt_of_lineComment? hNext (Nat.lt_of_le_of_lt hStart (Coarse.lt_stop start c cs)) hMore
  | case3 start s c cs stop hClass =>
    obtain ⟨flushed, -, hNext⟩ := Option.bind_eq_some_iff.mp hPass
    exact lt_of_blockComment? hNext (Nat.lt_of_le_of_lt hStart (Coarse.lt_stop start c cs)) hMore
  | case4 start s c cs stop hClass =>
    obtain ⟨flushed, -, hNext⟩ := Option.bind_eq_some_iff.mp hPass
    exact lt_of_braced? hNext (Nat.lt_of_le_of_lt hStart (Coarse.lt_stop start c cs)) hMore
  | case5 start s c cs stop hClass =>
    obtain ⟨flushed, -, hNext⟩ := Option.bind_eq_some_iff.mp hPass
    exact lt_of_braced? hNext (Nat.lt_of_le_of_lt hStart (Coarse.lt_stop start c cs)) hMore
  | case6 start s c cs stop hClass ih =>
    exact ih hPass (Nat.le_trans hStart (Nat.le_of_lt (Coarse.lt_stop start c cs)))
  | case7 start s c cs stop hClass ih =>
    exact ih hPass (Nat.le_trans hStart (Nat.le_of_lt (Coarse.lt_stop start c cs)))

theorem lt_of_round? (hRound : s.round? source = some next) (hMore : s.pos < byteLength source) :
    s.pos < next.pos := by
  obtain ⟨rest, -, hPass⟩ := Option.bind_eq_some_iff.mp hRound
  exact lt_of_pass? hPass (Nat.le_refl _) hMore

end Progress

/-- The rounds up to the end of the source, and the plain text left over there. -/
def run? (source : List Char) (s : Scanner) : Option Scanner :=
  if hMore : s.pos < byteLength source then
    match hRound : s.round? source with
    | some next =>
      have : s.pos < next.pos := lt_of_round? hRound hMore
      run? source next
    | none => none
  else
    s.flush? source (byteLength source)
termination_by byteLength source - s.pos

/-! ## Pieces behind each other -/

def put (s : Scanner) (x : Placed) : Scanner :=
  { s with
    tokens := s.tokens ++ [x].filter fun x => !x.piece.isComment
    errors := s.errors ++ x.unclosed?.toList }

def take (done : List Char) (piece : Piece) (s : Scanner) : Scanner :=
  { s.put ⟨piece, byteLength done, byteLength (done ++ piece.render)⟩ with
    pos := byteLength (done ++ piece.render) }

theorem find?_append (done rest mark : List Char) :
    find? (done ++ rest) mark (byteLength done) =
      some ((Text.cut? mark rest).map fun parts => byteLength done + byteLength parts.1) := by
  have hRest := LineTable.slice?_append done rest []
  rw [List.append_nil] at hRest
  rw [find?, hRest, Option.map_some]

theorem put_of_token {x : Placed} (hToken : x.piece.isComment = false) (s : Scanner) :
    s.put x = { s with tokens := s.tokens ++ [x], errors := s.errors ++ x.unclosed?.toList } := by
  simp [put, hToken]

theorem put_of_comment {x : Placed} (hComment : x.piece.isComment = true) (s : Scanner) :
    s.put x = { s with errors := s.errors ++ x.unclosed?.toList } := by
  simp [put, hComment]

theorem lineComment?_append (done cs : List Char) (s : Scanner) :
    lineComment? (done ++ ['/', '/'] ++ cs) (byteLength (done ++ ['/', '/'])) s =
      some (s.take done (.lineComment (cs.takeWhile Piece.isNotLineEnd))) := by
  obtain ⟨hSpelled, hBody, hStops⟩ := Piece.first_lineComment cs
  generalize cs.takeWhile Piece.isNotLineEnd = body at *
  generalize cs.dropWhile Piece.isNotLineEnd = rest at *
  obtain rfl : body ++ rest = cs := by simpa [Piece.render] using hSpelled
  have hStop : byteLength (done ++ (Piece.lineComment body).render) =
      byteLength (done ++ ['/', '/']) + byteLength body := by
    rw [← Text.byteLength_append, List.append_assoc]
    rfl
  rw [lineComment?, find?_append, Option.map_some, take, put_of_comment rfl, hStop]
  rcases hStops with rfl | hHead
  · have hInfix : ¬ ['\n'] <:+: body := by
      rw [List.singleton_infix_iff]
      exact hBody
    rw [List.append_nil, Text.cut?_eq_none_iff.mpr hInfix, Text.byteLength_append _ body]
    simp [Placed.unclosed?]
  · obtain ⟨rest, rfl⟩ := List.head?_eq_some_iff.mp hHead
    rw [List.append_cons body, Text.cut?_append (Text.endsAt_singleton_iff.mpr hBody)]
    simp [Placed.unclosed?]

theorem blockComment?_append (done cs : List Char) (s : Scanner) :
    blockComment? (done ++ ['/', '*'] ++ cs) (byteLength done) (byteLength (done ++ ['/', '*'])) s =
      some (s.take done (Piece.closeAt ['*', '/'] .blockComment cs).1) := by
  have hOpening : byteLength (done ++ ['/', '*']) = byteLength done + 2 :=
    Text.byteLength_append done ['/', '*']
  rw [blockComment?, find?_append, Option.map_some, take]
  rcases Piece.closeAt_cases ['*', '/'] cs .blockComment with
    ⟨body, rest, hClose, rfl, hEnds⟩ | ⟨hClose, hInfix⟩
  · have hStop : byteLength (done ++ (Piece.blockComment body true).render) =
        byteLength (done ++ ['/', '*']) + byteLength body + 2 := by
      change byteLength (done ++ (['/', '*'] ++ body ++ ['*', '/'])) = _
      rw [← List.append_assoc, ← List.append_assoc, Text.byteLength_append, Text.byteLength_append]
      rfl
    rw [hClose, Text.cut?_append hEnds, put_of_comment rfl, hStop]
    simp [Placed.unclosed?]
  · have hStop : byteLength (done ++ (Piece.blockComment cs false).render) =
        byteLength (done ++ ['/', '*'] ++ cs) := by
      simp [Piece.render]
    rw [hClose, Text.cut?_eq_none_iff.mpr hInfix, put_of_comment rfl, hStop, hOpening]
    rfl

/-- What is reported when a piece behind one brace and `more` further ones is not closed. -/
def unclosedFence (more : Nat) : Unclosed :=
  if more = 0 then .command else .literal (more + 1)

theorem unclosed?_fenced (more : Nat) (body : List Char) (closed : Bool) (start stop : Nat) :
    Placed.unclosed? ⟨Piece.fenced more body closed, start, stop⟩ =
      if closed then none else some (unclosedFence more, start, start + (more + 1)) := by
  cases more <;> cases closed <;> rfl

theorem isComment_fenced (more : Nat) (body : List Char) (closed : Bool) :
    (Piece.fenced more body closed).isComment = false := by
  cases more <;> rfl

theorem byteLength_fenced (more : Nat) (done body : List Char) (closed : Bool) :
    byteLength (done ++ (Piece.fenced more body closed).render) =
      byteLength (done ++ Piece.openFence (more + 1)) + byteLength body +
        if closed then more + 1 else 0 := by
  have hRender : (Piece.fenced more body closed).render =
      Piece.openFence (more + 1) ++ body ++ if closed then Piece.closeFence (more + 1) else [] :=
    Piece.render_fenced more body closed
  rw [hRender, ← List.append_assoc, ← List.append_assoc, Text.byteLength_append,
    Text.byteLength_append]
  cases closed with
  | true => rw [if_pos rfl, if_pos rfl, Piece.closeFence, Text.byteLength_replicate rfl]
  | false => rfl

theorem braced?_append (more : Nat) (done cs : List Char) (s : Scanner) :
    braced? (done ++ Piece.openFence (more + 1) ++ cs) (Piece.fenced more) (unclosedFence more)
        (more + 1) (byteLength done) (byteLength (done ++ Piece.openFence (more + 1))) s =
      some (s.take done
        (Piece.closeAt (Piece.closeFence (more + 1)) (Piece.fenced more) cs).1) := by
  have hOpening : byteLength (done ++ Piece.openFence (more + 1)) =
      byteLength done + (more + 1) := by
    rw [Text.byteLength_append, Piece.openFence, Text.byteLength_replicate rfl]
  rw [braced?, find?_append, Option.bind_some, take]
  rcases Piece.closeAt_cases (Piece.closeFence (more + 1)) cs (Piece.fenced more) with
    ⟨body, rest, hClose, rfl, hEnds⟩ | ⟨hClose, hInfix⟩
  · have hSlice := LineTable.slice?_append (done ++ Piece.openFence (more + 1)) body
      (Piece.closeFence (more + 1) ++ rest)
    rw [Text.byteLength_append _ body, List.append_assoc _ body, ← List.append_assoc body] at hSlice
    rw [hClose, Text.cut?_append hEnds, Option.map_some, put_of_token (isComment_fenced _ _ _),
      unclosed?_fenced, byteLength_fenced]
    simp only [hSlice]
    simp
  · have hSlice := LineTable.slice?_append (done ++ Piece.openFence (more + 1)) cs []
    rw [List.append_nil, Text.byteLength_append _ cs, hOpening] at hSlice
    rw [hClose, Text.cut?_eq_none_iff.mpr hInfix, Option.map_none,
      put_of_token (isComment_fenced _ _ _), unclosed?_fenced, byteLength_fenced]
    simp only [Text.byteLength_append _ cs, hOpening, hSlice]
    rfl

/-! ## Rounds -/

theorem pass?_block {done cs : List Char} {c : Char} (hBlock : Piece.startsBlock (c :: cs) = true)
    (s : Scanner) :
    pass? (done ++ c :: cs) (byteLength done) (c :: cs) s =
      (s.flush? (done ++ c :: cs) (byteLength done)).bind fun s =>
        some (s.take done (Piece.next c cs).1) := by
  rcases (Piece.startsBlock_cons_iff c cs).mp hBlock with rfl | ⟨rfl, hHead | hHead⟩
  · obtain ⟨more, tail, rfl, hTail⟩ := Piece.exists_openFence cs
    have hSource : done ++ '\x7b' :: (Piece.openFence more ++ tail) =
        done ++ Piece.openFence (more + 1) ++ tail := by
      rw [List.append_assoc]
      rfl
    have hWidth : byteLength done + byteLength (Piece.openFence (more + 1)) - byteLength done =
        more + 1 := by
      rw [Piece.openFence, Text.byteLength_replicate rfl]
      omega
    have hNext : Piece.next '\x7b' (Piece.openFence more ++ tail) = _ :=
      Piece.braced_append more hTail
    rw [pass?, Coarse.read_openFence more hTail, hNext, hSource]
    cases more with
    | zero =>
      refine congrArg (Option.bind _) (funext fun s => ?_)
      exact (Text.byteLength_append done _) ▸ braced?_append 0 done tail s
    | succ more =>
      simp only [hWidth]
      refine congrArg (Option.bind _) (funext fun s => ?_)
      exact (Text.byteLength_append done _) ▸ braced?_append (more + 1) done tail s
  · obtain ⟨tail, rfl⟩ := List.head?_eq_some_iff.mp hHead
    have hSource : done ++ '/' :: '/' :: tail = done ++ ['/', '/'] ++ tail := by simp
    rw [pass?, hSource]
    refine congrArg (Option.bind _) (funext fun s => ?_)
    exact (Text.byteLength_append done _) ▸ lineComment?_append done tail s
  · obtain ⟨tail, rfl⟩ := List.head?_eq_some_iff.mp hHead
    have hSource : done ++ '/' :: '*' :: tail = done ++ ['/', '*'] ++ tail := by simp
    rw [pass?, hSource]
    refine congrArg (Option.bind _) (funext fun s => ?_)
    exact (Text.byteLength_append done _) ▸ blockComment?_append done tail s

/-! ### Plain text -/

/-- The scanner behind plain text that began at an offset. -/
def opened (start : Nat) (plain : List Char) (s : Scanner) : Scanner :=
  if plain = [] then s else { s with textStart := some (s.textStart.getD start) }

theorem pass?_plain (source : List Char) (start : Nat) (cs : List Char) (s : Scanner) :
    pass? source start cs s =
      pass? source (start + byteLength (Piece.spanText cs).1) (Piece.spanText cs).2
        (s.opened start (Piece.spanText cs).1) := by
  induction hLength : cs.length using Nat.strongRecOn generalizing cs start s with
  | ind n ih =>
    cases cs with
    | nil => rfl
    | cons c cs =>
      cases hBlock : Piece.startsBlock (c :: cs) with
      | true =>
        rw [Piece.spanText, if_pos hBlock]
        rfl
      | false =>
        obtain ⟨hClass, hSpan⟩ := Coarse.read_of_plain hBlock
        obtain ⟨hTaken, -⟩ := Coarse.read_spec c cs
        have hShorter := Coarse.length_read_lt c cs
        rw [hLength] at hShorter
        have hStep : pass? source start (c :: cs) s =
            pass? source (start + byteLength (Coarse.read c cs).2.1) (Coarse.read c cs).2.2
              { s with textStart := some (s.textStart.getD start) } := by
          rw [pass?]
          rcases hClass with hSlash | hText
          · simp only [hSlash]
          · simp only [hText]
        rw [hStep, ih _ hShorter _ _ _ rfl, hSpan, Text.byteLength_append, Nat.add_assoc]
        simp [opened, hTaken]

def plainPieces (plain : List Char) : List Piece :=
  if plain = [] then [] else [.text plain]

theorem scan_eq_plainPieces (cs : List Char) :
    Piece.scan cs = plainPieces (Piece.spanText cs).1 ++ Piece.scan (Piece.spanText cs).2 := by
  cases cs with
  | nil => rfl
  | cons c cs =>
    cases hBlock : Piece.startsBlock (c :: cs) with
    | true =>
      rw [Piece.spanText, if_pos hBlock]
      rfl
    | false =>
      rw [Piece.scan, Piece.next_of_plain hBlock, plainPieces, if_neg]
      · rfl
      · rw [Piece.spanText, if_neg (by rw [hBlock]; exact Bool.false_ne_true)]
        exact List.cons_ne_nil _ _

theorem flush?_opened (done plain rest : List Char) {s : Scanner} (hNone : s.textStart = none) :
    flush? (done ++ plain ++ rest) (byteLength (done ++ plain)) (s.opened (byteLength done) plain) =
      some ((Placed.row (byteLength done) (plainPieces plain)).foldl put s) := by
  by_cases hPlain : plain = []
  · subst hPlain
    simp [opened, flush?, plainPieces, Placed.row, hNone]
  · have hSlice := LineTable.slice?_append done plain rest
    have hBytes := Text.length_le_byteLength plain
    have hSome := List.length_pos_of_ne_nil hPlain
    have hLess : byteLength done < byteLength (done ++ plain) := by
      rw [Text.byteLength_append]
      omega
    obtain ⟨pos, textStart, tokens, errors⟩ := s
    cases hNone
    simp only [opened, if_neg hPlain, flush?, Option.getD_none, if_pos hLess, hSlice, plainPieces]
    simp [Placed.row, put, Piece.isComment, Placed.unclosed?, Piece.render]

/-! ## The whole source -/

theorem round?_append {done rest : List Char} {s : Scanner} (hPos : s.pos = byteLength done) :
    s.round? (done ++ rest) = s.pass? (done ++ rest) (byteLength done) rest := by
  have hRest := LineTable.slice?_append done rest []
  rw [List.append_nil] at hRest
  rw [round?, hPos, hRest, Option.bind_some]

theorem run?_of_round? {source : List Char} {s next : Scanner} (hMore : s.pos < byteLength source)
    (hRound : s.round? source = some next) : run? source s = run? source next := by
  rw [run?, dif_pos hMore]
  split
  · rename_i hSame
    cases hSame.symm.trans hRound
    rfl
  · rename_i hSame
    cases hSame.symm.trans hRound

theorem run?_at_end {source : List Char} {s : Scanner} (hEnd : s.pos = byteLength source) :
    run? source s = s.flush? source (byteLength source) := by
  rw [run?, dif_neg (by rw [hEnd]; exact Nat.lt_irrefl _)]

theorem foldl_put (xs : List Placed) (s : Scanner) :
    xs.foldl put s =
      { s with
        tokens := s.tokens ++ xs.filter fun x => !x.piece.isComment
        errors := s.errors ++ xs.filterMap Placed.unclosed? } := by
  induction xs generalizing s with
  | nil => simp
  | cons x xs ih =>
    rw [List.foldl_cons, ih, put, List.append_assoc, List.append_assoc, ← List.filter_append]
    cases hOpen : x.unclosed? <;> simp [hOpen]

/-- A round that finds a block behind the plain text. -/
theorem round?_block {done plain cs : List Char} {c : Char} {s : Scanner}
    (hPos : s.pos = byteLength done) (hNone : s.textStart = none)
    (hSpan : Piece.spanText (plain ++ c :: cs) = (plain, c :: cs))
    (hBlock : Piece.startsBlock (c :: cs) = true) :
    s.round? (done ++ plain ++ c :: cs) =
      some (((Placed.row (byteLength done) (plainPieces plain)).foldl put s).take (done ++ plain)
        (Piece.next c cs).1) := by
  rw [List.append_assoc, round?_append hPos, pass?_plain, hSpan, ← Text.byteLength_append,
    ← List.append_assoc, pass?_block hBlock, flush?_opened done plain _ hNone, Option.bind_some]

/-- A round that finds nothing but plain text. -/
theorem round?_plain {done plain : List Char} {s : Scanner} (hPos : s.pos = byteLength done)
    (hSpan : Piece.spanText plain = (plain, [])) :
    s.round? (done ++ plain) =
      some { s.opened (byteLength done) plain with pos := byteLength (done ++ plain) } := by
  rw [round?_append hPos, pass?_plain, hSpan, pass?]

theorem opened_at (start place : Nat) (plain : List Char) (s : Scanner) :
    { s.opened start plain with pos := place } = opened start plain { s with pos := place } := by
  unfold opened
  split <;> rfl

/-- The pieces of a text with a block behind plain text, in their places. -/
theorem row_scan_block (done : List Char) {plain cs : List Char} {c : Char}
    (hSpan : Piece.spanText (plain ++ c :: cs) = (plain, c :: cs)) :
    Placed.row (byteLength done) (Piece.scan (plain ++ c :: cs)) =
      Placed.row (byteLength done) (plainPieces plain) ++
        ⟨(Piece.next c cs).1, byteLength (done ++ plain),
            byteLength (done ++ plain ++ (Piece.next c cs).1.render)⟩ ::
          Placed.row (byteLength (done ++ plain ++ (Piece.next c cs).1.render))
            (Piece.scan (Piece.next c cs).2) := by
  have hRender : (plainPieces plain).flatMap Piece.render = plain := by
    unfold plainPieces
    split
    · rename_i hNil
      rw [hNil]
      rfl
    · simp [Piece.render]
  rw [scan_eq_plainPieces, hSpan, Piece.scan, Placed.row_append, hRender, Placed.row,
    ← Text.byteLength_append, ← Text.byteLength_append]

/-- From any offset between two pieces, the loop puts out the pieces of the rest of the source. -/
theorem run?_append (done rest : List Char) {s : Scanner} (hPos : s.pos = byteLength done)
    (hNone : s.textStart = none) :
    run? (done ++ rest) s =
      some { (Placed.row (byteLength done) (Piece.scan rest)).foldl put s with
        pos := byteLength (done ++ rest) } := by
  -- a round may take two pieces, plain text and a block behind it: no induction on pieces will do
  induction hLength : rest.length using Nat.strongRecOn generalizing done rest s with
  | ind n ih =>
    by_cases hRest : rest = []
    · subst hRest
      rw [List.append_nil, run?_at_end hPos, flush?, hNone, Piece.scan, ← hPos]
      rfl
    · have hMore : s.pos < byteLength (done ++ rest) := by
        have hBytes := Text.length_le_byteLength rest
        have hSome := List.length_pos_of_ne_nil hRest
        rw [hPos, Text.byteLength_append]
        omega
      obtain ⟨hSpelled, -, hStop⟩ := Piece.spanText_spec rest
      have hSpan : Piece.spanText rest = ((Piece.spanText rest).1, (Piece.spanText rest).2) := rfl
      generalize (Piece.spanText rest).1 = plain at *
      generalize (Piece.spanText rest).2 = tail at *
      subst hSpelled
      cases tail with
      | nil =>
        rw [List.append_nil] at hMore hSpan ⊢
        have hFlush := flush?_opened done plain []
          (s := { s with pos := byteLength (done ++ plain) }) hNone
        rw [List.append_nil] at hFlush
        rw [run?_of_round? hMore (round?_plain hPos hSpan), run?_at_end rfl, opened_at, hFlush,
          scan_eq_plainPieces, hSpan, Piece.scan, List.append_nil, foldl_put, foldl_put]
      | cons c cs =>
        have hBlock := hStop.resolve_left (List.cons_ne_nil _ _)
        have hSource : done ++ plain ++ c :: cs =
            done ++ plain ++ (Piece.next c cs).1.render ++ (Piece.next c cs).2 := by
          rw [List.append_assoc _ _ (Piece.next c cs).2, (Piece.first_next c cs).spelled]
        have hShorter : (Piece.next c cs).2.length < n := by
          have hNext := Piece.length_next_snd c cs
          rw [← hLength, List.length_append, List.length_cons]
          omega
        have hRound := round?_block hPos hNone hSpan hBlock
        rw [← List.append_assoc] at hMore ⊢
        rw [run?_of_round? hMore hRound, hSource, ih _ hShorter _ _ rfl ?_ rfl,
          row_scan_block done hSpan,
          List.foldl_append, List.foldl_cons, take, foldl_put _ (put _ _), foldl_put]
        rw [take, put, foldl_put]
        exact hNone

end Scanner

/-- The loop finds the tokens and the errors of a source, each with the bytes it takes. -/
theorem Scanner.exists_run? (source : String) : ∃ s, run? source.toList {} = some s ∧
    s.tokens = (tokenize source).map Token.placed ∧
    s.errors = (syntaxErrors source).map SyntaxError.extent := by
  have hRun := run?_append [] source.toList (s := {}) rfl rfl
  rw [foldl_put] at hRun
  exact ⟨_, hRun, (map_placed_tokenize source).symm, (map_extent_syntaxErrors source).symm⟩

end BraceDoc
