import BraceDoc.Proofs.Markup.Token
import BraceDoc.Proofs.Source.LineTable
import BraceDoc.Markup.Document

/-!
# Spans of nodes and errors

The span of a node holds the bytes that the node was read from, and the span of an error those of
the opening delimiter; their ends are the positions reached by advancing over the text before them.
The nodes are also found by replaying the text from token to token, with nothing known of a token
but its kind and its two offsets, and the spans of errors by a line table.
-/

set_option autoImplicit false

namespace BraceDoc

/-! ## Exact spans -/

/-- The position is the one behind the text before its offset. -/
def Position.Reached (p : Position) (source : String) : Prop :=
  ∃ before after : String, source = before ++ after ∧ before.utf8ByteSize = p.offset ∧
    p = Position.first.advance before.toList

structure Span.Exact (span : Span) (source text : String) : Prop where
  bytes : source.toUTF8.extract span.start.offset span.stop.offset = text.toUTF8
  start : span.start.Reached source
  stop : span.stop.Reached source

theorem Position.reached_advance {source : String} {before after : List Char}
    (hSource : source.toList = before ++ after) : (first.advance before).Reached source := by
  refine ⟨String.ofList before, String.ofList after, ?_, ?_, ?_⟩
  · rw [← String.ofList_append, ← hSource, String.ofList_toList]
  · rw [Text.byteLength_ofList, offset_advance_first]
  · rw [String.toList_ofList]

theorem Position.Reached.offset_lt {p : Position} {source : String} (hReached : p.Reached source)
    (hSize : source.utf8ByteSize < UInt32.size) : p.offset < UInt32.size := by
  obtain ⟨before, after, rfl, hOffset, -⟩ := hReached
  rw [String.utf8ByteSize_append] at hSize
  omega

theorem Position.Reached.exists_counts {p : Position} {source : String}
    (hReached : p.Reached source) (hFits : p.offset + 1 < UInt32.size) :
    ∃ before after : String, source = before ++ after ∧ before.utf8ByteSize = p.offset ∧
      p.Counts before.toList := by
  obtain ⟨before, after, hSource, hOffset, hPosition⟩ := hReached
  refine ⟨before, after, hSource, hOffset, ?_⟩
  rw [hPosition]
  exact counts_advance (by rwa [Text.byteLength_toList, hOffset])

theorem extract_toUTF8 (before text after : String) :
    (before ++ text ++ after).toUTF8.extract before.utf8ByteSize
      (before.utf8ByteSize + text.utf8ByteSize) = text.toUTF8 := by
  have hBehind := ByteArray.extract_append_size_add (a := before.toByteArray)
    (b := text.toByteArray ++ after.toByteArray) (i := 0) (j := text.toByteArray.size)
  rw [Nat.add_zero, ByteArray.extract_append_eq_left rfl, ← ByteArray.append_assoc] at hBehind
  simpa only [String.toUTF8_eq_toByteArray, String.toByteArray_append, String.size_toByteArray]
    using hBehind

theorem Span.exact_of_split {source : String} {before text after : List Char}
    (hSource : source.toList = before ++ text ++ after) :
    Span.Exact ⟨Position.first.advance before, Position.first.advance (before ++ text)⟩ source
      (String.ofList text) := by
  have hBytes := extract_toUTF8 (String.ofList before) (String.ofList text) (String.ofList after)
  rw [← String.ofList_append, ← String.ofList_append, ← hSource, String.ofList_toList,
    Text.byteLength_ofList, Text.byteLength_ofList, ← Text.byteLength_append] at hBytes
  refine ⟨?_, ?_, Position.reached_advance hSource⟩
  · rw [Position.offset_advance_first, Position.offset_advance_first]
    exact hBytes
  · exact Position.reached_advance (hSource.trans (List.append_assoc _ _ _))

/-! ## Located pieces -/

namespace Piece

/-- Where a located piece stands in the text `before` with the pieces behind it. -/
theorem split_of_mem_locate {pieces : List Piece} {before : List Char} {l : Located}
    (hMem : l ∈ locate (Position.first.advance before) pieces) :
    ∃ front back, before ++ pieces.flatMap render = front ++ l.piece.render ++ back ∧
      l.span = ⟨Position.first.advance front,
        Position.first.advance (front ++ l.piece.render)⟩ := by
  induction pieces generalizing before with
  | nil => cases hMem
  | cons piece pieces ih =>
    rw [locate, ← Position.advance_append] at hMem
    rw [List.flatMap_cons, ← List.append_assoc]
    rcases List.mem_cons.mp hMem with rfl | hRest
    · exact ⟨before, _, rfl, rfl⟩
    · exact ih hRest

theorem offset_le_of_mem_locate {pieces : List Piece} {p : Position} {l : Located}
    (hMem : l ∈ locate p pieces) : p.offset ≤ l.span.start.offset := by
  induction pieces generalizing p with
  | nil => cases hMem
  | cons piece pieces ih =>
    rw [locate] at hMem
    rcases List.mem_cons.mp hMem with rfl | hRest
    · exact Nat.le_refl _
    · have hLe := ih hRest
      rw [Position.offset_advance] at hLe
      omega

theorem pairwise_locate (p : Position) (pieces : List Piece) :
    (locate p pieces).Pairwise fun a b => a.span.stop.offset ≤ b.span.start.offset := by
  induction pieces generalizing p with
  | nil => exact .nil
  | cons piece pieces ih => exact .cons (fun l hl => offset_le_of_mem_locate hl) (ih _)

end Piece

theorem split_of_mem_locatedPieces {source : String} {l : Located}
    (hMem : l ∈ locatedPieces source) :
    ∃ front back, source.toList = front ++ l.piece.render ++ back ∧
      l.span = ⟨Position.first.advance front,
        Position.first.advance (front ++ l.piece.render)⟩ := by
  rw [← (Piece.divides_scan source.toList).spelled]
  rw [locatedPieces, ← Position.advance_nil Position.first] at hMem
  exact Piece.split_of_mem_locate hMem

/-! ## Nodes -/

def Node.token : Node → Token
  | .text value span => ⟨.text value, span⟩
  | .command content _ span closed => ⟨.command content closed, span⟩
  | .literal width content _ span closed => ⟨.literal width content closed, span⟩

def Lexeme.node (raw : String) (span : Span) : Lexeme → Node
  | .text content => .text content span
  | .command inner closed => .command inner raw span closed
  | .literal width content closed => .literal width content raw span closed

namespace Located

theorem map_token_ofLocated? (l : Located) : (Node.ofLocated? l).map Node.token = l.token? := by
  obtain ⟨piece, span⟩ := l
  cases piece <;> rfl

theorem ofLocated?_eq (l : Located) :
    Node.ofLocated? l =
      l.token?.map fun t => t.lexeme.node (String.ofList l.piece.render) l.span := by
  obtain ⟨piece, span⟩ := l
  cases piece <;> rfl

theorem span_and_raw_of_node {l : Located} {node : Node} (hNode : Node.ofLocated? l = some node) :
    node.span = l.span ∧ node.raw = String.ofList l.piece.render := by
  obtain ⟨piece, span⟩ := l
  cases piece <;> cases hNode <;> exact ⟨rfl, rfl⟩

theorem span_of_token {l : Located} {t : Token} (hToken : l.token? = some t) : t.span = l.span := by
  obtain ⟨lexeme, -, rfl⟩ := Option.map_eq_some_iff.mp hToken
  rfl

end Located

/-! ## Replay -/

/-- Reads the tokens again from their offsets: the text between the cursor and a token is
skipped, and the cursor moves over it and over the token. Also gives the position at the end of
the source. -/
def replay? (source : List Char) (cursor : Position) : List Token → Option (List Node × Position)
  | [] =>
    (LineTable.slice? cursor.offset (Text.byteLength source) source).map fun rest =>
      ([], cursor.advance rest)
  | t :: tokens =>
    (LineTable.slice? cursor.offset t.span.start.offset source).bind fun skipped =>
      (LineTable.slice? t.span.start.offset t.span.stop.offset source).bind fun raw =>
        let start := cursor.advance skipped
        let stop := start.advance raw
        (replay? source stop tokens).map fun found =>
          (t.lexeme.node (String.ofList raw) ⟨start, stop⟩ :: found.1, found.2)

/-- One step of the replay, with the text already read, the skipped text and the text of the
token. -/
theorem replay?_cons {source : List Char} {done skipped raw after : List Char} {t : Token}
    (hSource : source = done ++ skipped ++ raw ++ after)
    (hSpan : t.span = ⟨Position.first.advance (done ++ skipped),
      Position.first.advance (done ++ skipped ++ raw)⟩) (tokens : List Token) :
    replay? source (Position.first.advance done) (t :: tokens) =
      (replay? source (Position.first.advance (done ++ skipped ++ raw)) tokens).map fun found =>
        (t.lexeme.node (String.ofList raw) t.span :: found.1, found.2) := by
  have hSkipped := LineTable.slice?_append done skipped (raw ++ after)
  have hRaw := LineTable.slice?_append (done ++ skipped) raw after
  rw [← List.append_assoc, ← hSource] at hSkipped
  rw [← hSource] at hRaw
  rw [replay?, hSpan, Position.offset_advance_first, Position.offset_advance_first,
    Position.offset_advance_first, hSkipped, Option.bind_some, hRaw, Option.bind_some,
    Position.advance_append _ (done ++ skipped) raw, Position.advance_append _ done skipped]

theorem replay?_locate {source : List Char} (pieces : List Piece) (done skipped : List Char)
    (hSource : source = done ++ skipped ++ pieces.flatMap Piece.render) :
    let located := Piece.locate (Position.first.advance (done ++ skipped)) pieces
    replay? source (Position.first.advance done) (located.filterMap Located.token?) =
      some (located.filterMap Node.ofLocated?, Position.first.advance source) := by
  -- the cursor stands behind the last token; the comments from there on are `skipped`
  induction pieces generalizing done skipped with
  | nil =>
    have hRest := LineTable.slice?_append done skipped []
    simp only [List.append_nil, List.flatMap_nil] at hRest hSource
    rw [← hSource] at hRest
    simp only [Piece.locate, List.filterMap_nil]
    rw [replay?, Position.offset_advance_first, hRest, Option.map_some, ← Position.advance_append,
      ← hSource]
  | cons piece pieces ih =>
    rw [List.flatMap_cons, ← List.append_assoc] at hSource
    simp only [Piece.locate, ← Position.advance_append]
    have hNode := Located.ofLocated?_eq ⟨piece, Position.first.advance (done ++ skipped),
      Position.first.advance (done ++ skipped ++ piece.render)⟩
    cases hToken : Located.token? ⟨piece, Position.first.advance (done ++ skipped),
        Position.first.advance (done ++ skipped ++ piece.render)⟩ with
    | none =>
      rw [hToken, Option.map_none] at hNode
      rw [List.filterMap_cons_none hToken, List.filterMap_cons_none hNode]
      rw [List.append_assoc done] at hSource ⊢
      exact ih done (skipped ++ piece.render) hSource
    | some t =>
      have hSpan := Located.span_of_token hToken
      have hRest := ih (done ++ skipped ++ piece.render) [] (by rw [List.append_nil, hSource])
      rw [List.append_nil] at hRest
      rw [hToken, Option.map_some, ← hSpan] at hNode
      rw [List.filterMap_cons_some hToken, List.filterMap_cons_some hNode,
        replay?_cons hSource hSpan, hRest, Option.map_some]

/-! ## Errors -/

def Unclosed.opening : Unclosed → List Char
  | .command => Piece.openFence 1
  | .literal width => Piece.openFence width
  | .comment => ['/', '*']

theorem Piece.take_opening {p : Piece} {what : Unclosed} {width : Nat}
    (hOpen : p.unclosed? = some (what, width)) :
    p.render.take width = what.opening := by
  cases p with
  | text content => cases hOpen
  | command inner closed =>
    cases closed with
    | true => cases hOpen
    | false =>
      cases hOpen
      rfl
  | literal fence content closed =>
    cases closed with
    | true => cases hOpen
    | false =>
      cases hOpen
      rw [Piece.render, List.append_assoc]
      exact List.take_left' List.length_replicate
  | lineComment body => cases hOpen
  | blockComment body closed =>
    cases closed with
    | true => cases hOpen
    | false =>
      cases hOpen
      rfl

theorem Located.split_of_error {l : Located} {e : SyntaxError} {front : List Char}
    (hError : l.error? = some e) (hStart : l.span.start = Position.first.advance front) :
    ∃ rest, l.piece.render = e.what.opening ++ rest ∧
      e.span = ⟨Position.first.advance front,
        Position.first.advance (front ++ e.what.opening)⟩ := by
  obtain ⟨⟨what, width⟩, hOpen, rfl⟩ := Option.map_eq_some_iff.mp hError
  have hOpening := Piece.take_opening hOpen
  refine ⟨l.piece.render.drop width, ?_, ?_⟩
  · rw [← hOpening, List.take_append_drop]
  · rw [Position.advance_append, ← hOpening, hStart]

theorem exact_of_mem_syntaxErrors {source : String} {e : SyntaxError}
    (hMem : e ∈ syntaxErrors source) :
    e.span.Exact source (String.ofList e.what.opening) ∧
      e.span = (LineTable.ofText source.toList).span e.span.start.offset e.span.stop.offset := by
  obtain ⟨l, hLocated, hError⟩ := List.mem_filterMap.mp hMem
  obtain ⟨front, back, hSource, hSpan⟩ := split_of_mem_locatedPieces hLocated
  obtain ⟨rest, hRender, hErrorSpan⟩ := Located.split_of_error hError (congrArg Span.start hSpan)
  rw [hRender, ← List.append_assoc, List.append_assoc (front ++ e.what.opening)] at hSource
  have hTable := LineTable.span_append front e.what.opening (rest ++ back)
  rw [← hSource, ← Text.byteLength_append] at hTable
  rw [hErrorSpan, Position.offset_advance_first, Position.offset_advance_first, hTable]
  exact ⟨Span.exact_of_split hSource, rfl⟩

/-! ## Documents -/

namespace Parsed

structure Exact (parsed : Parsed) (source : String) : Prop where
  tokens : parsed.document.nodes.map Node.token = tokenize source
  nodes : ∀ node ∈ parsed.document.nodes, node.span.Exact source node.raw
  apart : parsed.document.nodes.Pairwise fun a b => a.span.stop.offset ≤ b.span.start.offset
  whole : parsed.document.span = ⟨Position.first, Position.first.advance source.toList⟩
  replayed : replay? source.toList Position.first (tokenize source) =
    some (parsed.document.nodes, parsed.document.span.stop)
  errors : ∀ e ∈ parsed.errors, e.span.Exact source (String.ofList e.what.opening) ∧
    e.span = (LineTable.ofText source.toList).span e.span.start.offset e.span.stop.offset

end Parsed

namespace Document

theorem map_token_parse (source fileName : String) :
    (parse source fileName).document.nodes.map Node.token = tokenize source := by
  rw [parse, tokenize, List.map_filterMap]
  exact List.filterMap_congr fun l _ => Located.map_token_ofLocated? l

theorem exact_of_mem_parse {source fileName : String} {node : Node}
    (hMem : node ∈ (parse source fileName).document.nodes) : node.span.Exact source node.raw := by
  obtain ⟨l, hLocated, hNode⟩ := List.mem_filterMap.mp hMem
  obtain ⟨front, back, hSource, hSpan⟩ := split_of_mem_locatedPieces hLocated
  obtain ⟨hNodeSpan, hRaw⟩ := Located.span_and_raw_of_node hNode
  rw [hNodeSpan, hRaw, hSpan]
  exact Span.exact_of_split hSource

theorem pairwise_parse (source fileName : String) :
    (parse source fileName).document.nodes.Pairwise fun a b =>
      a.span.stop.offset ≤ b.span.start.offset := by
  refine List.pairwise_filterMap.mpr ((Piece.pairwise_locate _ _).imp ?_)
  intro a b hLe node hNode other hOther
  rw [(Located.span_and_raw_of_node hNode).1, (Located.span_and_raw_of_node hOther).1]
  exact hLe

theorem replay?_tokenize (source fileName : String) :
    replay? source.toList Position.first (tokenize source) =
      some ((parse source fileName).document.nodes, (parse source fileName).document.span.stop) :=
  replay?_locate (Piece.scan source.toList) [] [] (Piece.divides_scan source.toList).spelled.symm

/-- The nodes are the tokens in their order, each with the bytes of its span; no two spans overlap,
and every end of a span is the position behind the text before it. Replaying the source from token
to token finds the same nodes, a line table the same errors. Below four gigabytes all offsets fit 32
bits; lines and columns are the true numbers at all of them but the last that 32 bits can tell,
where they may have gone on from zero. -/
theorem exact_parse (source fileName : String) (hSize : source.utf8ByteSize < UInt32.size) :
    (parse source fileName).Exact source ∧
      ∀ p : Position, p.Reached source → p.offset < UInt32.size ∧
        (p.offset + 1 < UInt32.size →
          ∃ before after : String, source = before ++ after ∧ before.utf8ByteSize = p.offset ∧
            p.Counts before.toList) where
  left :=
    { tokens := map_token_parse source fileName
      nodes := fun _ => exact_of_mem_parse
      apart := pairwise_parse source fileName
      whole := rfl
      replayed := replay?_tokenize source fileName
      errors := fun _ => exact_of_mem_syntaxErrors }
  right _ hReached := ⟨hReached.offset_lt hSize, hReached.exists_counts⟩

/-- A comment over two lines between the tokens, and a literal that is not closed. -/
def brokenSource : String :=
  "é/* ü\n */\x7bab\x7d\n\x7b\x7b\x7bc\x7d\x7d"

theorem exact_parse_brokenSource :
    brokenSource.utf8ByteSize < UInt32.size ∧ (parse brokenSource "main").Exact brokenSource ∧
      (parse brokenSource "main").document.nodes.map Node.span =
        [⟨⟨1, 1, 0⟩, ⟨1, 2, 2⟩⟩, ⟨⟨2, 4, 11⟩, ⟨2, 8, 15⟩⟩, ⟨⟨2, 8, 15⟩, ⟨3, 1, 16⟩⟩,
          ⟨⟨3, 1, 16⟩, ⟨3, 7, 22⟩⟩] ∧
      (parse brokenSource "main").errors = [⟨.literal 3, ⟨3, 1, 16⟩, ⟨3, 4, 19⟩⟩] :=
  ⟨by decide +kernel, (exact_parse brokenSource "main" (by decide +kernel)).1, by decide +kernel,
    by decide +kernel⟩

end Document

end BraceDoc
