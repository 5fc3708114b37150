import BraceDoc.Proofs.Markup.Search
import BraceDoc.Proofs.Markup.Token

/-!
# The commands of a source and of its document

A simple command of the document has no braces inside, so the search through the source finds it
behind its opening brace, with the same name and argument. Where all braces of the source belong to
simple commands, the search finds nothing else.
-/

set_option autoImplicit false

namespace BraceDoc

namespace Command

/-! ## The commands of the nodes -/

/-- Trimming a name with its argument takes blanks off the argument only. -/
theorem exists_trim_call {name : List Char} (hName : IsName name) (arg : List Char) :
    ∃ kept, Text.trim (name ++ ':' :: arg) = name ++ ':' :: kept ∧
      Text.trim kept = Text.trim arg := by
  obtain ⟨before, behind, hBefore, hBehind, hArg⟩ := Text.exists_append_trim arg
  have hColon : Text.Trimmed [':'] := Text.trimmed_of_forall (Text.forall_mem_of_all (by decide))
  have hOuter : Text.trim (name ++ ':' :: arg) =
      Text.trim (name ++ ':' :: (before ++ Text.trim arg)) := by
    have hText : name ++ ':' :: arg = name ++ ':' :: (before ++ Text.trim arg) ++ behind := by
      conv_lhs => rw [hArg]
      simp only [List.append_assoc, List.cons_append]
    rw [hText, Text.trim_append_blank _ hBehind]
  -- The colon ends the trimmed text when nothing is left of the argument.
  by_cases hEmpty : Text.trim arg = []
  · refine ⟨[], ?_, hEmpty.symm⟩
    have hText : name ++ ':' :: (before ++ Text.trim arg) = name ++ ([] ++ [':']) ++ before := by
      rw [hEmpty]
      simp only [List.append_assoc, List.cons_append, List.nil_append, List.append_nil]
    rw [hOuter, hText, Text.trim_append_blank _ hBefore]
    exact (hName.trimmed.append hColon hName.ne_nil (List.cons_ne_nil _ _) []).trim_eq
  · refine ⟨before ++ Text.trim arg, ?_, ?_⟩
    · rw [hOuter]
      exact (hName.trimmed.append (Text.trimmed_trim arg) hName.ne_nil hEmpty
        (':' :: before)).trim_eq
    · rw [Text.trim_blank_append hBefore, (Text.trimmed_trim arg).trim_eq]

theorem splitCall_simple {s : Simple} (hWellFormed : s.WellFormed) :
    splitCall (String.ofList s.content) = ⟨String.ofList s.name, s.arg.bind filled?⟩ := by
  obtain ⟨name, arg, rest⟩ := s
  have hName : IsName name := hWellFormed.name
  have hColon : ':' ∉ name := hName.not_mem (by decide)
  cases arg with
  | none =>
    have hCut : Text.cut? [':'] name = none := by
      rw [Text.cut?_eq_none_iff]
      exact fun hInfix => hColon (hInfix.subset List.mem_cons_self)
    simp only [Simple.content, splitCall, String.toList_ofList, hName.trimmed.trim_eq, hCut,
      Option.bind_none]
  | some arg =>
    obtain ⟨kept, hTrim, hKept⟩ := exists_trim_call hName arg
    have hCut : Text.cut? [':'] (name ++ ':' :: kept) = some (name, kept) := by
      rw [Text.cut?_eq_some_iff, Text.endsAt_singleton_iff, List.append_assoc]
      exact ⟨rfl, hColon⟩
    simp only [Simple.content, splitCall, String.toList_ofList, hTrim, hCut, hName.trimmed.trim_eq,
      Option.bind_some, filled?, hKept]

theorem ofNode?_simple {s : Simple} (hWellFormed : s.WellFormed) (raw : String) (span : Span)
    (closed : Bool) : ofNode? (.command (String.ofList s.content) raw span closed) =
      some ⟨String.ofList s.name, s.arg.bind filled?, some span⟩ := by
  have hName : (String.ofList s.name).isEmpty = false := by
    rw [Bool.eq_false_iff, Ne, String.isEmpty_iff]
    simpa using hWellFormed.name.ne_nil
  rw [ofNode?]
  simp only [splitCall_simple hWellFormed, hName, Bool.false_eq_true, if_false]

end Command

def Node.IsSimple : Node → Prop
  | .command content _ _ true => Command.SimpleContent content.toList
  | _ => False

instance : DecidablePred Node.IsSimple
  | .command _ _ _ true => inferInstanceAs (Decidable (Command.SimpleContent _))
  | .command _ _ _ false => inferInstanceAs (Decidable False)
  | .text _ _ => inferInstanceAs (Decidable False)
  | .literal _ _ _ _ _ => inferInstanceAs (Decidable False)

def Piece.IsSimple (piece : Piece) : Prop :=
  ∃ content, Command.SimpleContent content ∧ piece = .command content true

def Node.isText : Node → Bool
  | .text _ _ => true
  | _ => false

namespace Command

def simpleEntries (nodes : List Node) : List (String × Option String × Option Nat) :=
  ((nodes.filter fun node => decide node.IsSimple).filterMap ofNode?).map (entry 1)

theorem simpleEntries_append (nodes more : List Node) :
    simpleEntries (nodes ++ more) = simpleEntries nodes ++ simpleEntries more := by
  simp only [simpleEntries, List.filter_append, List.filterMap_append, List.map_append]

theorem simpleEntries_of_not {node : Node} (hNot : ¬ node.IsSimple) :
    simpleEntries [node] = [] := by
  rw [simpleEntries, List.filter_cons_of_neg (by rwa [decide_eq_true_eq])]
  rfl

theorem simpleEntries_of_simple {s : Simple} (hWellFormed : s.WellFormed) (span : Span) :
    simpleEntries (Node.ofLocated? ⟨.command s.content true, span⟩).toList =
      [ofOpening (span.start.offset + 1, s)] := by
  have hSimple : Node.IsSimple (.command (String.ofList s.content)
      (String.ofList (Piece.command s.content true).render) span true) := by
    rw [Node.IsSimple, String.toList_ofList]
    exact (simpleContent_iff s.rest).mpr ⟨s, hWellFormed, rfl, rfl⟩
  rw [Node.ofLocated?, Option.toList_some, simpleEntries,
    List.filter_cons_of_pos (by rwa [decide_eq_true_eq]), List.filter_nil,
    List.filterMap_cons_some (ofNode?_simple hWellFormed _ span true)]
  rfl

/-! ## From piece to piece -/

/-- The nodes of pieces one behind the other, where the first one begins at `p`. -/
def nodesFrom (p : Position) (pieces : List Piece) : List Node :=
  (Piece.locate p pieces).filterMap Node.ofLocated?

theorem nodesFrom_cons (p : Position) (piece : Piece) (pieces : List Piece) :
    nodesFrom p (piece :: pieces) =
      (Node.ofLocated? ⟨piece, p, p.advance piece.render⟩).toList ++
        nodesFrom (p.advance piece.render) pieces := by
  rw [nodesFrom, Piece.locate]
  cases hNode : Node.ofLocated? ⟨piece, p, p.advance piece.render⟩ with
  | none =>
    rw [List.filterMap_cons_none hNode]
    rfl
  | some node =>
    rw [List.filterMap_cons_some hNode]
    rfl

theorem simpleEntries_of_not_simple {piece : Piece} {span : Span} (hNot : ¬ piece.IsSimple) :
    simpleEntries (Node.ofLocated? ⟨piece, span⟩).toList = [] := by
  cases piece with
  | text content => exact simpleEntries_of_not id
  | literal width content closed => exact simpleEntries_of_not id
  | lineComment body => rfl
  | blockComment body closed => rfl
  | command inner closed =>
    apply simpleEntries_of_not
    cases closed with
    | false => exact id
    | true =>
      intro hSimple
      rw [Node.IsSimple, String.toList_ofList] at hSimple
      exact hNot ⟨inner, hSimple, rfl⟩

theorem openings_piece {s : Simple} (hWellFormed : s.WellFormed) (offset : Nat) :
    openings offset ((Piece.command s.content true).render ++ s.rest) =
      (offset + 1, s) ::
        openings (offset + Text.byteLength (Piece.command s.content true).render) s.rest := by
  have hRender : (Piece.command s.content true).render = '\x7b' :: (s.content ++ ['\x7d']) := rfl
  have hOffset : offset + Text.byteLength (Piece.command s.content true).render =
      offset + 1 + Text.byteLength (s.content ++ ['\x7d']) := by
    rw [hRender, Nat.add_assoc]
    rfl
  rw [hOffset, ← openings_simple hWellFormed, hRender, List.cons_append, List.append_assoc]
  rfl

/-- The simple commands of the nodes are found by the search, in the same order. -/
theorem simpleEntries_sublist (p : Position) (pieces : List Piece) :
    (simpleEntries (nodesFrom p pieces)).Sublist
      ((openings p.offset (pieces.flatMap Piece.render)).map ofOpening) := by
  induction pieces generalizing p with
  | nil => exact List.Sublist.slnil
  | cons piece pieces ih =>
    have hRest := ih (p.advance piece.render)
    rw [Position.offset_advance] at hRest
    rw [nodesFrom_cons, simpleEntries_append, List.flatMap_cons]
    by_cases hSimple : piece.IsSimple
    · obtain ⟨content, hContent, rfl⟩ := hSimple
      obtain ⟨s, hWellFormed, rfl, hBehind⟩ :=
        (simpleContent_iff (pieces.flatMap Piece.render)).mp hContent
      rw [← hBehind] at hRest ⊢
      rw [openings_piece hWellFormed, simpleEntries_of_simple hWellFormed]
      exact hRest.cons_cons _
    · rw [simpleEntries_of_not_simple hSimple, List.nil_append]
      exact hRest.trans ((openings_suffix _ _ _).sublist.map _)

/-- Where all braces belong to simple commands, the search finds nothing else. -/
theorem simpleEntries_eq {pieces : List Piece}
    (hPieces : ∀ piece ∈ pieces, piece.IsSimple ∨ '\x7b' ∉ piece.render) (p : Position) :
    simpleEntries (nodesFrom p pieces) =
      (openings p.offset (pieces.flatMap Piece.render)).map ofOpening := by
  induction pieces generalizing p with
  | nil => rfl
  | cons piece pieces ih =>
    rw [List.forall_mem_cons] at hPieces
    have hRest := ih hPieces.2 (p.advance piece.render)
    rw [Position.offset_advance] at hRest
    rw [nodesFrom_cons, simpleEntries_append, List.flatMap_cons, hRest]
    rcases hPieces.1 with ⟨content, hContent, rfl⟩ | hBrace
    · obtain ⟨s, hWellFormed, rfl, hBehind⟩ :=
        (simpleContent_iff (pieces.flatMap Piece.render)).mp hContent
      rw [← hBehind, openings_piece hWellFormed, simpleEntries_of_simple hWellFormed]
      rfl
    · have hNot : ¬ piece.IsSimple := by
        rintro ⟨content, -, rfl⟩
        exact hBrace List.mem_cons_self
      rw [simpleEntries_of_not_simple hNot, List.nil_append, openings_append_of_not_mem hBrace]

/-! ## Documents -/

theorem exists_span_of_mem {pieces : List Piece} {piece : Piece} (hMem : piece ∈ pieces)
    (p : Position) : ∃ span, Located.mk piece span ∈ Piece.locate p pieces := by
  induction pieces generalizing p with
  | nil => cases hMem
  | cons q pieces ih =>
    rw [Piece.locate]
    rcases List.mem_cons.mp hMem with rfl | hRest
    · exact ⟨_, List.mem_cons_self⟩
    · obtain ⟨span, hSpan⟩ := ih hRest _
      exact ⟨span, List.mem_cons_of_mem _ hSpan⟩

/-- The pieces of a source without comments, all of whose nodes are texts or simple commands. -/
theorem simple_or_brace_not_mem {source : String}
    (hComments : ∀ piece ∈ Piece.scan source.toList, piece.isComment = false)
    (hNodes : ∀ node ∈ nodesFrom Position.first (Piece.scan source.toList),
      node.isText = true ∨ node.IsSimple) :
    ∀ piece ∈ Piece.scan source.toList, piece.IsSimple ∨ '\x7b' ∉ piece.render := by
  intro piece hPiece
  obtain ⟨span, hSpan⟩ := exists_span_of_mem hPiece Position.first
  have hNode : ∀ node, Node.ofLocated? ⟨piece, span⟩ = some node →
      node.isText = true ∨ node.IsSimple := fun node hSome =>
    hNodes node (List.mem_filterMap.mpr ⟨_, hSpan, hSome⟩)
  cases piece with
  | text content => exact Or.inr ((Piece.divides_scan _).wellFormed _ hPiece).2.1
  | lineComment body => cases hComments _ hPiece
  | blockComment body closed => cases hComments _ hPiece
  | literal width content closed =>
    rcases hNode _ rfl with hText | hSimple
    · cases hText
    · cases hSimple
  | command inner closed =>
    rcases hNode _ rfl with hText | hSimple
    · cases hText
    · cases closed with
      | false => cases hSimple
      | true =>
        rw [Node.IsSimple, String.toList_ofList] at hSimple
        exact Or.inl ⟨inner, hSimple, rfl⟩

theorem map_entry_eq_simpleEntries {nodes : List Node}
    (hNodes : ∀ node ∈ nodes, node.isText = true ∨ node.IsSimple) :
    (nodes.filterMap ofNode?).map (entry 1) = simpleEntries nodes := by
  rw [simpleEntries, List.filterMap_filter]
  refine congrArg (List.map (entry 1)) (List.filterMap_congr fun node hMem => ?_)
  rcases hNodes node hMem with hText | hSimple
  · cases node with
    | text value span => rfl
    | command content raw span closed => cases hText
    | literal width content raw span closed => cases hText
  · rw [if_pos (decide_eq_true hSimple)]

/-- Slashes and colons in an argument, a stray brace and an empty argument. -/
def slashedSource : String :=
  "é\x7d \x7bimport: lib//x:1 \x7d/\x7bh-1\x7d\x7bdefine: \x7d"

end Command

end BraceDoc
