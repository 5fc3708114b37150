import BraceDoc.Call.Dispatch
import BraceDoc.Proofs.Markup.Range

/-!
# Rendering without handlers

Without handlers, and with unknown commands kept, every node but blank text becomes one block, which
holds the source text of the node, or the content of a literal. A command without its closing brace
gets one: its block ends in a brace that the source does not have. Only the last node can be such a
command.
-/

set_option autoImplicit false

namespace BraceDoc

namespace Node

def isBlank : Node → Bool
  | .text value _ => Text.allBlank value.toList
  | _ => false

def isOpenCommand : Node → Bool
  | .command _ _ _ closed => !closed
  | _ => false

/-- The block that holds the source text of a node, or the content of a literal. -/
def verbatim (node : Node) : Block :=
  match node with
  | .text _ _ => .paragraph [.text node.raw]
  | .command _ _ _ _ => .raw node.raw
  | .literal _ content _ _ _ => .code content none none

def kept (node : Node) : Block :=
  if node.isOpenCommand then .raw (node.raw ++ "\x7d") else node.verbatim

end Node

def Document.shown (d : Document) : List Node :=
  d.nodes.filter fun node => !node.isBlank

/-! ## One node -/

theorem braced_ofList (inner : List Char) :
    "\x7b" ++ String.ofList inner = String.ofList (Piece.openFence 1 ++ inner) := by
  rw [String.ofList_append]
  rfl

namespace Registry

variable (reports : Bool) (file : Path)

theorem blocks_renderNode_unhandled {l : Located} {node : Node}
    (hNode : Node.ofLocated? l = some node)
    (stage : Stage) : (renderNode {} ⟨reports, true⟩ file node stage).1 =
      if node.isBlank then [] else [node.kept] := by
  obtain ⟨piece, span⟩ := l
  cases piece with
  | text content =>
    cases hNode
    rfl
  | literal width content closed =>
    cases hNode
    rfl
  | command inner closed =>
    cases hNode
    -- the block is made from the inner text, with both braces
    have hBlocks : (renderNode {} ⟨reports, true⟩ file (.command (String.ofList inner)
        (String.ofList (Piece.command inner closed).render) span closed) stage).1 =
        [.raw ("\x7b" ++ String.ofList inner ++ "\x7d")] := rfl
    rw [hBlocks, braced_ofList]
    cases closed with
    | true =>
      change _ = [Block.raw (String.ofList (Piece.openFence 1 ++ inner ++ Piece.closeFence 1))]
      rw [@String.ofList_append (Piece.openFence 1 ++ inner) (Piece.closeFence 1)]
      rfl
    | false =>
      change _ = [Block.raw (String.ofList (Piece.openFence 1 ++ inner ++ []) ++ "\x7d")]
      rw [List.append_nil]
  | lineComment body => cases hNode
  | blockComment body closed => cases hNode

theorem blocks_renderNodes_unhandled (located : List Located) (stage : Stage) :
    (renderNodes {} ⟨reports, true⟩ file (located.filterMap Node.ofLocated?) stage).1 =
      ((located.filterMap Node.ofLocated?).filter fun node => !node.isBlank).map Node.kept := by
  induction located generalizing stage with
  | nil => rfl
  | cons l located ih =>
    cases hNode : Node.ofLocated? l with
    | none =>
      rw [List.filterMap_cons_none hNode]
      exact ih stage
    | some node =>
      rw [List.filterMap_cons_some hNode]
      have hFirst := blocks_renderNode_unhandled reports file hNode stage
      have hCons : ∀ rest, (renderNodes {} ⟨reports, true⟩ file (node :: rest) stage).1 =
          (renderNode {} ⟨reports, true⟩ file node stage).1 ++
            (renderNodes {} ⟨reports, true⟩ file rest
              (renderNode {} ⟨reports, true⟩ file node stage).2).1 := fun _ => rfl
      rw [hCons, ih, hFirst]
      cases hBlank : node.isBlank with
      | true => rw [List.filter_cons_of_neg (by simp [hBlank])]; rfl
      | false => rw [List.filter_cons_of_pos (by simp [hBlank])]; rfl

end Registry

/-! ## Open commands -/

theorem Piece.map_piece_locate (p : Position) (pieces : List Piece) :
    (locate p pieces).map Located.piece = pieces := by
  have hRow := congrArg (List.map Placed.piece) (Located.map_placed_locate p pieces)
  rw [Placed.map_piece_row, List.map_map] at hRow
  exact hRow

/-- Only the last piece of a text can be unclosed. -/
theorem eq_nil_of_unclosed {source : String} {front back : List Located} {l : Located}
    (hLocated : locatedPieces source = front ++ l :: back) (hOpen : l.piece.isClosed = false) :
    back = [] := by
  by_contra hBack
  have hPieces := Piece.map_piece_locate Position.first (Piece.scan source.toList)
  change (locatedPieces source).map Located.piece = _ at hPieces
  have hClosed := (Piece.divides_scan source.toList).closed l.piece
  rw [← hPieces, hLocated, List.map_append, List.map_cons,
    List.dropLast_append_of_ne_nil (List.cons_ne_nil _ _),
    List.dropLast_cons_of_ne_nil (by rwa [Ne, List.map_eq_nil_iff])] at hClosed
  rw [hClosed (List.mem_append_right _ List.mem_cons_self)] at hOpen
  cases hOpen

theorem Located.isOpenCommand_iff {l : Located} {node : Node}
    (hNode : Node.ofLocated? l = some node) :
    node.isOpenCommand = true ↔ ∃ inner, l.piece = .command inner false := by
  obtain ⟨piece, span⟩ := l
  cases piece with
  | command inner closed =>
    cases hNode
    cases closed with
    | true => exact iff_of_false Bool.false_ne_true (by rintro ⟨_, hPiece⟩; cases hPiece)
    | false => exact iff_of_true rfl ⟨inner, rfl⟩
  | text content =>
    cases hNode
    exact iff_of_false Bool.false_ne_true (by rintro ⟨_, hPiece⟩; cases hPiece)
  | literal width content closed =>
    cases hNode
    exact iff_of_false Bool.false_ne_true (by rintro ⟨_, hPiece⟩; cases hPiece)
  | lineComment body => cases hNode
  | blockComment body closed => cases hNode

namespace Document

variable {source fileName : String}

theorem exists_front_of_open {node : Node} (hNode : node ∈ (parse source fileName).document.nodes)
    (hOpen : node.isOpenCommand = true) :
    ∃ front, (parse source fileName).document.nodes = front ++ [node] ∧
      ∀ other ∈ front, other.isOpenCommand = false := by
  obtain ⟨l, hLocated, hRead⟩ := List.mem_filterMap.mp hNode
  obtain ⟨inner, hPiece⟩ := (Located.isOpenCommand_iff hRead).mp hOpen
  obtain ⟨front, back, hSplit⟩ := List.append_of_mem hLocated
  have hBack : back = [] := eq_nil_of_unclosed hSplit (by rw [hPiece]; rfl)
  subst hBack
  refine ⟨front.filterMap Node.ofLocated?, ?_, ?_⟩
  · simp only [parse, hSplit, List.filterMap_append, List.filterMap_cons_some hRead,
      List.filterMap_nil]
  · intro other hOther
    obtain ⟨first, hFirst, hOtherRead⟩ := List.mem_filterMap.mp hOther
    rw [Bool.eq_false_iff]
    intro hOtherOpen
    obtain ⟨_, hFirstPiece⟩ := (Located.isOpenCommand_iff hOtherRead).mp hOtherOpen
    obtain ⟨before, behind, rfl⟩ := List.append_of_mem hFirst
    rw [List.append_assoc, List.cons_append] at hSplit
    have hNone := eq_nil_of_unclosed hSplit (by rw [hFirstPiece]; rfl)
    exact absurd hNone (by simp)

theorem exists_open_iff : (∃ e ∈ (parse source fileName).errors, e.what = .command) ↔
    ∃ node ∈ (parse source fileName).document.nodes, node.isOpenCommand = true := by
  constructor
  · rintro ⟨e, he, hWhat⟩
    obtain ⟨⟨piece, span⟩, hLocated, hError⟩ := List.mem_filterMap.mp he
    obtain ⟨⟨what, width⟩, hOpen, rfl⟩ := Option.map_eq_some_iff.mp hError
    change what = .command at hWhat
    subst hWhat
    cases piece with
    | command inner closed =>
      cases closed with
      | true => cases hOpen
      | false => exact ⟨_, List.mem_filterMap.mpr ⟨_, hLocated, rfl⟩, rfl⟩
    | literal width content closed => cases closed <;> cases hOpen
    | blockComment body closed => cases closed <;> cases hOpen
    | text content => cases hOpen
    | lineComment body => cases hOpen
  · rintro ⟨node, hNode, hOpen⟩
    obtain ⟨⟨piece, span⟩, hLocated, hRead⟩ := List.mem_filterMap.mp hNode
    obtain ⟨inner, hPiece⟩ := (Located.isOpenCommand_iff hRead).mp hOpen
    subst hPiece
    exact ⟨_, List.mem_filterMap.mpr ⟨_, hLocated, rfl⟩, rfl⟩

end Document

namespace Registry

theorem map_kept {nodes : List Node} (hClosed : ∀ node ∈ nodes, node.isOpenCommand = false) :
    nodes.map Node.kept = nodes.map Node.verbatim := by
  apply List.map_congr_left
  intro node hNode
  rw [Node.kept, hClosed node hNode]
  rfl

end Registry

end BraceDoc
