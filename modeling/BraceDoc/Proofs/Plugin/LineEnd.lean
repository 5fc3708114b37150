import BraceDoc.Plugin.Docgen
import BraceDoc.Proofs.Call.Handler
import BraceDoc.Proofs.Markup.LineEnd

/-!
# Line ends leave no trace in the blocks

A document that is written with carriage returns before its line feeds renders to the same blocks
and the same assets. Commands are read from one line, so that their handlers see the same text.
Texts and literals keep their line ends while nodes are rendered; reflow unifies those of texts, and
classification those of literals.
-/

set_option autoImplicit false

namespace BraceDoc

open Text (SameLines)

/-! ## Rendering -/

/-- Two blocks are equal up to the line ends of a text or of a literal. -/
inductive Block.Alike : Block → Block → Prop where
  | same (block : Block) : Alike block block
  | text {content content' : String} (hSame : SameLines content.toList content'.toList) :
    Alike (.ofText content) (.ofText content')
  | code {content content' : String} (hSame : SameLines content.toList content'.toList) :
    Alike (.code content none none) (.code content' none none)

theorem Block.forall₂_alike (blocks : List Block) : List.Forall₂ Alike blocks blocks :=
  List.forall₂_same.mpr fun block _ => .same block

/-- What plain handlers read of a stage is the same in both. -/
structure Stage.Agrees (s t : Stage) : Prop where
  assets : s.assets = t.assets
  settings : s.settings = t.settings

namespace Registry

variable {r : Registry} (policy : UnknownPolicy) (file : Path)

theorem alike_unknown {call call' : Call} (hContent : call.content = call'.content) {s t : Stage}
    (hAgrees : s.Agrees t) :
    List.Forall₂ Block.Alike (unknown policy file call s).1 (unknown policy file call' t).1 ∧
      (unknown policy file call s).2.Agrees (unknown policy file call' t).2 := by
  simp only [unknown, hContent]
  refine ⟨Block.forall₂_alike _, ?_⟩
  split
  · exact ⟨hAgrees.assets, hAgrees.settings⟩
  · exact hAgrees

theorem alike_renderNode (hPlain : r.IsPlain) {node node' : Node} (hAlike : node.Alike node')
    {s t : Stage} (hAgrees : s.Agrees t) :
    List.Forall₂ Block.Alike (r.renderNode policy file node s).1
        (r.renderNode policy file node' t).1 ∧
      (r.renderNode policy file node s).2.Agrees (r.renderNode policy file node' t).2 := by
  cases hAlike with
  | text hSame span span' =>
    refine ⟨?_, hAgrees⟩
    simp only [renderNode, hSame.allBlank_eq]
    split
    · exact .nil
    · exact .cons (.text hSame) .nil
  | literal width hSame raw raw' span span' closed => exact ⟨.cons (.code hSame) .nil, hAgrees⟩
  | command content raw raw' span span' closed =>
    cases hGet : r.get? (splitCall content).name with
    | none =>
      simp only [renderNode, Call.ofContent, hGet, Option.getD_none]
      apply alike_unknown policy file _ hAgrees
      rfl
    | some h =>
      obtain ⟨act, hAct⟩ := hPlain _ h hGet
      simp only [renderNode, Call.ofContent, hGet, Option.getD_some, hAct, hAgrees.assets,
        hAgrees.settings]
      exact ⟨Block.forall₂_alike _, rfl, rfl⟩

theorem alike_renderNodes (hPlain : r.IsPlain) {nodes nodes' : List Node}
    (hAlike : List.Forall₂ Node.Alike nodes nodes') {s t : Stage} (hAgrees : s.Agrees t) :
    List.Forall₂ Block.Alike (r.renderNodes policy file nodes s).1
        (r.renderNodes policy file nodes' t).1 ∧
      (r.renderNodes policy file nodes s).2.Agrees (r.renderNodes policy file nodes' t).2 := by
  induction hAlike generalizing s t with
  | nil => exact ⟨.nil, hAgrees⟩
  | cons hFirst hRest ih =>
    obtain ⟨hBlocks, hStages⟩ := alike_renderNode policy file hPlain hFirst hAgrees
    obtain ⟨hMore, hFinal⟩ := ih hStages
    exact ⟨List.rel_append hBlocks hMore, hFinal⟩

end Registry

/-! ## Reflow and classification -/

theorem Reflow.pour_text {content content' : String}
    (hSame : SameLines content.toList content'.toList) (run : List Inline) :
    pour run [.text content'] = pour run [.text content] := by
  simp only [pour, pourInline, hSame.unify_left, hSame.unify_right]

namespace Docgen

theorem classify_code {content content' : String}
    (hSame : SameLines content.toList content'.toList) :
    classify (.code content' none none) = classify (.code content none none) := by
  simp only [classify, Text.unified, hSame.unify_left, hSame.unify_right]

theorem map_classify_reflowFrom {blocks blocks' : List Block}
    (hAlike : List.Forall₂ Block.Alike blocks blocks') (run : List Inline) :
    (Reflow.reflowFrom run blocks').map classify = (Reflow.reflowFrom run blocks).map classify := by
  -- blocks hand nothing to one another but the open run, and that is the same on both sides
  induction hAlike generalizing run with
  | nil => rfl
  | @cons block block' rest rest' hFirst hRest ih =>
    cases hFirst with
    | same =>
      cases block with
      | paragraph inlines => simp only [Reflow.reflowFrom, List.map_append, ih]
      | _ => simp only [Reflow.reflowFrom, List.map_append, List.map_cons, ih]
    | text hSame =>
      simp only [Block.ofText, Reflow.reflowFrom, List.map_append, ih, Reflow.pour_text hSame]
    | code hSame =>
      simp only [Reflow.reflowFrom, List.map_append, List.map_cons, ih, classify_code hSame]

/-- Texts with the same lines are rendered alike. -/
theorem render_of_sameLines {r : Registry} (hPlain : r.IsPlain) (policy : UnknownPolicy)
    (settings : Settings) (file : Path) {source other : String}
    (hSame : SameLines source.toList other.toList)
    (hLines : ∀ p ∈ Piece.scan source.toList, p.OneLine) :
    (render r policy settings (.ofText file other)).1 =
        (render r policy settings (.ofText file source)).1 ∧
      (render r policy settings (.ofText file other)).2.assets =
        (render r policy settings (.ofText file source)).2.assets := by
  obtain ⟨hBlocks, hStages⟩ := Registry.alike_renderNodes policy file hPlain
    (Document.alike_parse hSame hLines file.text) (⟨rfl, rfl⟩ : Stage.Agrees { settings } _)
  exact ⟨map_classify_reflowFrom hBlocks [], hStages.assets.symm⟩

def withReturns (source : String) : String :=
  String.ofList (Text.returned source.toList)

/-- A text with line ends behind and inside comments, between paragraphs and in a literal. -/
def linedText : String :=
  "a // b\n\nc \x7b\x7b\nlet x\n\x7d\x7d\n/* d\n */\x7bnope: e\x7d\n\x7bimage: f"

end Docgen

end BraceDoc
