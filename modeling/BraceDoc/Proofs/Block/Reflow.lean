import BraceDoc.Block.Reflow
import BraceDoc.Proofs.Text.Paragraph

/-!
# What reflow keeps and where it divides

Pouring inlines into an open run completes some paragraphs and leaves a run open. The blocks done
and the open run together show what was there before and what was poured in, so nothing visible is
lost, doubled or moved. The run that is open is all that one part of a document hands to the next,
so reflow can be told by its boundaries: other blocks and blank lines divide, and the borders of
paragraphs do not.
-/

set_option autoImplicit false

namespace BraceDoc

open Text (isBlank shown)

/-! ## Visible content -/

inductive Visible where
  /-- A block other than a paragraph. -/
  | block (block : Block)
  /-- An inline of a paragraph other than a text. -/
  | inline (inline : Inline)
  /-- A character of a text. -/
  | char (c : Char)

def Inline.visible : Inline → List Visible
  | .text content => (shown content.toList).map .char
  | inline => [.inline inline]

def Block.visible : Block → List Visible
  | .paragraph inlines => inlines.flatMap Inline.visible
  | block => [.block block]

theorem Inline.visible_eq_nil_iff {inline : Inline} :
    inline.visible = [] ↔ inline.isVisible = false := by
  cases inline with
  | text content => simp [visible, isVisible, Text.shown_eq_nil_iff]
  | _ => simp [visible, isVisible]

namespace Reflow

/-- Texts that have something in them and no blank line. -/
def Tidy (run : List Inline) : Prop :=
  ∀ content, .text content ∈ run → content.toList ≠ [] ∧ ¬ ['\n', '\n'] <:+: content.toList

theorem tidy_nil : Tidy [] := by
  simp [Tidy]

theorem Tidy.append {run more : List Inline} (hRun : Tidy run) (hMore : Tidy more) :
    Tidy (run ++ more) := by
  intro content hMem
  exact (List.mem_append.mp hMem).elim (hRun content) (hMore content)

structure IsProper (inlines : List Inline) : Prop where
  shows : ∃ inline ∈ inlines, (∀ content, inline ≠ .text content) ∨
    ∃ content, inline = .text content ∧ ∃ c ∈ content.toList, isBlank c = false
  tidy : Tidy inlines

theorem flatMap_visible_close (run : List Inline) :
    (close run).flatMap Block.visible = run.flatMap Inline.visible := by
  rw [close]
  split
  · exact List.flatMap_singleton _ _
  · rename_i hNone
    symm
    rw [List.flatMap_nil, List.flatMap_eq_nil_iff]
    simpa [Inline.visible_eq_nil_iff] using hNone

theorem isProper_of_mem_close {run inlines : List Inline} (hTidy : Tidy run)
    (hMem : .paragraph inlines ∈ close run) : IsProper inlines := by
  rw [close] at hMem
  split at hMem
  · rename_i hAny
    cases List.mem_singleton.mp hMem
    obtain ⟨inline, hInline, hVisible⟩ := List.any_eq_true.mp hAny
    refine ⟨⟨inline, hInline, ?_⟩, hTidy⟩
    cases inline with
    | text content => simpa [Inline.isVisible, Text.allBlank] using hVisible
    | _ => exact .inl (by simp)
  · cases hMem

/-- From `run`, something that shows `added` was poured in: the blocks done and the run open at the
end show both, in order. -/
structure Flows (run : List Inline) (added : List Visible) (state : List Block × List Inline) :
    Prop where
  visible : state.1.flatMap Block.visible ++ state.2.flatMap Inline.visible =
    run.flatMap Inline.visible ++ added
  proper : Tidy run → ∀ inlines, .paragraph inlines ∈ state.1 → IsProper inlines
  tidy : Tidy run → Tidy state.2

theorem Flows.trans {run next last : List Inline} {added more : List Visible}
    {blocks others : List Block} (hFirst : Flows run added (blocks, next))
    (hSecond : Flows next more (others, last)) :
    Flows run (added ++ more) (blocks ++ others, last) where
  visible := by
    rw [List.flatMap_append, List.append_assoc, hSecond.visible, ← List.append_assoc,
      hFirst.visible, List.append_assoc]
  proper hTidy inlines hMem :=
    (List.mem_append.mp hMem).elim (hFirst.proper hTidy inlines)
      (hSecond.proper (hFirst.tidy hTidy) inlines)
  tidy hTidy := hSecond.tidy (hFirst.tidy hTidy)

theorem flows_nil (run : List Inline) : Flows run [] ([], run) where
  visible := by simp
  proper := by simp
  tidy := id

theorem flows_close (run : List Inline) : Flows run [] (close run, []) where
  visible := by simp [flatMap_visible_close]
  proper hTidy _ := isProper_of_mem_close hTidy
  tidy _ := tidy_nil

theorem flows_extend (run : List Inline) {part : List Char} (hPart : ¬ ['\n', '\n'] <:+: part) :
    Flows run ((shown part).map .char) ([], extend run part) := by
  rw [extend]
  split
  · rename_i hEmpty
    rw [List.isEmpty_iff.mp hEmpty]
    exact flows_nil run
  · rename_i hSome
    refine ⟨by simp [Inline.visible], by simp, fun hTidy => hTidy.append ?_⟩
    intro content hMem
    obtain rfl : content = String.ofList part := by simpa using hMem
    simpa [hPart] using hSome

theorem pourParts_cons (run : List Inline) (part : List Char) {rest : List (List Char)}
    (hRest : rest ≠ []) :
    pourParts run (part :: rest) =
      (close (extend run part) ++ (pourParts [] rest).1, (pourParts [] rest).2) := by
  obtain ⟨next, more, rfl⟩ := List.exists_cons_of_ne_nil hRest
  rfl

theorem flows_pourParts (run : List Inline) {parts : List (List Char)}
    (hParts : ∀ part ∈ parts, ¬ ['\n', '\n'] <:+: part) :
    Flows run ((parts.flatMap shown).map .char) (pourParts run parts) := by
  induction parts generalizing run with
  | nil => exact flows_nil run
  | cons part rest ih =>
    obtain ⟨hFirst, hRest⟩ := List.forall_mem_cons.mp hParts
    have hExtend := flows_extend run hFirst
    cases rest with
    | nil =>
      rw [List.flatMap_singleton]
      exact hExtend
    | cons next more =>
      -- a part with others behind it ends its paragraph
      rw [pourParts_cons run part (List.cons_ne_nil next more), List.flatMap_cons, List.map_append]
      simpa using (hExtend.trans (flows_close _)).trans (ih [] hRest)

theorem flows_pourInline (run : List Inline) (inline : Inline) :
    Flows run inline.visible (pourInline run inline) := by
  cases inline with
  | text content =>
    have hParts : ∀ part ∈ Text.paragraphs (Text.unify content.toList),
        ¬ ['\n', '\n'] <:+: part := fun part => Text.not_infix_of_mem_paragraphs
    have hFlows := flows_pourParts run hParts
    rwa [Text.flatMap_shown_paragraphs, Text.shown_unify] at hFlows
  | _ =>
    refine ⟨by simp [pourInline, Inline.visible], by simp [pourInline], fun hTidy => ?_⟩
    exact hTidy.append (by simp [Tidy])

theorem pour_cons (run : List Inline) (inline : Inline) (rest : List Inline) :
    pour run (inline :: rest) =
      ((pourInline run inline).1 ++ (pour (pourInline run inline).2 rest).1,
        (pour (pourInline run inline).2 rest).2) :=
  rfl

theorem flows_pour (run inlines : List Inline) :
    Flows run (inlines.flatMap Inline.visible) (pour run inlines) := by
  induction inlines generalizing run with
  | nil => exact flows_nil run
  | cons inline rest ih =>
    rw [pour_cons, List.flatMap_cons]
    exact (flows_pourInline run inline).trans (ih _)

theorem reflowFrom_of_other (run : List Inline) {block : Block}
    (hOther : ∀ inlines, block ≠ .paragraph inlines) (rest : List Block) :
    reflowFrom run (block :: rest) = close run ++ block :: reflowFrom [] rest := by
  cases block with
  | paragraph inlines => exact absurd rfl (hOther inlines)
  | _ => rfl

theorem reflowFrom_paragraph (run inlines : List Inline) (rest : List Block) :
    reflowFrom run (.paragraph inlines :: rest) =
      (pour run inlines).1 ++ reflowFrom (pour run inlines).2 rest :=
  rfl

theorem flows_other (run : List Inline) {block : Block}
    (hOther : ∀ inlines, block ≠ .paragraph inlines) :
    Flows run block.visible (close run ++ [block], []) := by
  have hAlone : Flows [] block.visible ([block], []) := by
    refine ⟨by simp, fun _ inlines hMem => ?_, id⟩
    exact absurd (List.mem_singleton.mp hMem).symm (hOther inlines)
  exact (flows_close run).trans hAlone

theorem flows_reflowFrom (run : List Inline) (blocks : List Block) :
    Flows run (blocks.flatMap Block.visible) (reflowFrom run blocks, []) := by
  induction blocks generalizing run with
  | nil => exact flows_close run
  | cons block rest ih =>
    rw [List.flatMap_cons]
    by_cases hBlock : ∃ inlines, block = .paragraph inlines
    · obtain ⟨inlines, rfl⟩ := hBlock
      exact (flows_pour run inlines).trans (ih _)
    · have hOther : ∀ inlines, block ≠ .paragraph inlines := not_exists.mp hBlock
      rw [reflowFrom_of_other run hOther, List.append_cons]
      exact (flows_other run hOther).trans (ih [])

end Reflow

/-- Reflow keeps what a document shows, in order. Each paragraph of the result shows something, and
its texts have no blank lines. -/
theorem visible_reflow (blocks : List Block) :
    (reflow blocks).flatMap Block.visible = blocks.flatMap Block.visible ∧
      ∀ inlines, .paragraph inlines ∈ reflow blocks → Reflow.IsProper inlines := by
  have hFlows : Reflow.Flows [] (blocks.flatMap Block.visible) (reflow blocks, []) :=
    Reflow.flows_reflowFrom [] blocks
  constructor
  · simpa using hFlows.visible
  · exact hFlows.proper Reflow.tidy_nil

/-- Paragraphs with carriage returns and blank lines, a blank one and one of line feeds, around a
raw block. -/
def looseBlocks : List Block :=
  [.ofText "one\r\n\r\n\r\ntwo\n\n", .ofText "   ", .raw "raw", .ofText "\n\n"]

theorem visible_reflow_loose :
    reflow looseBlocks = [.ofText "one", .ofText "two", .raw "raw"] ∧
      (reflow looseBlocks).flatMap Block.visible = looseBlocks.flatMap Block.visible ∧
      Reflow.IsProper [.text "two"] := by
  have hReflow : reflow looseBlocks = [.ofText "one", .ofText "two", .raw "raw"] := by
    with_unfolding_all rfl
  have hMem : .paragraph [.text "two"] ∈ reflow looseBlocks := by
    rw [hReflow]
    exact List.mem_cons_of_mem _ List.mem_cons_self
  obtain ⟨hVisible, hProper⟩ := visible_reflow looseBlocks
  exact ⟨hReflow, hVisible, hProper _ hMem⟩

/-! ## Boundaries -/

namespace Reflow

theorem pour_append (run front back : List Inline) :
    pour run (front ++ back) =
      ((pour run front).1 ++ (pour (pour run front).2 back).1,
        (pour (pour run front).2 back).2) := by
  induction front generalizing run with
  | nil => rfl
  | cons inline front ih =>
    rw [List.cons_append, pour_cons, pour_cons, ih, List.append_assoc]

/-- The paragraphs and other blocks completed on the way through a list of blocks, and the run that
is open behind it. -/
def passed (run : List Inline) : List Block → List Block × List Inline
  | [] => ([], run)
  | .paragraph inlines :: rest =>
    ((pour run inlines).1 ++ (passed (pour run inlines).2 rest).1,
      (passed (pour run inlines).2 rest).2)
  | block :: rest => (close run ++ block :: (passed [] rest).1, (passed [] rest).2)

theorem reflowFrom_append (run : List Inline) (front back : List Block) :
    reflowFrom run (front ++ back) =
      (passed run front).1 ++ reflowFrom (passed run front).2 back := by
  induction front generalizing run with
  | nil => rfl
  | cons block front ih =>
    cases block with
    | paragraph inlines => simp [reflowFrom, passed, ih]
    | _ => simp [reflowFrom, passed, ih]

/-- Between two lists of parts the run is closed. -/
theorem pourParts_append (run : List Inline) {front back : List (List Char)} (hFront : front ≠ [])
    (hBack : back ≠ []) :
    pourParts run (front ++ back) =
      ((pourParts run front).1 ++ close (pourParts run front).2 ++ (pourParts [] back).1,
        (pourParts [] back).2) := by
  induction front generalizing run with
  | nil => exact absurd rfl hFront
  | cons part front ih =>
    cases front with
    | nil => exact pourParts_cons run part hBack
    | cons next more =>
      have hMore : next :: more ≠ [] := List.cons_ne_nil next more
      rw [List.cons_append, pourParts_cons run part (List.append_ne_nil_of_left_ne_nil hMore back),
        ih [] hMore, pourParts_cons run part hMore]
      simp

theorem reflow_append (front back : List Block) :
    reflow (front ++ back) = (passed [] front).1 ++ reflowFrom (passed [] front).2 back :=
  reflowFrom_append [] front back

theorem reflow_eq (blocks : List Block) :
    reflow blocks = (passed [] blocks).1 ++ close (passed [] blocks).2 := by
  have hAppend := reflow_append blocks []
  rwa [List.append_nil, reflowFrom] at hAppend

theorem reflowFrom_paragraphs (run a b : List Inline) (rest : List Block) :
    reflowFrom run (.paragraph a :: .paragraph b :: rest) =
      reflowFrom run (.paragraph (a ++ b) :: rest) := by
  rw [reflowFrom_paragraph, reflowFrom_paragraph, reflowFrom_paragraph, pour_append,
    List.append_assoc]

section BlankLine

variable {u v : String} (hFront : '\r' ∉ u.toList) (hBack : '\r' ∉ v.toList)
  (hEnd : u.toList.getLast? ≠ some '\n') (hStart : v.toList.head? ≠ some '\n') {k : Nat}
  (hBlank : 2 ≤ k)

include hFront hBack hEnd hStart hBlank

theorem pourInline_blank_line (run : List Inline) :
    pourInline run (.text (u ++ String.ofList (List.replicate k '\n') ++ v)) =
      ((pourInline run (.text u)).1 ++ close (pourInline run (.text u)).2 ++
          (pourInline [] (.text v)).1,
        (pourInline [] (.text v)).2) := by
  have hText : (u ++ String.ofList (List.replicate k '\n') ++ v).toList =
      u.toList ++ (List.replicate k '\n' ++ v.toList) := by
    simp
  have hReturn : '\r' ∉ u.toList ++ (List.replicate k '\n' ++ v.toList) := by
    simp [hFront, hBack]
  simp only [pourInline, hText, Text.unify_of_not_mem hReturn, Text.unify_of_not_mem hFront,
    Text.unify_of_not_mem hBack, Text.paragraphs_append_feeds hEnd hStart hBlank]
  exact pourParts_append run (Text.paragraphs_ne_nil _) (Text.paragraphs_ne_nil _)

theorem reflowFrom_blank_line (run a b : List Inline) (rest : List Block) :
    reflowFrom run (.paragraph
        (a ++ .text (u ++ String.ofList (List.replicate k '\n') ++ v) :: b) :: rest) =
      reflowFrom run [.paragraph (a ++ [.text u])] ++
        reflowFrom [] (.paragraph (.text v :: b) :: rest) := by
  simp only [reflowFrom, pour_append, pour,
    pourInline_blank_line hFront hBack hEnd hStart hBlank, List.append_assoc, List.append_nil]

end BlankLine

end Reflow

/-- Reflow divides at blocks other than paragraphs and at blank lines, and nowhere else. -/
theorem reflow_boundaries (x y : List Block) :
    (∀ c : Block, (∀ inlines, c ≠ .paragraph inlines) →
        reflow (x ++ [c] ++ y) = reflow x ++ [c] ++ reflow y) ∧
      (∀ a b : List Inline,
        reflow (x ++ [Block.paragraph a, Block.paragraph b] ++ y) =
          reflow (x ++ [Block.paragraph (a ++ b)] ++ y)) ∧
      ∀ (a b : List Inline) (u v : String) (k : Nat), '\r' ∉ u.toList → '\r' ∉ v.toList →
        u.toList.getLast? ≠ some '\n' → v.toList.head? ≠ some '\n' → 2 ≤ k →
        reflow (x ++ [Block.paragraph
            (a ++ [Inline.text (u ++ String.ofList (List.replicate k '\n') ++ v)] ++ b)] ++ y) =
          reflow (x ++ [Block.paragraph (a ++ [Inline.text u])]) ++
            reflow ([Block.paragraph ([Inline.text v] ++ b)] ++ y) := by
  refine ⟨?_, ?_, ?_⟩
  · intro c hOther
    simp only [List.append_assoc, List.cons_append, List.nil_append, Reflow.reflow_append]
    rw [Reflow.reflowFrom_of_other _ hOther, Reflow.reflow_eq x, List.append_assoc, reflow]
  · intro a b
    simp only [List.append_assoc, List.cons_append, List.nil_append, Reflow.reflow_append]
    rw [Reflow.reflowFrom_paragraphs]
  · intro a b u v k hFront hBack hEnd hStart hBlank
    simp only [List.append_assoc, List.cons_append, List.nil_append, Reflow.reflow_append]
    rw [Reflow.reflowFrom_blank_line hFront hBack hEnd hStart hBlank, reflow]

/-- The text in front of the blank line has another one in it, and behind the line there is
nothing. -/
theorem reflow_boundaries_nothing_behind :
    let x := [Block.ofText "start "]
    let y := [Block.ofText "end"]
    (∀ inlines, Block.raw "raw" ≠ .paragraph inlines) ∧
      reflow (x ++ [Block.raw "raw"] ++ y) = reflow x ++ [Block.raw "raw"] ++ reflow y ∧
      '\r' ∉ "a\n\nb".toList ∧ "a\n\nb".toList.getLast? ≠ some '\n' ∧
      reflow (x ++ [Block.paragraph ([Inline.code "c"] ++
          [Inline.text ("a\n\nb" ++ String.ofList (List.replicate 3 '\n') ++ "")] ++
          [Inline.code "d"])] ++ y) =
        reflow (x ++ [Block.paragraph ([Inline.code "c"] ++ [Inline.text "a\n\nb"])]) ++
          reflow ([Block.paragraph ([Inline.text ""] ++ [Inline.code "d"])] ++ y) := by
  intro x y
  obtain ⟨hOther, -, hBlankLine⟩ := reflow_boundaries x y
  have hRaw : ∀ inlines, Block.raw "raw" ≠ .paragraph inlines := by simp
  have hReturn : '\r' ∉ "a\n\nb".toList := by decide
  have hEnd : "a\n\nb".toList.getLast? ≠ some '\n' := by decide
  exact ⟨hRaw, hOther _ hRaw, hReturn, hEnd,
    hBlankLine [.code "c"] [.code "d"] "a\n\nb" "" 3 hReturn
    (by decide) hEnd (by decide) (by decide)⟩

end BraceDoc
