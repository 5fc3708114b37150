import BraceDoc.Plugin.Docgen
import BraceDoc.Proofs.Block.Reflow
import BraceDoc.Proofs.Call.Handler
import BraceDoc.Lists
import Mathlib.Data.List.Induction

/-!
# Assets are the images shown

While a document is rendered, every image puts its asset into the store, and no other command does.
The store is then told by the images among the blocks, and these are neither lost nor moved when the
blocks are reflowed and classified. So the assets of a document are those of the images that it
shows.
-/

set_option autoImplicit false

namespace BraceDoc

/-! ## Images -/

mutual

def Inline.imageIds : Inline → List String
  | .strong children => Inline.imageIdsOf children
  | .emphasis children => Inline.imageIdsOf children
  | .underline children => Inline.imageIdsOf children
  | .image id _ => [id]
  | .text _ => []
  | .code _ => []
  | .citation _ _ => []
  | .rawCommand _ _ => []

def Inline.imageIdsOf : List Inline → List String
  | [] => []
  | inline :: rest => inline.imageIds ++ Inline.imageIdsOf rest

end

theorem Inline.imageIdsOf_eq (inlines : List Inline) :
    imageIdsOf inlines = inlines.flatMap imageIds := by
  induction inlines with
  | nil => rfl
  | cons inline rest ih => rw [imageIdsOf, List.flatMap_cons, ih]

def Block.imageIds : Block → List String
  | .paragraph inlines => Inline.imageIdsOf inlines
  | _ => []

def Visible.imageIds : Visible → List String
  | .inline content => content.imageIds
  | _ => []

theorem Inline.imageIds_visible (inline : Inline) :
    inline.visible.flatMap Visible.imageIds = inline.imageIds := by
  cases inline with
  | text content => simp [visible, imageIds, Visible.imageIds, List.flatMap_map]
  | _ => simp [visible, Visible.imageIds]

theorem Block.imageIds_visible (block : Block) :
    block.visible.flatMap Visible.imageIds = block.imageIds := by
  cases block with
  | paragraph inlines =>
    simp [visible, imageIds, List.flatMap_assoc, Inline.imageIds_visible, Inline.imageIdsOf_eq]
  | _ => simp [visible, imageIds, Visible.imageIds]

theorem imageIds_reflow (blocks : List Block) :
    (reflow blocks).flatMap Block.imageIds = blocks.flatMap Block.imageIds := by
  have hShown : (reflow blocks).flatMap Block.visible = blocks.flatMap Block.visible := by
    simpa [reflow] using (Reflow.flows_reflowFrom [] blocks).visible
  have hImages := congrArg (List.flatMap Visible.imageIds) hShown
  simpa only [List.flatMap_assoc, Block.imageIds_visible] using hImages

theorem Docgen.imageIds_classify (block : Block) : (classify block).imageIds = block.imageIds := by
  cases block with
  | _ => rfl

/-! ## Stores of images -/

namespace AssetStore

def imageAsset (file : Path) (id : String) : Asset :=
  { id, mime := Asset.mimeOf ⟨id⟩, path := some (Call.assetPath file id) }

def putImage (file : Path) (store : AssetStore) (id : String) : AssetStore :=
  if id.isEmpty || store.contains id then store else store.put (imageAsset file id)

/-- The store of some images: one asset for each id that is not empty, in the order of first
occurrences. -/
def ofImages (file : Path) (ids : List String) : AssetStore where
  assets := (ids.filter fun id => !id.isEmpty).eraseDups.map (imageAsset file)

theorem ids_ofImages (file : Path) (ids : List String) :
    (ofImages file ids).ids = (ids.filter fun id => !id.isEmpty).eraseDups := by
  simp only [AssetStore.ids, ofImages, List.map_map]
  exact List.map_id _

theorem contains_eq_decide (store : AssetStore) (id : String) :
    store.contains id = decide (id ∈ store.ids) := by
  rw [contains, ids, Bool.eq_iff_iff]
  simp

theorem putImage_ofImages (file : Path) (before : List String) (id : String) :
    putImage file (ofImages file before) id = ofImages file (before ++ [id]) := by
  rw [putImage, contains_eq_decide, ids_ofImages]
  by_cases hEmpty : id.isEmpty = true
  · simp [hEmpty, ofImages]
  · have hFilled : [id].filter (fun id => !id.isEmpty) = [id] := by simp [hEmpty]
    by_cases hOld : id ∈ before.filter fun id => !id.isEmpty
    · have hKnown : id ∈ (before.filter fun id => !id.isEmpty).eraseDups :=
        List.mem_eraseDups.mpr hOld
      simp only [ofImages, List.filter_append, hFilled, eraseDups_concat, if_pos hOld]
      simp [hKnown]
    · have hNew : id ∉ (before.filter fun id => !id.isEmpty).eraseDups :=
        mt List.mem_eraseDups.mp hOld
      have hOther : (ofImages file before).contains (imageAsset file id).id = false := by
        rw [contains_eq_decide, ids_ofImages, decide_eq_false_iff_not]
        exact hNew
      rw [if_neg (by simp [hEmpty, hNew]), put, hOther]
      simp only [ofImages, List.filter_append, hFilled, eraseDups_concat, if_neg hOld,
        List.map_append,
        Bool.false_eq_true, if_false, List.map_singleton]

theorem foldl_putImage (file : Path) (ids : List String) :
    ids.foldl (putImage file) {} = ofImages file ids := by
  induction ids using List.reverseRecOn with
  | nil => rfl
  | append_singleton before id ih =>
    rw [List.foldl_append, ih, List.foldl_cons, List.foldl_nil, putImage_ofImages]

end AssetStore

/-! ## What handlers put into the store -/

/-- The assets that a handler puts are those of the images that it yields. -/
def Handler.Collects (h : Handler) : Prop :=
  ∀ file call stage, (h file call stage).2.assets =
    ((h file call stage).1.flatMap Block.imageIds).foldl (AssetStore.putImage file) stage.assets

namespace Call

theorem collects_pureHandler {blocks : Call → List Block}
    (hNone : ∀ call, (blocks call).flatMap Block.imageIds = []) :
    Handler.Collects (pureHandler blocks) := by
  intro file call stage
  simp only [pureHandler, hNone, List.foldl_nil]

theorem collects_consume : Handler.Collects consume :=
  collects_pureHandler fun _ => rfl

theorem collects_heading (level : Nat) : Handler.Collects (heading level) :=
  collects_pureHandler fun _ => rfl

theorem collects_inlineHandler {inline : Call → Inline}
    (hNone : ∀ call, (inline call).imageIds = []) : Handler.Collects (inlineHandler inline) := by
  apply collects_pureHandler
  intro call
  simp [Block.imageIds, Inline.imageIdsOf, hNone]

theorem imageIds_citation (call : Call) : (citation call).imageIds = [] := by
  simp only [citation]
  split <;> simp [Inline.imageIds]

theorem collects_image : Handler.Collects image := by
  intro file call stage
  simp only [image]
  split <;> rename_i hKnown
  · simp only [List.flatMap_singleton, Block.imageIds, Inline.imageIdsOf, Inline.imageIds,
      List.append_nil, List.foldl_cons, List.foldl_nil, AssetStore.putImage, if_pos hKnown]
  · simp only [List.flatMap_singleton, Block.imageIds, Inline.imageIdsOf, Inline.imageIds,
      List.append_nil, List.foldl_cons, List.foldl_nil, AssetStore.putImage, if_neg hKnown]
    rfl

theorem collects_bibliography : Handler.Collects bibliography :=
  fun _ _ _ => rfl

theorem collects_core : ∀ entry ∈ core, Handler.Collects entry.2 := by
  simp only [core, List.forall_mem_cons]
  exact ⟨collects_consume, collects_consume, collects_pureHandler fun _ => rfl,
    List.forall_mem_nil _⟩

theorem collects_markup : ∀ entry ∈ markup, Handler.Collects entry.2 := by
  simp only [markup, List.forall_mem_cons]
  exact ⟨collects_heading 1, collects_heading 2, collects_heading 3, collects_heading 4,
    collects_heading 5, collects_heading 6, collects_inlineHandler fun _ => rfl,
    collects_inlineHandler fun _ => rfl, collects_inlineHandler fun _ => rfl,
    collects_inlineHandler fun _ => rfl, collects_inlineHandler imageIds_citation, collects_image,
    collects_bibliography, List.forall_mem_nil _⟩

end Call

namespace Registry

def Collects (r : Registry) : Prop :=
  ∀ name h, r.get? name = some h → h.Collects

theorem collects_rendering : rendering.Collects :=
  forall_rendering Call.collects_core Call.collects_markup Call.collects_consume

theorem collects_unknown (policy : UnknownPolicy) : Handler.Collects (unknown policy) := by
  intro file call stage
  have hNone : ((unknown policy file call stage).1.flatMap Block.imageIds) = [] := by
    simp only [unknown]
    split <;> rfl
  rw [hNone, List.foldl_nil, unknown]
  by_cases hReports : policy.reports = true
  · simp only [if_pos hReports]
    rfl
  · simp only [if_neg hReports]

variable {r : Registry} (hCollects : r.Collects) (policy : UnknownPolicy) (file : Path)

include hCollects

theorem assets_renderNode (node : Node) (stage : Stage) :
    (r.renderNode policy file node stage).2.assets =
      ((r.renderNode policy file node stage).1.flatMap Block.imageIds).foldl
        (AssetStore.putImage file) stage.assets := by
  cases node with
  | text value span =>
    simp only [renderNode]
    split <;> rfl
  | literal width content raw span closed => rfl
  | command content raw span closed =>
    simp only [renderNode]
    cases hGet : r.get? (Call.ofContent content span).name with
    | none => exact collects_unknown policy file _ stage
    | some h => exact hCollects _ h hGet file _ stage

theorem assets_renderNodes (nodes : List Node) (stage : Stage) :
    (r.renderNodes policy file nodes stage).2.assets =
      ((r.renderNodes policy file nodes stage).1.flatMap Block.imageIds).foldl
        (AssetStore.putImage file) stage.assets := by
  induction nodes generalizing stage with
  | nil => rfl
  | cons node rest ih =>
    simp only [renderNodes, List.flatMap_append, List.foldl_append,
      ← assets_renderNode hCollects policy file node stage]
    exact ih _

end Registry

namespace Docgen

/-- The assets of a rendered document are those of the images among its blocks. -/
theorem assets_render (settings : Settings) (d : SourceFile) :
    (render .rendering {} settings d).2.assets =
      .ofImages d.file ((render .rendering {} settings d).1.flatMap Block.imageIds) := by
  have hKept : ∀ blocks, ((reflow blocks).map classify).flatMap Block.imageIds =
      blocks.flatMap Block.imageIds := by
    intro blocks
    rw [List.flatMap_map, ← imageIds_reflow blocks]
    exact List.flatMap_congr fun block _ => imageIds_classify block
  simp only [render, Registry.render, hKept]
  rw [Registry.assets_renderNodes Registry.collects_rendering, AssetStore.foldl_putImage]

/-- What the plugin leaves agrees: the store holds one asset for each image that the blocks show,
where the entry sees it. -/
theorem assets_match_images {context : PluginContext} {d : SourceFile}
    (hEntry : context.graph.document? context.entry = some d) (session : Session) :
    ∃ blocks store, (plugin.run context session).2 = none ∧
      (plugin.run context session).1.artifacts = session.artifacts ++
        [⟨"docgen/ir", .blocks blocks, some context.entry⟩,
          ⟨"docgen/assets", .assets store, some context.entry⟩] ∧
      store.ids = ((blocks.flatMap Block.imageIds).filter fun id => !id.isEmpty).eraseDups ∧
      ∀ asset ∈ store.assets,
        (∀ directory, context.entry.parent? = some directory →
          asset.path = some (directory.join ⟨asset.id⟩)) ∧
        (context.entry.parent? = none → asset.path = some ⟨asset.id⟩) := by
  have hFile : d.file = context.entry := by
    simpa [Graph.document?] using List.find?_some hEntry
  have hRun : plugin.run context session = (run .rendering {} context session, none) := rfl
  refine ⟨(render .rendering {} context.settings d).1,
    (render .rendering {} context.settings d).2.assets, ?_, ?_, ?_, ?_⟩
  · rw [hRun]
  · rw [hRun, run, hEntry, ← hFile]
    rfl
  · rw [assets_render, AssetStore.ids_ofImages]
  · rw [assets_render, hFile]
    intro asset hAsset
    obtain ⟨id, -, rfl⟩ := List.mem_map.mp hAsset
    constructor
    · intro directory hDirectory
      simp [AssetStore.imageAsset, Call.assetPath, hDirectory]
    · intro hNone
      simp [AssetStore.imageAsset, Call.assetPath, hNone]

/-- Images with the same id and other texts, one without id, and a blank line between. -/
def pictured : SourceFile :=
  .ofText ⟨"docs/main.sh1"⟩
    "\x7bimage: b.png | one\x7d \n\n \x7bimage\x7d\x7bimage:a.png\x7d \x7bb: x\x7d\x7bimage:b.png|two\x7d"

def picturedContext : PluginContext where
  entry := ⟨"docs/main.sh1"⟩
  graph := ⟨⟨"docs/main.sh1"⟩, [pictured], []⟩
  symbols := {}
  settings := []
  host := .memory ⟨"docs"⟩

theorem assets_match_images_pictured :
    picturedContext.graph.document? picturedContext.entry = some pictured ∧
      ∃ blocks store, (plugin.run picturedContext {}).1.artifacts =
          [⟨"docgen/ir", .blocks blocks, some ⟨"docs/main.sh1"⟩⟩,
            ⟨"docgen/assets", .assets store, some ⟨"docs/main.sh1"⟩⟩] ∧
        blocks.flatMap Block.imageIds = ["b.png", "", "a.png", "b.png"] ∧
        store.ids = ["b.png", "a.png"] ∧
        ∀ asset ∈ store.assets, asset.path = some (Path.join ⟨"docs"⟩ ⟨asset.id⟩) := by
  have hEntry : picturedContext.graph.document? picturedContext.entry = some pictured := rfl
  have hParent : picturedContext.entry.parent? = some ⟨"docs"⟩ := by decide +kernel
  have hImages : (render .rendering {} [] pictured).1.flatMap Block.imageIds =
      ["b.png", "", "a.png", "b.png"] := by
    decide +kernel
  obtain ⟨blocks, store, -, hArtifacts, hIds, hPaths⟩ := assets_match_images hEntry {}
  have hFirst : (plugin.run picturedContext {}).1.artifacts.head? =
      some ⟨"docgen/ir", .blocks (render .rendering {} [] pictured).1,
        some ⟨"docs/main.sh1"⟩⟩ := rfl
  obtain rfl : blocks = (render .rendering {} [] pictured).1 := by
    rw [hArtifacts] at hFirst
    cases hFirst
    rfl
  refine ⟨hEntry, _, store, hArtifacts, hImages, ?_, ?_⟩
  · rw [hIds, hImages]
    decide +kernel
  · intro asset hAsset
    exact (hPaths asset hAsset).1 _ hParent

end Docgen

end BraceDoc
