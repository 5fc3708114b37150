import BraceDoc.Call.Dispatch

/-!
# What handlers read and change

The handlers for rendering read the name and the argument of a call, the settings and the assets,
and they change nothing but the assets. So diagnostics arise only from commands without handler, and
the place of a command in its text has no influence on the blocks. The handler for settings changes
the settings by the clauses it can read and reports the others.
-/

set_option autoImplicit false

namespace BraceDoc

/-- A handler that is told by what it does with names, arguments, settings and assets. -/
def Handler.IsPlain (h : Handler) : Prop :=
  ∃ act : Path → String → Option String → Settings → AssetStore → List Block × AssetStore,
    ∀ file call stage,
      h file call stage = ((act file call.name call.arg stage.settings stage.assets).1,
        { stage with assets := (act file call.name call.arg stage.settings stage.assets).2 })

namespace Call

theorem isPlain_pureHandler {blocks : Call → List Block}
    (hBlocks : ∀ call, blocks call = blocks ⟨call.name, call.arg, "", default⟩) :
    Handler.IsPlain (pureHandler blocks) := by
  refine ⟨fun _ name arg _ assets => (blocks ⟨name, arg, "", default⟩, assets), ?_⟩
  intro file call stage
  rw [pureHandler, hBlocks call]

theorem isPlain_consume : Handler.IsPlain consume :=
  isPlain_pureHandler fun _ => rfl

theorem isPlain_inlineHandler {inline : Call → Inline}
    (hInline : ∀ call, inline call = inline ⟨call.name, call.arg, "", default⟩) :
    Handler.IsPlain (inlineHandler inline) := by
  apply isPlain_pureHandler
  intro call
  rw [hInline call]

theorem isPlain_heading (level : Nat) : Handler.IsPlain (heading level) :=
  isPlain_pureHandler fun _ => rfl

theorem isPlain_image : Handler.IsPlain image := by
  refine ⟨fun file _ arg _ assets =>
    let parts := splitRemark '|' (arg.getD "")
    ([.paragraph [.image parts.1 parts.2]],
      if parts.1.isEmpty || assets.contains parts.1 then assets
      else assets.put
        { id := parts.1
          mime := Asset.mimeOf ⟨parts.1⟩
          path := some (assetPath file parts.1) }), ?_⟩
  intro file call stage
  unfold image argText
  cases hParts : splitRemark '|' (call.arg.getD "") with
  | mk id alt =>
    by_cases hKnown : (id.isEmpty || stage.assets.contains id) = true
    · simp only [hParts, if_pos hKnown]
    · simp only [hParts, if_neg hKnown, Stage.putAsset]

theorem isPlain_bibliography : Handler.IsPlain bibliography :=
  ⟨fun _ _ arg settings assets =>
    ([.bibliography (arg.orElse fun _ => settingText? settings "bibliography.style")
      (settingText? settings "bibliography.title") []], assets), fun _ _ _ => rfl⟩

theorem isPlain_core : ∀ entry ∈ core, Handler.IsPlain entry.2 := by
  simp only [core, List.forall_mem_cons]
  exact ⟨isPlain_consume, isPlain_consume, isPlain_pureHandler fun _ => rfl, List.forall_mem_nil _⟩

theorem isPlain_markup : ∀ entry ∈ markup, Handler.IsPlain entry.2 := by
  simp only [markup, List.forall_mem_cons]
  exact ⟨isPlain_heading 1, isPlain_heading 2, isPlain_heading 3, isPlain_heading 4,
    isPlain_heading 5, isPlain_heading 6, isPlain_inlineHandler fun _ => rfl,
    isPlain_inlineHandler fun _ => rfl, isPlain_inlineHandler fun _ => rfl,
    isPlain_inlineHandler fun _ => rfl, isPlain_inlineHandler fun _ => rfl, isPlain_image,
    isPlain_bibliography, List.forall_mem_nil _⟩

end Call

namespace Registry

/-! ## Registries -/

theorem mem_handlers_registerAll {r : Registry} {entries : List (String × Handler)}
    {entry : String × Handler} (hEntry : entry ∈ (r.registerAll entries).handlers) :
    entry ∈ r.handlers ∨ entry ∈ entries := by
  induction entries generalizing r with
  | nil => exact Or.inl hEntry
  | cons first rest ih =>
    rcases ih (r := r.register first.1 first.2) hEntry with hRegistered | hRest
    · rcases List.mem_cons.mp hRegistered with rfl | hOld
      · exact Or.inr List.mem_cons_self
      · exact Or.inl (List.mem_filter.mp hOld).1
    · exact Or.inr (List.mem_cons_of_mem _ hRest)

theorem mem_handlers_of_get? {r : Registry} {name : String} {h : Handler}
    (hGet : r.get? name = some h) : (name, h) ∈ r.handlers := by
  obtain ⟨before, behind, hHandlers, -⟩ := List.lookup_eq_some_iff.mp hGet
  rw [hHandlers]
  exact List.mem_append_right _ List.mem_cons_self

def IsPlain (r : Registry) : Prop :=
  ∀ name h, r.get? name = some h → h.IsPlain

/-- What holds of all standard handlers holds of every handler for rendering. -/
theorem forall_rendering {P : Handler → Prop} (hCore : ∀ entry ∈ Call.core, P entry.2)
    (hMarkup : ∀ entry ∈ Call.markup, P entry.2) (hConsume : P Call.consume) :
    ∀ name h, rendering.get? name = some h → P h := by
  intro name h hGet
  rcases mem_handlers_registerAll (mem_handlers_of_get? hGet) with hNone | hEntry
  · cases hNone
  · rw [List.mem_append, List.mem_append, List.mem_singleton] at hEntry
    rcases hEntry with (hEntry | hEntry) | hConfig
    · exact hCore _ hEntry
    · exact hMarkup _ hEntry
    · cases hConfig
      exact hConsume

theorem isPlain_rendering : rendering.IsPlain :=
  forall_rendering Call.isPlain_core Call.isPlain_markup Call.isPlain_consume

theorem get?_settingsOnly (name : String) :
    settingsOnly.get? name = if name = "config" then some Call.config else none := by
  change List.lookup name [("config", Call.config)] = _
  rw [List.lookup_cons, List.lookup_nil]
  by_cases hConfig : name = "config"
  · simp [hConfig]
  · simp [hConfig, beq_false_of_ne hConfig]

/-! ## Rendering node by node -/

variable (r : Registry) (policy : UnknownPolicy) (file : Path)

theorem stage_renderNodes (nodes : List Node) (stage : Stage) :
    (r.renderNodes policy file nodes stage).2 =
      nodes.foldl (fun stage node => (r.renderNode policy file node stage).2) stage := by
  induction nodes generalizing stage with
  | nil => rfl
  | cons node rest ih => exact ih _

def unknownReport? : Node → Option Diagnostic
  | .command content _ span _ =>
    if r.has (splitCall content).name then none
    else some ((Problem.unknownCommand (splitCall content).name).located (some file) (some span))
  | _ => none

variable {r}

theorem diagnostics_renderNode (hPlain : r.IsPlain) (node : Node) (stage : Stage) :
    (r.renderNode {} file node stage).2.diagnostics =
      stage.diagnostics ++ (r.unknownReport? file node).toList := by
  cases node with
  | text value span => exact (List.append_nil _).symm
  | literal width content raw span closed => exact (List.append_nil _).symm
  | command content raw span closed =>
    cases hGet : r.get? (splitCall content).name with
    | none =>
      have hHas : r.has (splitCall content).name = false := by rw [has, hGet]; rfl
      simp only [renderNode, Call.ofContent, hGet, unknownReport?, hHas]
      rfl
    | some h =>
      have hHas : r.has (splitCall content).name = true := by rw [has, hGet]; rfl
      obtain ⟨act, hAct⟩ := hPlain _ h hGet
      simp only [renderNode, Call.ofContent, hGet, unknownReport?, hHas, Option.getD_some, hAct,
        if_true, Option.toList_none, List.append_nil]

theorem diagnostics_renderNodes (hPlain : r.IsPlain) (nodes : List Node) (stage : Stage) :
    (r.renderNodes {} file nodes stage).2.diagnostics =
      stage.diagnostics ++ nodes.filterMap (r.unknownReport? file) := by
  rw [stage_renderNodes]
  induction nodes generalizing stage with
  | nil => exact (List.append_nil _).symm
  | cons node rest ih =>
    rw [List.foldl_cons, ih, diagnostics_renderNode file hPlain, List.append_assoc]
    cases hReport : r.unknownReport? file node <;> simp [hReport]

end Registry

/-! ## Settings -/

namespace Node

/-- The clauses of a command for settings; other nodes have none. -/
def clauses : Node → List (Except Setting.ClauseError Setting.Assignment)
  | .command content _ _ _ =>
    if (splitCall content).name = "config" then
      Setting.parse ((splitCall content).arg.getD "")
    else
      []
  | _ => []

def clauseReport? (file : Path) (span : Span) :
    Except Setting.ClauseError Setting.Assignment → Option Diagnostic
  | .ok _ => none
  | .error e => some ((Problem.badSetting e.message).located (some file) (some span))

def assignments (node : Node) : List Setting.Assignment :=
  node.clauses.filterMap Except.toOption

def clauseReports (file : Path) (node : Node) : List Diagnostic :=
  node.clauses.filterMap (clauseReport? file node.span)

theorem foldl_applyClause (file : Path) (span : Span)
    (clauses : List (Except Setting.ClauseError Setting.Assignment)) (stage : Stage) :
    clauses.foldl (Call.applyClause file span) stage =
      { stage with
        settings := (clauses.filterMap Except.toOption).foldl Setting.apply stage.settings
        diagnostics := stage.diagnostics ++ clauses.filterMap (clauseReport? file span) } := by
  induction clauses generalizing stage with
  | nil => simp
  | cons clause rest ih =>
    rw [List.foldl_cons, ih]
    cases clause with
    | ok a => rfl
    | error e =>
      have hNone : (Except.error e :: rest).filterMap Except.toOption =
          rest.filterMap Except.toOption := List.filterMap_cons_none rfl
      rw [hNone]
      simp [Call.applyClause, Stage.report, clauseReport?]

end Node

theorem Registry.stage_renderNode_settingsOnly (file : Path) (node : Node) (stage : Stage) :
    (settingsOnly.renderNode UnknownPolicy.tolerant file node stage).2 =
      node.clauses.foldl (Call.applyClause file node.span) stage := by
  cases node with
  | text value span => rfl
  | literal width content raw span closed => rfl
  | command content raw span closed =>
    simp only [renderNode, Call.ofContent, get?_settingsOnly, Node.clauses]
    by_cases hConfig : (splitCall content).name = "config"
    · simp only [if_pos hConfig, Option.getD_some, Call.config, Call.argText, Node.span]
    · simp only [if_neg hConfig, Option.getD_none, unknown, UnknownPolicy.tolerant,
        Bool.false_eq_true, if_false, List.foldl_nil]

end BraceDoc
