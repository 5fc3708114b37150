import BraceDoc.Plugin.IrJson
import BraceDoc.Proofs.Call.Handler
import BraceDoc.Proofs.Source.Code

/-!
# Runs of the built-in plugins

`docgen` reports the commands without handler and leaves its artifacts; its other diagnostics are
notes. `ir-json` reports nothing itself. On a host that takes every file it writes the text of the
blocks to each target, and each target then holds that text.
-/

set_option autoImplicit false

namespace BraceDoc

open Diagnostics (Within)

/-! ## Rendering -/

def SourceFile.unknownReports (d : SourceFile) : List Diagnostic :=
  d.document.nodes.filterMap (Registry.rendering.unknownReport? d.file)

namespace Docgen

def notes (d : SourceFile) (blocks : List Block) : List Diagnostic :=
  blocks.filterMap verdictNote? ++
    [.note ("docgen: " ++ toString blocks.length ++ " block(s) from " ++ d.file.text)]

theorem within_notes (d : SourceFile) (blocks : List Block) : Within [] (notes d blocks) := by
  refine Diagnostics.within_append.mpr ⟨?_, Diagnostics.within_note _ _⟩
  intro x hx code hCode
  obtain ⟨block, -, hNote⟩ := List.mem_filterMap.mp hx
  unfold verdictNote? at hNote
  split at hNote
  · cases hNote
    cases hCode
  · cases hNote

def artifacts (context : PluginContext) (d : SourceFile) : List Artifact :=
  [⟨blocksKind, .blocks (render .rendering {} context.settings d).1, some d.file⟩,
    ⟨assetsKind, .assets (render .rendering {} context.settings d).2.assets, some d.file⟩]

theorem diagnostics_render (settings : Settings) (d : SourceFile) :
    (render .rendering {} settings d).2.diagnostics = d.unknownReports :=
  Registry.diagnostics_renderNodes d.file Registry.isPlain_rendering d.document.nodes { settings }

theorem runPlugin_eq {context : PluginContext} {d : SourceFile}
    (hEntry : context.graph.document? context.entry = some d) (session : Session) :
    session.runPlugin context plugin =
      { session with
        diagnostics := session.diagnostics ++
          (d.unknownReports ++ notes d (render .rendering {} context.settings d).1)
        artifacts := session.artifacts ++ artifacts context d } := by
  change run .rendering {} context session = _
  rw [run, hEntry]
  simp only [diagnostics_render, notes, artifacts, List.append_assoc]

end Docgen

/-! ## Writing -/

def Host.Accepts (host : Host) : Prop :=
  ∀ writes path, host.refusal writes path = none

theorem Host.accepts_memory (base : Path) : (memory base).Accepts :=
  fun _ _ => rfl

/-- A path holds what was written to it last, whatever was written before. -/
theorem Host.held?_append {earlier writes : List Write} {path : Path} {bytes : Text.Bytes}
    (hWrites : ∀ w ∈ writes, w.bytes = bytes ∧ w.refusal = none)
    (hPath : ∃ w ∈ writes, w.path = path) : held? (earlier ++ writes) path = some bytes := by
  have hTaken : taken writes = writes := by
    rw [taken, List.filter_eq_self]
    intro w hw
    rw [(hWrites w hw).2]
    rfl
  have hSome : ((taken writes).filter fun w => w.path.same path) ≠ [] := by
    obtain ⟨w, hw, rfl⟩ := hPath
    rw [hTaken]
    refine List.ne_nil_of_mem (List.mem_filter.mpr ⟨hw, ?_⟩)
    simp [Path.same]
  obtain ⟨last, hLast⟩ := Option.ne_none_iff_exists'.mp (mt List.getLast?_eq_none_iff.mp hSome)
  have hMem : last ∈ writes := hTaken ▸ (List.mem_filter.mp (List.mem_of_getLast? hLast)).1
  rw [held?, taken, List.filter_append, List.filter_append, ← taken, ← taken,
    List.getLast?_append, hLast, Option.some_or, Option.map_some, (hWrites last hMem).1]

namespace IrJson

variable (context : PluginContext) (text : String)

def writeOf (target : Path) : Write :=
  ⟨context.host.place target, Text.encode text, none⟩

def artifactOf (target : Path) : Artifact :=
  ⟨fileKind, .written (context.host.place target) text.utf8ByteSize, some context.entry⟩

theorem allOf_files (targets : List Path) (kind : String) :
    Artifact.allOf (targets.map (artifactOf context text)) kind =
      if kind = fileKind then targets.map (artifactOf context text) else [] := by
  by_cases hKind : kind = fileKind
  · rw [if_pos hKind, Artifact.allOf, List.filter_eq_self]
    simp [artifactOf, hKind]
  · rw [if_neg hKind, Artifact.allOf, List.filter_eq_nil_iff]
    simp [artifactOf, Ne.symm hKind]

theorem diagnostics_writeAll (targets : List Path) (session : Session) :
    (writeAll context text targets session).1.diagnostics = session.diagnostics := by
  induction targets generalizing session with
  | nil => rfl
  | cons target rest ih =>
    rw [writeAll]
    cases hWrite : session.write context.host (context.host.place target) (Text.encode text) with
    | mk next refusal =>
      have hNext : next.diagnostics = session.diagnostics := by
        have hSame := congrArg (fun result => result.1.diagnostics) hWrite
        exact hSame.symm
      cases refusal with
      | some e => exact hNext
      | none => exact (ih _).trans hNext

theorem diagnostics_run (session : Session) :
    (run context session).1.diagnostics = session.diagnostics := by
  rw [run]
  split
  · rfl
  · exact diagnostics_writeAll context _ _ session

/-- The plugin reports nothing but its own failure. -/
theorem exists_diagnostics_runPlugin (session : Session) :
    ∃ crash, Within ["E_PLUGIN_CRASH"] crash ∧
      (session.runPlugin context plugin).diagnostics = session.diagnostics ++ crash := by
  have hRun : (plugin.run context session).1.diagnostics = session.diagnostics :=
    diagnostics_run context session
  rw [Session.runPlugin]
  split
  · rename_i next hNone
    refine ⟨[], Diagnostics.within_nil _, ?_⟩
    rw [hNone] at hRun
    rw [List.append_nil, ← hRun]
  · rename_i next failure hSome
    refine ⟨[(Problem.pluginCrashed plugin.name failure.reason).located none none],
      Diagnostics.within_located.mpr List.mem_cons_self, ?_⟩
    rw [hSome] at hRun
    rw [Session.report, ← hRun]

variable {context} in
theorem writeAll_of_accepts (hHost : context.host.Accepts) (targets : List Path)
    (session : Session) :
    writeAll context text targets session =
      ({ session with
        artifacts := session.artifacts ++ targets.map (artifactOf context text)
        writes := session.writes ++ targets.map (writeOf context text) }, none) := by
  induction targets generalizing session with
  | nil => simp [writeAll]
  | cons target rest ih =>
    simp only [writeAll, Session.write, Host.write, hHost _ _, Option.map_none, ih, Session.add,
      List.map_cons, List.append_assoc, List.singleton_append, artifactOf, writeOf]

variable {context text} in
theorem runPlugin_eq (hHost : context.host.Accepts) {session : Session}
    (hText : latestText session.artifacts = .ok text) :
    session.runPlugin context plugin =
      { session with
        artifacts := session.artifacts ++
          (targets context.settings context.entry).map (artifactOf context text)
        writes := session.writes ++
          (targets context.settings context.entry).map (writeOf context text) } := by
  have hRun : plugin.run context session =
      writeAll context text (targets context.settings context.entry) session := by
    change run context session = _
    rw [run, hText]
  rw [Session.runPlugin, hRun, writeAll_of_accepts text hHost]

theorem held?_writes (earlier : List Write) {targets : List Path} {target : Path}
    (hTarget : target ∈ targets) :
    Host.held? (earlier ++ targets.map (writeOf context text)) (context.host.place target) =
      some (Text.encode text) := by
  apply Host.held?_append
  · intro w hw
    obtain ⟨other, -, rfl⟩ := List.mem_map.mp hw
    exact ⟨rfl, rfl⟩
  · exact ⟨_, List.mem_map_of_mem hTarget, rfl⟩

variable {d : SourceFile}

theorem latestText_docgen (earlier : List Artifact) :
    latestText (earlier ++ Docgen.artifacts context d) =
      .ok (Block.documentForm (Docgen.render .rendering {} context.settings d).1).indented := by
  have hLatest : Artifact.latestOf? (earlier ++ Docgen.artifacts context d) Docgen.blocksKind =
      some ⟨Docgen.blocksKind, .blocks (Docgen.render .rendering {} context.settings d).1,
        some d.file⟩ := by
    rw [Artifact.latestOf?, Artifact.allOf, List.filter_append, List.getLast?_append]
    rfl
  rw [latestText, hLatest]

variable {context} in
/-- Both plugins over an empty session. -/
theorem runPlugins_eq (hEntry : context.graph.document? context.entry = some d)
    (hHost : context.host.Accepts) :
    let blocks := (Docgen.render .rendering {} context.settings d).1
    let text := (Block.documentForm blocks).indented
    let targets := targets context.settings context.entry
    Session.runPlugins context {} [Docgen.plugin, plugin] =
      { artifacts := Docgen.artifacts context d ++ targets.map (artifactOf context text)
        diagnostics := d.unknownReports ++ Docgen.notes d blocks
        writes := targets.map (writeOf context text) } := by
  rw [Session.runPlugins, List.foldl_cons, List.foldl_cons, List.foldl_nil,
    Docgen.runPlugin_eq hEntry, runPlugin_eq hHost (latestText_docgen context _)]
  rfl

end IrJson

end BraceDoc
