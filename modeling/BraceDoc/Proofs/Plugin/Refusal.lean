import BraceDoc.Proofs.Plugin.Run

/-!
# Files that a host refuses

`ir-json` sends one text to its targets in order and stops where the host refuses it. All that it
leaves is told by the number of targets before that place: so many files were taken, and one
artifact was added for each of them. A refusal is reported once, and so are blocks that cannot be
written.
-/

set_option autoImplicit false

namespace BraceDoc

theorem Text.length_encode (s : String) : (encode s).length = s.utf8ByteSize := by
  have hLoop : ∀ (bytes : ByteArray) (i : Nat) (done : List UInt8), i ≤ bytes.size →
      (ByteArray.toList.loop bytes i done).length = done.length + (bytes.size - i) := by
    intro bytes i done hi
    fun_induction ByteArray.toList.loop bytes i done with
    | case1 i done hLess ih =>
      rw [ih hLess, List.length_cons]
      omega
    | case2 i done hLess =>
      rw [List.length_reverse]
      omega
  rw [encode, ByteArray.toList, hLoop _ _ _ (Nat.zero_le _)]
  simp [String.toUTF8]

/-! ## The latest blocks -/

theorem Artifact.latestOf?_eq_some_iff {artifacts : List Artifact} {kind : String} {a : Artifact} :
    latestOf? artifacts kind = some a ↔ ∃ earlier later, artifacts = earlier ++ a :: later ∧
      a.kind = kind ∧ ∀ other ∈ later, other.kind ≠ kind := by
  rw [latestOf?, allOf, List.getLast?_eq_some_iff]
  constructor
  · rintro ⟨front, hFront⟩
    obtain ⟨before, behind, rfl, -, hBehind⟩ := List.filter_eq_append_iff.mp hFront
    obtain ⟨between, later, rfl, -, hKind, hLater⟩ := List.filter_eq_cons_iff.mp hBehind
    refine ⟨before ++ between, later, by simp, beq_iff_eq.mp hKind, ?_⟩
    simpa using List.filter_eq_nil_iff.mp hLater
  · rintro ⟨earlier, later, rfl, hKind, hLater⟩
    refine ⟨earlier.filter fun x => x.kind == kind, ?_⟩
    have hNone : (later.filter fun x => x.kind == kind) = [] := by
      rw [List.filter_eq_nil_iff]
      simpa using hLater
    simp [List.filter_append, hKind, hNone]

namespace IrJson

def Latest (artifacts : List Artifact) (blocks : List Block) : Prop :=
  ∃ earlier a later, artifacts = earlier ++ a :: later ∧ a.kind = "docgen/ir" ∧
    (∀ other ∈ later, other.kind ≠ "docgen/ir") ∧ a.data = .blocks blocks

variable {artifacts : List Artifact} {blocks : List Block}

theorem latest_iff : Latest artifacts blocks ↔
    ∃ a, Artifact.latestOf? artifacts Docgen.blocksKind = some a ∧ a.data = .blocks blocks := by
  constructor
  · rintro ⟨earlier, a, later, hSplit, hKind, hLater, hData⟩
    exact ⟨a, Artifact.latestOf?_eq_some_iff.mpr ⟨earlier, later, hSplit, hKind, hLater⟩, hData⟩
  · rintro ⟨a, hLatest, hData⟩
    obtain ⟨earlier, later, hSplit, hKind, hLater⟩ := Artifact.latestOf?_eq_some_iff.mp hLatest
    exact ⟨earlier, a, later, hSplit, hKind, hLater, hData⟩

theorem latestText_of_latest (hLatest : Latest artifacts blocks) :
    latestText artifacts = .ok (Block.documentForm blocks).indented := by
  obtain ⟨a, hLast, hData⟩ := latest_iff.mp hLatest
  simp only [latestText, hLast, hData]

theorem exists_failure_of_no_latest (hNone : ¬ ∃ blocks, Latest artifacts blocks) :
    ∃ failure, latestText artifacts = .error failure := by
  unfold latestText
  split
  · exact ⟨_, rfl⟩
  · rename_i a hLast
    split
    · rename_i blocks hData
      exact absurd ⟨blocks, latest_iff.mpr ⟨a, hLast, hData⟩⟩ hNone
    · exact ⟨_, rfl⟩

/-! ## Targets -/

/-- An item of the outputs asks for a JSON file at `target`, and for no other plugin's. -/
def Asks (item : Json) (target : Path) : Prop :=
  ∃ members, item = .obj members ∧
    (Json.Members.get? "type" members).bind Setting.scalarText? = some "json" ∧
    (Json.Members.get? "path" members).bind Setting.scalarText? = some target.text ∧
    ∀ name, (Json.Members.get? "plugin" members).bind Setting.scalarText? = some name →
      name = "ir-json"

def asked? (item : Json) : Option Path :=
  ((Setting.output? item).filter fun output =>
    output.kind == "json" && output.plugin.all (· == pluginName)).map fun output => ⟨output.path⟩

theorem output?_eq_some_iff {item : Json} {output : Output} :
    Setting.output? item = some output ↔ ∃ members, item = .obj members ∧
      (Json.Members.get? "type" members).bind Setting.scalarText? = some output.kind ∧
      (Json.Members.get? "path" members).bind Setting.scalarText? = some output.path ∧
      (Json.Members.get? "plugin" members).bind Setting.scalarText? = output.plugin := by
  cases item with
  | obj members =>
    obtain ⟨kind, path, plugin⟩ := output
    cases hKind : (Json.Members.get? "type" members).bind Setting.scalarText? with
    | none => simp [Setting.output?, hKind]
    | some otherKind =>
      cases hPath : (Json.Members.get? "path" members).bind Setting.scalarText? with
      | none => simp [Setting.output?, hKind, hPath]
      | some otherPath => simp [Setting.output?, hKind, hPath]
  | _ => simp [Setting.output?]

theorem asked?_eq_some_iff {item : Json} {target : Path} :
    asked? item = some target ↔ Asks item target := by
  simp only [asked?, Option.map_eq_some_iff, Option.filter_eq_some_iff, output?_eq_some_iff,
    Bool.and_eq_true, beq_iff_eq, Option.all_eq_true]
  constructor
  · rintro ⟨output, ⟨⟨members, rfl, hKind, hPath, hPlugin⟩, hJson, hMeant⟩, rfl⟩
    refine ⟨members, rfl, hJson ▸ hKind, hPath, ?_⟩
    intro name hName
    exact hMeant name (hPlugin.symm.trans hName)
  · rintro ⟨members, rfl, hKind, hPath, hMeant⟩
    exact ⟨⟨"json", target.text, _⟩, ⟨⟨members, rfl, hKind, hPath, rfl⟩, rfl, hMeant⟩, rfl⟩

theorem targets_eq (settings : Settings) (entry : Path) :
    targets settings entry =
      let asked := (Setting.itemsOf (Json.Members.get? "outputs" settings)).filterMap asked?
      if asked = [] then [⟨entry.stem ++ ".ir.json"⟩] else asked := by
  have hAsked : (Setting.itemsOf (Json.Members.get? "outputs" settings)).filterMap asked? =
      ((BuildRequest.ofSettings settings).outputsFor "json" pluginName).map fun output =>
        ⟨output.path⟩ := by
    rw [BuildRequest.outputsFor, BuildRequest.ofSettings, List.filter_filterMap, List.map_filterMap]
    rfl
  simp only [hAsked, targets]
  cases (BuildRequest.ofSettings settings).outputsFor "json" pluginName with
  | nil => rfl
  | cons output rest => rw [if_neg (by simp)]

/-! ## Writing up to a refusal -/

section Refusal

variable (host : Host) (bytes : Text.Bytes) (earlier : List Write)

/-- The answer of a host to one of several files, when it has taken those before. -/
def answer? (targets : List Path) (i : Nat) : Option String :=
  targets[i]?.bind fun target =>
    host.refusal (earlier ++ (targets.take i).map fun t => ⟨host.place t, bytes, none⟩)
      (host.place target)

/-- The first `k` files are taken, and the next one is refused, if there is one. -/
structure StopsAt (targets : List Path) (k : Nat) : Prop where
  le : k ≤ targets.length
  taken : ∀ i < k, answer? host bytes earlier targets i = none
  refused : k < targets.length → (answer? host bytes earlier targets k).isSome = true

theorem answer?_succ (target : Path) (rest : List Path) (i : Nat) :
    answer? host bytes earlier (target :: rest) (i + 1) =
      answer? host bytes (earlier ++ [⟨host.place target, bytes, none⟩]) rest i := by
  simp [answer?]

variable {host bytes earlier} in
theorem StopsAt.cons {target : Path} {rest : List Path} {k : Nat}
    (hTaken : answer? host bytes earlier (target :: rest) 0 = none)
    (hRest : StopsAt host bytes (earlier ++ [⟨host.place target, bytes, none⟩]) rest k) :
    StopsAt host bytes earlier (target :: rest) (k + 1) where
  le := Nat.succ_le_succ hRest.le
  taken i hi := by
    cases i with
    | zero => exact hTaken
    | succ i =>
      rw [answer?_succ]
      exact hRest.taken i (by omega)
  refused hLess := by
    rw [answer?_succ]
    exact hRest.refused (Nat.lt_of_succ_lt_succ hLess)

end Refusal

/-- What writing to `targets` leaves when the first `k` files are taken. -/
structure Leaves (context : PluginContext) (text : String) (targets : List Path) (k : Nat)
    (session : Session) (result : Session × Option PluginFailure) : Prop where
  artifacts : result.1.artifacts =
    session.artifacts ++ (targets.take k).map (artifactOf context text)
  writes : result.1.writes =
    session.writes ++ (targets.take k).map (writeOf context text) ++
      (targets[k]?.map fun t =>
        ⟨context.host.place t, Text.encode text,
          answer? context.host (Text.encode text) session.writes targets k⟩).toList
  fails : result.2.isSome = true ↔ k < targets.length

theorem exists_leaves_writeAll (context : PluginContext) (text : String) (targets : List Path)
    (session : Session) :
    ∃ k, StopsAt context.host (Text.encode text) session.writes targets k ∧
      Leaves context text targets k session (writeAll context text targets session) := by
  induction targets generalizing session with
  | nil =>
    refine ⟨0, ⟨Nat.le_refl _, by simp, by simp⟩, ?_⟩
    constructor <;> simp [writeAll]
  | cons target rest ih =>
    have hFirst : answer? context.host (Text.encode text) session.writes (target :: rest) 0 =
        context.host.refusal session.writes (context.host.place target) := by
      simp [answer?]
    cases hRefusal : context.host.refusal session.writes (context.host.place target) with
    | some reason =>
      refine ⟨0, ⟨Nat.zero_le _, by simp, fun _ => ?_⟩, ⟨?_, ?_, ?_⟩⟩
      · rw [hFirst, hRefusal]
        rfl
      · simp [writeAll, Session.write, Host.write, hRefusal]
      · simp [writeAll, Session.write, Host.write, hRefusal, hFirst]
      · simp [writeAll, Session.write, Host.write, hRefusal]
    | none =>
      obtain ⟨k, hStops, hLeaves⟩ := ih { session with
        writes := session.writes ++ [writeOf context text target]
        artifacts := session.artifacts ++ [artifactOf context text target] }
      have hStep : writeAll context text (target :: rest) session =
          writeAll context text rest { session with
            writes := session.writes ++ [writeOf context text target]
            artifacts := session.artifacts ++ [artifactOf context text target] } := by
        simp only [writeAll, Session.write, Host.write, hRefusal, Option.map_none, Session.add]
        rfl
      refine ⟨k + 1, hStops.cons (hFirst.trans hRefusal), ?_⟩
      rw [hStep]
      refine ⟨?_, ?_, ?_⟩
      · simp [hLeaves.artifacts]
      · rw [hLeaves.writes, answer?_succ]
        simp [writeOf]
      · rw [hLeaves.fails]
        simp

/-! ## Accounts -/

def crashReport (failure : Option PluginFailure) : List Diagnostic :=
  (failure.map fun f => (Problem.pluginCrashed pluginName f.reason).located none none).toList

theorem runPlugins_eq_report (context : PluginContext) (session : Session) :
    Session.runPlugins context session [plugin] =
      { (run context session).1 with
        diagnostics := session.diagnostics ++ crashReport (run context session).2 } := by
  have hSame := diagnostics_run context session
  have hRun : plugin.run context session = run context session := rfl
  rw [Session.runPlugins, List.foldl_cons, List.foldl_nil, Session.runPlugin, hRun]
  cases hResult : run context session with
  | mk after failure =>
    rw [hResult] at hSame
    cases failure with
    | none => simp [crashReport, ← hSame]
    | some f =>
      rw [← hSame]
      rfl

theorem exists_crashReport {failure : Option PluginFailure} (hFails : failure.isSome = true) :
    ∃ crash, crashReport failure = [crash] ∧ crash.code = some "E_PLUGIN_CRASH" := by
  obtain ⟨f, rfl⟩ := Option.isSome_iff_exists.mp hFails
  exact ⟨_, rfl, rfl⟩

/-- Whatever the host takes and refuses, the artifacts are those of the files taken, and a crash is
reported just when the blocks cannot be written or a file was refused. -/
theorem runPlugins_accounts (context : PluginContext) (session : Session) :
    let after := Session.runPlugins context session [plugin]
    let targets := targets context.settings context.entry
    (∃ pick : Json → Option Path, (∀ item target, pick item = some target ↔ Asks item target) ∧
      let asked := (Setting.itemsOf (Json.Members.get? "outputs" context.settings)).filterMap pick
      targets = if asked = [] then [⟨context.entry.stem ++ ".ir.json"⟩] else asked) ∧
    ((¬ ∃ blocks, Latest session.artifacts blocks) →
      after.writes = session.writes ∧ after.artifacts = session.artifacts ∧
        ∃ crash, after.diagnostics = session.diagnostics ++ [crash] ∧
          crash.code = some "E_PLUGIN_CRASH") ∧
    ∀ blocks, Latest session.artifacts blocks →
      let bytes := Text.encode (Block.documentForm blocks).indented
      ∃ k, StopsAt context.host bytes session.writes targets k ∧
        after.writes = session.writes ++
          (targets.take k).map (fun t => ⟨context.host.place t, bytes, none⟩) ++
          (targets[k]?.map fun t => ⟨context.host.place t, bytes,
            answer? context.host bytes session.writes targets k⟩).toList ∧
        after.artifacts = session.artifacts ++ (targets.take k).map (fun t =>
          ⟨"file/json", .written (context.host.place t) bytes.length, some context.entry⟩) ∧
        (k = targets.length → after.diagnostics = session.diagnostics) ∧
        (k < targets.length → ∃ crash, after.diagnostics = session.diagnostics ++ [crash] ∧
          crash.code = some "E_PLUGIN_CRASH") := by
  intro after targets
  have hAfter := runPlugins_eq_report context session
  refine ⟨⟨asked?, fun _ _ => asked?_eq_some_iff, targets_eq _ _⟩, ?_, ?_⟩
  · intro hNone
    obtain ⟨failure, hFailure⟩ := exists_failure_of_no_latest hNone
    have hRun : run context session = (session, some failure) := by rw [run, hFailure]
    rw [hRun] at hAfter
    simp only [after, hAfter, true_and]
    exact ⟨_, rfl, rfl⟩
  · intro blocks hLatest bytes
    have hRun : run context session =
        writeAll context (Block.documentForm blocks).indented targets session := by
      rw [run, latestText_of_latest hLatest]
    obtain ⟨k, hStops, hLeaves⟩ :=
      exists_leaves_writeAll context (Block.documentForm blocks).indented targets session
    rw [← hRun] at hLeaves
    simp only [after, hAfter]
    refine ⟨k, hStops, hLeaves.writes, ?_, ?_, ?_⟩
    · rw [hLeaves.artifacts, Text.length_encode]
      rfl
    · intro hAll
      have hNone : (run context session).2 = none := by
        rw [← Option.not_isSome_iff_eq_none, hLeaves.fails]
        omega
      simp [hNone, crashReport]
    · intro hLess
      obtain ⟨crash, hCrash, hCode⟩ := exists_crashReport (hLeaves.fails.mpr hLess)
      exact ⟨crash, by rw [hCrash], hCode⟩

/-- Three JSON outputs among others, on a host that does not take the second. -/
def waryContext : PluginContext where
  entry := ⟨"main.sh1"⟩
  graph := default
  symbols := {}
  settings := [("outputs", .arr
    [.obj [("path", .str "a.json"), ("type", .str "json")], .str "none",
      .obj [("path", .str "b.json"), ("plugin", .str "ir-json"), ("type", .str "json")],
      .obj [("path", .str "b.html"), ("type", .str "html")],
      .obj [("path", .int 3), ("type", .str "json")]])]
  host :=
    { place := Host.placeIn ⟨"out"⟩
      refusal := fun _ path => if path.text = "out/b.json" then some "denied" else none
      fetch := fun _ _ => .error .unsupported }

/-- Blocks between an artifact of the same kind that holds none and one of another kind. -/
def layeredSession : Session where
  artifacts :=
    [⟨"docgen/ir", .text "old", none⟩, ⟨"docgen/ir", .blocks [], none⟩, ⟨"note", .number 1, none⟩]

theorem runPlugins_accounts_wary :
    (¬ ∃ blocks, Latest [] blocks) ∧
      (Session.runPlugins waryContext {} [plugin]).writes = [] ∧
      Latest layeredSession.artifacts [] ∧
      (Session.runPlugins waryContext layeredSession [plugin]).artifacts =
        layeredSession.artifacts ++ [⟨"file/json", .written ⟨"out/a.json"⟩
          (Text.encode (Block.documentForm []).indented).length, some ⟨"main.sh1"⟩⟩] ∧
      ∃ crash, (Session.runPlugins waryContext layeredSession [plugin]).diagnostics = [crash] ∧
        crash.code = some "E_PLUGIN_CRASH" := by
  have hNone : ¬ ∃ blocks, Latest [] blocks := by
    rintro ⟨blocks, earlier, a, later, hSplit, -⟩
    simp at hSplit
  have hLatest : Latest layeredSession.artifacts [] :=
    ⟨[⟨"docgen/ir", .text "old", none⟩], ⟨"docgen/ir", .blocks [], none⟩,
      [⟨"note", .number 1, none⟩],
      rfl, rfl, by decide, rfl⟩
  have hTargets : targets waryContext.settings waryContext.entry =
      [⟨"a.json"⟩, ⟨"b.json"⟩, ⟨"3"⟩] := by
    decide +kernel
  have hPlace : Host.placeIn ⟨"out"⟩ ⟨"a.json"⟩ = ⟨"out/a.json"⟩ ∧
      Host.placeIn ⟨"out"⟩ ⟨"b.json"⟩ = ⟨"out/b.json"⟩ := by
    decide +kernel
  obtain ⟨-, hUnusable, -⟩ := runPlugins_accounts waryContext {}
  obtain ⟨-, -, hUsable⟩ := runPlugins_accounts waryContext layeredSession
  obtain ⟨k, hStops, -, hArtifacts, -, hCrash⟩ := hUsable [] hLatest
  rw [hTargets] at hStops hArtifacts hCrash
  have hFirst := hStops.refused
  have hSecond := hStops.taken 1
  obtain rfl : k = 1 := by
    rcases Nat.lt_trichotomy k 1 with hLess | hSame | hMore
    · obtain rfl : k = 0 := by omega
      simp [answer?, waryContext, hPlace.1] at hFirst
    · exact hSame
    · simp [answer?, waryContext, hPlace.2, hMore] at hSecond
  refine ⟨hNone, (hUnusable hNone).1, hLatest, ?_, hCrash (by decide)⟩
  rw [hArtifacts]
  simp [waryContext, hPlace.1]

end IrJson

end BraceDoc
