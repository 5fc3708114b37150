import BraceDoc.Lists
import BraceDoc.Proofs.Plugin.Builtin
import BraceDoc.Proofs.Plugin.Stable
import Mathlib.Data.List.Induction

/-!
# Where the plugins of a plan come from

A plan loads the plugins that were asked for, each once and in the order in which they were first
asked for, and behind them providers of kinds that were consumed and not provided when they were
added. All that a plan lacks after that cannot be loaded. So a plan of what was planned adds
nothing, and the schedule stays as it stands.
-/

set_option autoImplicit false

namespace BraceDoc

def Loader.Named (loader : Loader) : Prop :=
  ∀ name plugin, loader name = .ok plugin → plugin.name = name

theorem Catalog.named_load (catalog : Catalog) : Loader.Named catalog.load := by
  intro name plugin hLoad
  unfold load at hLoad
  split at hLoad
  · cases hLoad
  · split at hLoad
    · cases hLoad
    · split at hLoad
      · rename_i hName
        cases hLoad
        exact hName
      · cases hLoad

namespace Planning

variable {loader : Loader} {catalog : Catalog} {p q : Planning}

theorem Tries.mem_tried_iff {auto : Bool} {name other : String}
    (hTries : Tries loader auto p name q) : other ∈ q.tried ↔ other ∈ p.tried ∨ other = name := by
  cases hTries with
  | known hTried =>
    constructor
    · exact Or.inl
    · rintro (hOld | rfl)
      · exact hOld
      · exact hTried
  | loaded =>
    simp only [tried, List.map_append, List.map_singleton, List.mem_append, List.mem_singleton]
    exact or_right_comm
  | failed =>
    simp only [tried, List.mem_append, List.mem_singleton]
    exact or_assoc.symm

/-- Behind the plugins `earlier`, a provider is wanted: it is the first that the catalog lists for a
kind that one of them consumes and none provides. -/
def Wanted (loader : Loader) (catalog : Catalog) (earlier : List String) (name : String) : Prop :=
  ∃ kind, (catalog.providers kind).head? = some name ∧
    (∃ consumer ∈ earlier, ∃ plugin, loader consumer = .ok plugin ∧
      kind ∈ plugin.manifest.consumes) ∧
    ∀ other ∈ earlier, ∀ plugin, loader other = .ok plugin → kind ∉ plugin.manifest.provides

/-- The loaded plugins are those of `asked` and the added ones, and every one of these was
wanted. -/
structure Traced (loader : Loader) (catalog : Catalog) (asked : List String) (p : Planning) :
    Prop where
  loads : ∀ entry ∈ p.loaded, loader entry.1 = .ok entry.2
  names : p.loaded.map (·.1) = asked ++ p.autoAdded
  wanted : ∀ before name behind, p.autoAdded = before ++ name :: behind →
    Wanted loader catalog (asked ++ before) name

variable {asked : List String}

theorem Traced.congr (hTraced : Traced loader catalog asked p) (hLoaded : q.loaded = p.loaded)
    (hAdded : q.autoAdded = p.autoAdded) : Traced loader catalog asked q where
  loads := hLoaded ▸ hTraced.loads
  names := by rw [hLoaded, hAdded, hTraced.names]
  wanted := hAdded ▸ hTraced.wanted

theorem Traced.wanted_of_need (hTraced : Traced loader catalog asked p) {need : String × String}
    (hNeed : need ∈ p.needs) (hMissing : ¬ p.isProvided need.2 = true) {first : String}
    {rest : List String} (hFirst : catalog.providers need.2 = first :: rest) :
    Wanted loader catalog (asked ++ p.autoAdded) first := by
  rw [← hTraced.names]
  refine ⟨need.2, by rw [hFirst, List.head?_cons], ?_, ?_⟩
  · obtain ⟨entry, hEntry, hConsumes, -⟩ := mem_needs_iff.mp hNeed
    exact ⟨entry.1, List.mem_map_of_mem hEntry, entry.2, hTraced.loads entry hEntry, hConsumes⟩
  · intro other hOther plugin hLoad hProvides
    obtain ⟨entry, hEntry, rfl⟩ := List.mem_map.mp hOther
    cases hLoad.symm.trans (hTraced.loads entry hEntry)
    exact hMissing (isProvided_iff.mpr ⟨entry, hEntry, hProvides⟩)

/-- A provider that is wanted is added at the end. -/
theorem Traced.add (hTraced : Traced loader catalog asked p) {first : String} {plugin : Plugin}
    (hLoad : loader first = .ok plugin)
    (hWanted : Wanted loader catalog (asked ++ p.autoAdded) first)
    (hLoaded : q.loaded = p.loaded ++ [(first, plugin)])
    (hAdded : q.autoAdded = p.autoAdded ++ [first]) : Traced loader catalog asked q where
  loads := by
    rw [hLoaded, List.forall_mem_append]
    refine ⟨hTraced.loads, ?_⟩
    simpa using hLoad
  names := by rw [hLoaded, hAdded, List.map_append, hTraced.names, List.append_assoc]; rfl
  wanted before name behind hSplit := by
    rw [hAdded] at hSplit
    -- the last of the added names is the new one, and all others were there before
    rcases List.eq_nil_or_concat behind with rfl | ⟨front, last, rfl⟩
    · obtain ⟨rfl, hName⟩ := List.append_inj' hSplit rfl
      cases hName
      exact hWanted
    · have hFront : p.autoAdded ++ [first] = (before ++ name :: front) ++ [last] := by
        simpa using hSplit
      exact hTraced.wanted before name front (List.append_inj' hFront rfl).1

theorem mem_loaded_iff (hLoads : ∀ entry ∈ p.loaded, loader entry.1 = .ok entry.2)
    {entry : String × Plugin} :
    entry ∈ p.loaded ↔ entry.1 ∈ p.loaded.map (·.1) ∧ loader entry.1 = .ok entry.2 := by
  constructor
  · intro hEntry
    exact ⟨List.mem_map_of_mem hEntry, hLoads entry hEntry⟩
  · rintro ⟨hName, hLoad⟩
    obtain ⟨other, hOther, hSame⟩ := List.mem_map.mp hName
    have hMade := hLoads other hOther
    rw [hSame, hLoad] at hMade
    rwa [Prod.ext hSame.symm (Except.ok.inj hMade)]

theorem autoAdded_noteUnprovided (consumer kind : String) :
    (p.noteUnprovided consumer kind).autoAdded = p.autoAdded := by
  rw [noteUnprovided]
  split <;> rfl

theorem Traced.provides {need : String × String} (hTraced : Traced loader catalog asked p)
    (hNeed : need ∈ p.needs) (hProvides : Provides loader catalog p need q) :
    Traced loader catalog asked q := by
  cases hProvides with
  | provided => exact hTraced
  | noted => exact hTraced.congr (loaded_noteUnprovided _ _) (autoAdded_noteUnprovided _ _)
  | tries hFirst hTries hMissing =>
    cases hTries with
    | known => exact hTraced
    | loaded plugin hNew hLoad =>
      exact hTraced.add hLoad (hTraced.wanted_of_need hNeed hMissing hFirst) rfl rfl
    | failed => exact hTraced.congr rfl rfl

end Planning

namespace Plan

/-- The names that can be loaded, in the order in which they were first asked for. -/
def loadable (requested : List String) (loader : Loader) : List String :=
  (requested.filter fun name => (loader name).isOk).eraseDups

variable (requested : List String) (loader : Loader) (catalog : Catalog)

theorem loadable_concat (before : List String) (name : String) :
    loadable (before ++ [name]) loader =
      if (loader name).isOk = true ∧ name ∉ before then loadable before loader ++ [name]
      else loadable before loader := by
  rw [loadable, List.filter_append]
  by_cases hOk : (loader name).isOk = true
  · have hMem : name ∈ before.filter (fun x => (loader x).isOk) ↔ name ∈ before := by
      simp [hOk]
    have hLast : [name].filter (fun x => (loader x).isOk) = [name] := by simp [hOk]
    rw [hLast, eraseDups_concat]
    by_cases hOld : name ∈ before
    · rw [if_pos (hMem.mpr hOld), if_neg (by simp [hOld]), loadable]
    · rw [if_neg (mt hMem.mp hOld), if_pos ⟨hOk, hOld⟩, loadable]
  · simp [hOk, loadable]

/-- The planning once the requested plugins have been tried. -/
theorem names_asked :
    (asked requested loader).loaded.map (·.1) = loadable requested loader ∧
      (asked requested loader).autoAdded = [] ∧
      ∀ name, name ∈ (asked requested loader).tried ↔ name ∈ requested := by
  induction requested using List.reverseRecOn with
  | nil => exact ⟨rfl, rfl, fun name => Iff.rfl⟩
  | append_singleton before name ih =>
    obtain ⟨hNames, hAdded, hTried⟩ := ih
    have hStep : asked (before ++ [name]) loader =
        (asked before loader).ensure loader false name := by
      simp [asked]
    have hTries := Planning.tries_ensure loader false (asked before loader) name
    rw [hStep, loadable_concat]
    generalize (asked before loader).ensure loader false name = next at hTries ⊢
    refine and_assoc.mp ⟨?_, fun other => ?_⟩
    · cases hTries with
      | known hOld =>
        rw [hTried] at hOld
        exact ⟨by rw [if_neg (by simp [hOld]), hNames], hAdded⟩
      | loaded plugin hNew hLoad =>
        rw [hTried] at hNew
        have hOk : (loader name).isOk = true := by
          rw [hLoad]
          rfl
        exact ⟨by simp [hOk, hNew, hNames], hAdded⟩
      | failed e hNew hLoad =>
        have hOk : ¬ (loader name).isOk = true := by
          rw [hLoad]
          exact Bool.false_ne_true
        exact ⟨by simp [hOk, hNames], hAdded⟩
    · rw [hTries.mem_tried_iff, hTried, List.mem_append, List.mem_singleton]

theorem loads_asked : ∀ entry ∈ (asked requested loader).loaded, loader entry.1 = .ok entry.2 :=
  ((Planning.faithful_empty loader {}).foldl_ensure false requested).loaded

theorem traced_planning : Planning.Traced loader catalog (loadable requested loader)
    (planning requested loader catalog) := by
  obtain ⟨hNames, hAdded, -⟩ := names_asked requested loader
  refine Planning.expand_invariant (fun p need q hNeed hProvides hTraced =>
    hTraced.provides hNeed hProvides) ⟨loads_asked requested loader, ?_, ?_⟩
  · rw [hNames, hAdded, List.append_nil]
  · intro before name behind hSplit
    simp [hAdded] at hSplit

structure Sourced (plan : Plan) : Prop where
  loads : ∀ plugin ∈ plan.ordered, loader plugin.name = .ok plugin
  names : plan.names.Perm (loadable requested loader ++ plan.autoAdded)
  nodup : plan.names.Nodup
  added : ∀ name ∈ plan.autoAdded, name ∉ requested
  wanted : ∀ before name behind, plan.autoAdded = before ++ name :: behind →
    Planning.Wanted loader catalog (loadable requested loader ++ before) name

section Named

variable {loader} (hNamed : Loader.Named loader)

include hNamed

theorem perm_names_make : (make requested loader catalog).names.Perm
    ((planning requested loader catalog).loaded.map (·.1)) := by
  have hNames : ((planning requested loader catalog).loaded.map (·.2)).map Plugin.name =
      (planning requested loader catalog).loaded.map (·.1) := by
    rw [List.map_map]
    apply List.map_congr_left
    intro entry hEntry
    exact hNamed _ _ ((traced_planning requested loader catalog).loads entry hEntry)
  rw [← hNames]
  exact (Schedule.perm_order _).map _

theorem sourced_make : Sourced requested loader catalog (make requested loader catalog) := by
  have hTraced := traced_planning requested loader catalog
  have hPerm := perm_names_make requested catalog hNamed
  have hNodup := (tidy_planning requested loader catalog).nodup
  refine ⟨?_, hTraced.names ▸ hPerm, hPerm.nodup_iff.mpr hNodup, ?_, hTraced.wanted⟩
  · intro plugin hPlugin
    obtain ⟨entry, hEntry, rfl⟩ := mem_ordered_iff.mp hPlugin
    have hLoad := hTraced.loads entry hEntry
    rwa [hNamed _ _ hLoad]
  · intro name hAdded hRequested
    have hLoaded : name ∈ (planning requested loader catalog).loaded.map (·.1) := by
      rw [hTraced.names]
      exact List.mem_append_right _ hAdded
    obtain ⟨entry, hEntry, rfl⟩ := List.mem_map.mp hLoaded
    have hOk : (loader entry.1).isOk = true := by
      rw [hTraced.loads entry hEntry]
      rfl
    have hAsked : entry.1 ∈ loadable requested loader :=
      List.mem_eraseDups.mpr (List.mem_filter.mpr ⟨hRequested, hOk⟩)
    rw [hTraced.names, List.nodup_append] at hNodup
    exact hNodup.2.2 _ hAsked _ hAdded rfl

end Named

/-! ## Planning a plan -/

/-- Plugins that load by their names are what is loaded for these names, in their order. -/
theorem loaded_asked_names {loader : Loader} {plugins : List Plugin}
    (hLoads : ∀ plugin ∈ plugins, loader plugin.name = .ok plugin)
    (hNodup : (plugins.map (·.name)).Nodup) :
    (asked (plugins.map (·.name)) loader).loaded.map (·.1) = plugins.map (·.name) ∧
      (asked (plugins.map (·.name)) loader).loaded.map (·.2) = plugins := by
  have hLoadable : loadable (plugins.map (·.name)) loader = plugins.map (·.name) := by
    rw [loadable, List.filter_eq_self.mpr ?_, eraseDups_of_nodup hNodup]
    rw [List.forall_mem_map]
    intro plugin hPlugin
    rw [hLoads plugin hPlugin]
    rfl
  have hNames := (names_asked (plugins.map (·.name)) loader).1.trans hLoadable
  refine ⟨hNames, ?_⟩
  -- a name determines the plugin
  have hMade : ((asked (plugins.map (·.name)) loader).loaded.map (·.2)).map
      (Except.ok (ε := LoadError)) = plugins.map Except.ok := by
    calc
      _ = ((asked (plugins.map (·.name)) loader).loaded.map (·.1)).map loader := by
        rw [List.map_map, List.map_map]
        apply List.map_congr_left
        intro entry hEntry
        exact (loads_asked _ loader entry hEntry).symm
      _ = (plugins.map (·.name)).map loader := by rw [hNames]
      _ = plugins.map Except.ok := by
        rw [List.map_map]
        exact List.map_congr_left hLoads
  exact List.map_injective_iff.mpr (fun _ _ hSame => Except.ok.inj hSame) hMade

variable {requested loader} in
/-- Where the plugins of a planning are loaded, all that can be provided to them is. -/
theorem loaded_of_provides {p q : Planning} {need : String × String}
    (hSame : ∀ entry, entry ∈ p.loaded ↔ entry ∈ (planning requested loader catalog).loaded)
    (hNeed : need ∈ p.needs) (hProvides : Planning.Provides loader catalog p need q) :
    q.loaded = p.loaded ∧ q.autoAdded = p.autoAdded := by
  cases hProvides with
  | provided => exact ⟨rfl, rfl⟩
  | noted => exact ⟨Planning.loaded_noteUnprovided _ _, Planning.autoAdded_noteUnprovided _ _⟩
  | tries hFirst hTries hMissing =>
    cases hTries with
    | known => exact ⟨rfl, rfl⟩
    | failed => exact ⟨rfl, rfl⟩
    | loaded plugin hNew hLoad =>
      exfalso
      obtain ⟨consumer, hConsumer, hKind⟩ := Planning.mem_needs_iff.mp hNeed
      have hOld : need ∈ (planning requested loader catalog).needs :=
        Planning.mem_needs_iff.mpr ⟨consumer, (hSame _).mp hConsumer, hKind⟩
      rcases settled_planning requested loader catalog need hOld with
        hProvided | ⟨hNone, -⟩ | ⟨first, rest, hProviders, hTried⟩
      · obtain ⟨entry, hEntry, hProvided⟩ := Planning.isProvided_iff.mp hProvided
        exact hMissing (Planning.isProvided_iff.mpr ⟨entry, (hSame _).mpr hEntry, hProvided⟩)
      · cases hNone.symm.trans hFirst
      · cases hProviders.symm.trans hFirst
        have hEntry := (hSame _).mpr (mem_loaded_of_tried catalog hTried hLoad)
        exact hNew (List.mem_append_left _ (List.mem_map_of_mem hEntry))

variable {loader} in
/-- To plan what was planned changes nothing. -/
theorem make_names_make (hNamed : Loader.Named loader) :
    (make (make requested loader catalog).names loader catalog).ordered =
        (make requested loader catalog).ordered ∧
      (make (make requested loader catalog).names loader catalog).autoAdded = [] := by
  have hSourced := sourced_make requested catalog hNamed
  obtain ⟨hNames, hPlugins⟩ := loaded_asked_names hSourced.loads hSourced.nodup
  have hPerm := perm_names_make requested catalog hNamed
  have hSame : ∀ entry, entry ∈ (asked (make requested loader catalog).names loader).loaded ↔
      entry ∈ (planning requested loader catalog).loaded := by
    intro entry
    rw [Planning.mem_loaded_iff (loads_asked _ loader),
      Planning.mem_loaded_iff (faithful_planning requested loader catalog).loaded]
    exact and_congr_left fun _ => hNames ▸ hPerm.mem_iff
  have hKept : (planning (make requested loader catalog).names loader catalog).loaded =
        (asked (make requested loader catalog).names loader).loaded ∧
      (planning (make requested loader catalog).names loader catalog).autoAdded = [] := by
    refine Planning.expand_invariant (p := asked _ loader) (P := fun p => p.loaded =
      (asked (make requested loader catalog).names loader).loaded ∧ p.autoAdded = []) ?_
      ⟨rfl, (names_asked _ loader).2.1⟩
    rintro p need q hNeed hProvides ⟨hLoaded, hAdded⟩
    have hStep := loaded_of_provides catalog (hLoaded ▸ hSame) hNeed hProvides
    exact ⟨hStep.1.trans hLoaded, hStep.2.trans hAdded⟩
  refine ⟨?_, hKept.2⟩
  rw [ordered_make, hKept.1]
  exact (congrArg (fun plugins => (Schedule.order plugins).1) hPlugins).trans
    (congrArg Prod.fst (Schedule.order_order _))

theorem make_provenance : Loader.Named catalog.load ∧ ∀ loader : Loader, Loader.Named loader →
    Sourced requested loader catalog (make requested loader catalog) ∧
      (make (make requested loader catalog).names loader catalog).ordered =
        (make requested loader catalog).ordered ∧
      (make (make requested loader catalog).names loader catalog).autoAdded = [] := by
  refine ⟨catalog.named_load, ?_⟩
  intro loader hNamed
  exact ⟨sourced_make requested catalog hNamed, make_names_make requested catalog hNamed⟩

/-- A reader whose tree has a maker that needs pages, and whose index cannot be had. -/
def library : Catalog where
  entries :=
    [Catalog.entryOf (Schedule.idle ⟨"reader", [], ["tree", "index"]⟩),
      ⟨⟨"torn", ["index"], []⟩, .error (.factory "torn" "no file")⟩,
      Catalog.entryOf (Schedule.idle ⟨"maker", ["tree"], ["page"]⟩),
      Catalog.entryOf (Schedule.idle ⟨"printer", ["page", "tree"], []⟩)]

theorem make_provenance_library :
    (make ["reader", "none", "reader"] library.load library).autoAdded = ["maker", "printer"] ∧
      (make ["reader", "none", "reader"] library.load library).names =
        ["printer", "maker", "reader"] ∧
      Sourced ["reader", "none", "reader"] library.load library
        (make ["reader", "none", "reader"] library.load library) ∧
      (make ["printer", "maker", "reader"] library.load library).names =
        ["printer", "maker", "reader"] ∧
      (make ["printer", "maker", "reader"] library.load library).autoAdded = [] := by
  have hNames : (make ["reader", "none", "reader"] library.load library).names =
      ["printer", "maker", "reader"] := by
    decide +kernel
  obtain ⟨hSourced, hOrdered, hAdded⟩ :=
    (make_provenance ["reader", "none", "reader"] library).2 library.load library.named_load
  rw [hNames] at hOrdered hAdded
  refine ⟨by decide +kernel, hNames, hSourced, ?_, hAdded⟩
  rw [Plan.names, hOrdered]
  exact hNames

end Plan

end BraceDoc
