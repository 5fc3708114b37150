import BraceDoc.Proofs.Plugin.Plan
import BraceDoc.Proofs.Source.Code

/-!
# Plans over the built-in catalog

Whatever names are asked for, in whatever order and however often, a plan over the built-in catalog
holds each plugin at most once, puts `docgen` before `ir-json`, and never holds `ir-json` alone. Its
warnings are about names that the catalog does not list.
-/

set_option autoImplicit false

namespace BraceDoc

open Diagnostics (Within)

namespace Planning

variable {loader : Loader} {catalog : Catalog} {p q : Planning}

def warningCodes : List String :=
  ["W_PLUGIN_NOT_FOUND", "W_NO_PROVIDER"]

structure Tidy (p : Planning) : Prop where
  nodup : (p.loaded.map (·.1)).Nodup
  within : Within warningCodes p.warnings

theorem Tidy.tries {auto : Bool} {name : String} (hTidy : Tidy p)
    (hTries : Tries loader auto p name q) : Tidy q := by
  cases hTries with
  | known hTried => exact hTidy
  | loaded plugin hNew hLoad =>
    refine ⟨?_, hTidy.within⟩
    rw [List.map_append, List.map_singleton]
    refine hTidy.nodup.append (List.nodup_singleton _) ?_
    rw [List.disjoint_singleton]
    exact fun hOld => hNew (List.mem_append_left _ hOld)
  | failed e hNew hLoad =>
    refine ⟨hTidy.nodup, Diagnostics.within_append.mpr ⟨hTidy.within, ?_⟩⟩
    exact Diagnostics.within_located.mpr List.mem_cons_self

theorem Tidy.noteUnprovided (hTidy : Tidy p) (consumer kind : String) :
    Tidy (p.noteUnprovided consumer kind) := by
  rw [Planning.noteUnprovided]
  split
  · exact hTidy
  · refine ⟨hTidy.nodup, Diagnostics.within_append.mpr ⟨hTidy.within, ?_⟩⟩
    exact Diagnostics.within_located.mpr (List.mem_cons_of_mem _ List.mem_cons_self)

theorem Tidy.provides {need : String × String} (hTidy : Tidy p)
    (hProvides : Provides loader catalog p need q) : Tidy q := by
  cases hProvides with
  | provided hProvided => exact hTidy
  | noted hNone => exact hTidy.noteUnprovided _ _
  | tries hFirst hTries => exact hTidy.tries hTries

theorem Tidy.expand (hTidy : Tidy p) : Tidy (p.expand loader catalog) :=
  expand_invariant (fun _ _ _ _ hProvides hStep => hStep.provides hProvides) hTidy

theorem tidy_empty : Tidy {} :=
  ⟨List.nodup_nil, Diagnostics.within_nil _⟩

theorem extends_foldl_ensure (loader : Loader) (auto : Bool) (p : Planning) (names : List String) :
    Extends p (names.foldl (ensure loader auto) p) := by
  induction names generalizing p with
  | nil => exact .refl p
  | cons name rest ih => exact (tries_ensure loader auto p name).extends.trans (ih _)

theorem mem_tried_foldl_ensure (loader : Loader) (auto : Bool) (p : Planning) {name : String}
    {names : List String} (hName : name ∈ names) :
    name ∈ (names.foldl (ensure loader auto) p).tried := by
  induction names generalizing p with
  | nil => cases hName
  | cons first rest ih =>
    rcases List.mem_cons.mp hName with rfl | hRest
    · exact (extends_foldl_ensure loader auto _ rest).mem_tried
        (tries_ensure loader auto p name).mem_tried
    · exact ih _ hRest

end Planning

namespace Plan

variable (requested : List String) (loader : Loader) (catalog : Catalog)

theorem ordered_make : (make requested loader catalog).ordered =
    (Schedule.order ((planning requested loader catalog).loaded.map (·.2))).1 := rfl

theorem tidy_planning : Planning.Tidy (planning requested loader catalog) := by
  apply Planning.Tidy.expand
  exact List.foldlRecOn requested (Planning.ensure loader false) Planning.tidy_empty
    fun p hTidy name _ => hTidy.tries (Planning.tries_ensure loader false p name)

variable {requested loader} in
/-- A requested plugin that can be loaded is loaded. -/
theorem mem_loaded_of_tried {name : String} {plugin : Plugin}
    (hTried : name ∈ (planning requested loader catalog).tried) (hLoad : loader name = .ok plugin) :
    (name, plugin) ∈ (planning requested loader catalog).loaded := by
  have hFaithful := faithful_planning requested loader catalog
  rcases List.mem_append.mp hTried with hLoaded | hFailed
  · obtain ⟨entry, hEntry, rfl⟩ := List.mem_map.mp hLoaded
    cases hLoad.symm.trans (hFaithful.loaded entry hEntry)
    exact hEntry
  · obtain ⟨-, e, hError⟩ := hFaithful.mem_failed_iff.mp hFailed
    cases hLoad.symm.trans hError

variable {requested} in
theorem mem_tried_of_requested {name : String} (hName : name ∈ requested) :
    name ∈ (planning requested loader catalog).tried :=
  (extends_planning _ _ _).mem_tried (Planning.mem_tried_foldl_ensure loader false {} hName)

end Plan

/-! ## The built-in plugins -/

namespace Catalog

theorem entries_builtin : builtin.entries = [entryOf Docgen.plugin, entryOf IrJson.plugin] := rfl

theorem load_docgen : builtin.load "docgen" = .ok Docgen.plugin := rfl

theorem load_irJson : builtin.load "ir-json" = .ok IrJson.plugin := rfl

theorem load_builtin_iff {name : String} {plugin : Plugin} : builtin.load name = .ok plugin ↔
    name = "docgen" ∧ plugin = Docgen.plugin ∨ name = "ir-json" ∧ plugin = IrJson.plugin := by
  by_cases hDocgen : name = "docgen"
  · subst hDocgen
    rw [load_docgen]
    simpa using eq_comm
  · by_cases hJson : name = "ir-json"
    · subst hJson
      rw [load_irJson]
      simpa using eq_comm
    · have hNone : builtin.lookup? name = none := by
        rw [lookup?, List.find?_eq_none, entries_builtin]
        simp only [List.forall_mem_cons, beq_iff_eq]
        exact ⟨Ne.symm hDocgen, Ne.symm hJson, List.forall_mem_nil _⟩
      rw [load, hNone]
      simp [hDocgen, hJson]

theorem providers_builtin : builtin.providers Docgen.blocksKind = ["docgen"] := rfl

end Catalog

namespace Plan

variable (requested : List String)

/-- What `ir-json` needs is loaded with it. -/
theorem docgen_mem_of_irJson_mem
    (hJson : ("ir-json", IrJson.plugin) ∈
      (planning requested Catalog.builtin.load Catalog.builtin).loaded) :
    ("docgen", Docgen.plugin) ∈
      (planning requested Catalog.builtin.load Catalog.builtin).loaded := by
  have hNeed : ("ir-json", Docgen.blocksKind) ∈
      (planning requested Catalog.builtin.load Catalog.builtin).needs :=
    Planning.mem_needs_iff.mpr ⟨_, hJson, List.mem_cons_self, rfl⟩
  rcases settled_planning requested _ _ _ hNeed with
    hProvided | ⟨hNone, -⟩ | ⟨first, rest, hFirst, hTried⟩
  · obtain ⟨⟨name, plugin⟩, hEntry, hKind⟩ := Planning.isProvided_iff.mp hProvided
    have hLoad := (faithful_planning requested _ _).loaded _ hEntry
    rcases Catalog.load_builtin_iff.mp hLoad with ⟨rfl, rfl⟩ | ⟨rfl, rfl⟩
    · exact hEntry
    · exact absurd hKind (by decide)
  · cases hNone.symm.trans Catalog.providers_builtin
  · cases hFirst.symm.trans Catalog.providers_builtin
    exact mem_loaded_of_tried _ hTried Catalog.load_docgen

/-- The plugins that are loaded, in one of the orders in which they can have been asked for. -/
theorem loaded_builtin_cases :
    (planning requested Catalog.builtin.load Catalog.builtin).loaded.map (·.2) ∈
      [[], [Docgen.plugin], [Docgen.plugin, IrJson.plugin], [IrJson.plugin, Docgen.plugin]] := by
  have hNodup := (tidy_planning requested Catalog.builtin.load Catalog.builtin).nodup.of_map
  have hMem : ∀ entry ∈ (planning requested Catalog.builtin.load Catalog.builtin).loaded,
      entry = ("docgen", Docgen.plugin) ∨ entry = ("ir-json", IrJson.plugin) := by
    rintro ⟨name, plugin⟩ hEntry
    have hLoad := (faithful_planning requested _ _).loaded _ hEntry
    rcases Catalog.load_builtin_iff.mp hLoad with ⟨rfl, rfl⟩ | ⟨rfl, rfl⟩
    · exact Or.inl rfl
    · exact Or.inr rfl
  rcases list_cases_of_nodup hNodup hMem with hNil | hDocgen | hJson | hBoth | hBoth
  · simp [hNil]
  · simp [hDocgen]
  · -- alone it cannot be: what it consumes was seen to
    have hDocgen := docgen_mem_of_irJson_mem requested (by simp [hJson])
    rw [hJson, List.mem_singleton] at hDocgen
    exact absurd (congrArg Prod.fst hDocgen) (by decide)
  · simp [hBoth]
  · simp [hBoth]

theorem order_builtin_cases : ∃ planned ∈ [[], [Docgen.plugin], [Docgen.plugin, IrJson.plugin]],
    Schedule.order ((planning requested Catalog.builtin.load Catalog.builtin).loaded.map (·.2)) =
      (planned, []) := by
  have hLoaded := loaded_builtin_cases requested
  simp only [List.mem_cons, List.not_mem_nil, or_false] at hLoaded
  rcases hLoaded with hNil | hDocgen | hBoth | hSwapped
  · exact ⟨_, by simp, (congrArg Schedule.order hNil).trans rfl⟩
  · exact ⟨[Docgen.plugin], by simp, (congrArg Schedule.order hDocgen).trans rfl⟩
  · exact ⟨[Docgen.plugin, IrJson.plugin], by simp, (congrArg Schedule.order hBoth).trans rfl⟩
  · exact ⟨[Docgen.plugin, IrJson.plugin], by simp, (congrArg Schedule.order hSwapped).trans rfl⟩

theorem ordered_builtin_mem :
    (make requested Catalog.builtin.load Catalog.builtin).ordered ∈
      [[], [Docgen.plugin], [Docgen.plugin, IrJson.plugin]] := by
  obtain ⟨planned, hPlanned, hOrder⟩ := order_builtin_cases requested
  rw [ordered_make, hOrder]
  exact hPlanned

theorem ordered_of_irJson_requested {requested : List String} (hJson : "ir-json" ∈ requested) :
    (make requested Catalog.builtin.load Catalog.builtin).ordered =
      [Docgen.plugin, IrJson.plugin] := by
  have hLoaded := mem_loaded_of_tried Catalog.builtin
    (mem_tried_of_requested Catalog.builtin.load Catalog.builtin hJson) Catalog.load_irJson
  have hOther : IrJson.plugin ≠ Docgen.plugin := fun hSame =>
    absurd (congrArg Plugin.name hSame) (by decide)
  have hPlanned : IrJson.plugin ∈ (make requested Catalog.builtin.load Catalog.builtin).ordered :=
    mem_ordered_iff.mpr ⟨_, hLoaded, rfl⟩
  have hCases := ordered_builtin_mem requested
  simp only [List.mem_cons, List.not_mem_nil, or_false] at hCases
  rcases hCases with hNil | hDocgen | hBoth
  · rw [hNil] at hPlanned
    cases hPlanned
  · rw [hDocgen] at hPlanned
    exact absurd (List.mem_singleton.mp hPlanned) hOther
  · exact hBoth

theorem unprovided_builtin :
    (planning requested Catalog.builtin.load Catalog.builtin).unprovided = [] := by
  have hFaithful := faithful_planning requested Catalog.builtin.load Catalog.builtin
  rw [List.eq_nil_iff_forall_not_mem]
  intro need hNeed
  obtain ⟨hNeeded, hNone⟩ := hFaithful.unprovided need hNeed
  obtain ⟨⟨name, plugin⟩, hEntry, hKind, -⟩ := Planning.mem_needs_iff.mp hNeeded
  rcases Catalog.load_builtin_iff.mp (hFaithful.loaded _ hEntry) with ⟨rfl, rfl⟩ | ⟨rfl, rfl⟩
  · cases hKind
  · rw [List.mem_singleton.mp hKind] at hNone
    cases hNone.symm.trans Catalog.providers_builtin

theorem within_warnings_builtin : Within ["W_PLUGIN_NOT_FOUND"]
    (make requested Catalog.builtin.load Catalog.builtin).warnings := by
  obtain ⟨planned, -, hOrder⟩ := order_builtin_cases requested
  have hNotes := (faithful_planning requested Catalog.builtin.load Catalog.builtin).notes
  rw [unprovided_builtin, List.map_nil] at hNotes
  rw [warnings_make, hOrder, List.append_nil]
  intro d hd code hCode
  have hEither := (tidy_planning requested _ _).within d hd code hCode
  simp only [Planning.warningCodes, List.mem_cons, List.not_mem_nil, or_false] at hEither
  rcases hEither with rfl | rfl
  · exact List.mem_cons_self
  · have hNote : d ∈ Diagnostics.withCode "W_NO_PROVIDER"
        (planning requested Catalog.builtin.load Catalog.builtin).warnings :=
      List.mem_filter.mpr ⟨hd, beq_iff_eq.mpr hCode⟩
    rw [hNotes] at hNote
    cases hNote

end Plan

end BraceDoc
