import BraceDoc.Lists
import BraceDoc.Plugin.Plan
import BraceDoc.Proofs.Plugin.Schedule
import Mathlib.Data.List.Forall2
import Mathlib.Logic.Function.Iterate

/-!
# Plans are complete

A planning only grows: names are tried once, and a need is noted once. A round that tries no further
name has seen to every need of the plugins it started with, and these are all that are loaded. Every
other round tries a further entry of the catalog, so there are at most as many of them as entries.
-/

set_option autoImplicit false

namespace BraceDoc

/-- The entry of the catalog that is picked for a kind has the name that it is picked by. -/
theorem Catalog.exists_entry_of_providers {catalog : Catalog} {kind first : String}
    {rest : List String} (hProviders : catalog.providers kind = first :: rest) :
    ∃ entry ∈ catalog.entries, entry.manifest.name = first := by
  have hFirst : first ∈ catalog.providers kind := by
    rw [hProviders]
    exact List.mem_cons_self
  obtain ⟨entry, hEntry, hName⟩ := List.mem_map.mp hFirst
  exact ⟨entry, (List.mem_filter.mp hEntry).1, hName⟩

namespace Planning

variable {loader : Loader} {catalog : Catalog} {p q : Planning}

def tried (p : Planning) : List String :=
  p.loaded.map (·.1) ++ p.failed

theorem isTried_iff {name : String} : p.isTried name = true ↔ name ∈ p.tried := by
  simp [isTried, tried]

theorem isProvided_iff {kind : String} :
    p.isProvided kind = true ↔ ∃ entry ∈ p.loaded, kind ∈ entry.2.manifest.provides := by
  simp [isProvided]

theorem mem_needs_iff {need : String × String} : need ∈ p.needs ↔
    ∃ entry ∈ p.loaded, need.2 ∈ entry.2.manifest.consumes ∧ entry.2.name = need.1 := by
  rw [needs, List.mem_flatMap]
  refine exists_congr fun entry => and_congr_right fun _ => ?_
  rw [List.mem_map]
  constructor
  · rintro ⟨kind, hKind, rfl⟩
    exact ⟨hKind, rfl⟩
  · rintro ⟨hKind, hName⟩
    exact ⟨need.2, hKind, Prod.ext hName rfl⟩

/-! ## Growth -/

structure Extends (p q : Planning) : Prop where
  loaded : p.loaded <+: q.loaded
  failed : p.failed <+: q.failed
  unprovided : p.unprovided <+: q.unprovided

theorem Extends.refl (p : Planning) : Extends p p :=
  ⟨List.prefix_refl _, List.prefix_refl _, List.prefix_refl _⟩

theorem Extends.trans {r : Planning} (hFirst : Extends p q) (hSecond : Extends q r) : Extends p r :=
  ⟨hFirst.loaded.trans hSecond.loaded, hFirst.failed.trans hSecond.failed,
    hFirst.unprovided.trans hSecond.unprovided⟩

theorem Extends.mem_tried (hExtends : Extends p q) {name : String} (hName : name ∈ p.tried) :
    name ∈ q.tried := by
  rcases List.mem_append.mp hName with hLoaded | hFailed
  · exact List.mem_append_left _ ((hExtends.loaded.map _).subset hLoaded)
  · exact List.mem_append_right _ (hExtends.failed.subset hFailed)

theorem Extends.mem_needs (hExtends : Extends p q) {need : String × String}
    (hNeed : need ∈ p.needs) : need ∈ q.needs := by
  obtain ⟨entry, hEntry, hKind⟩ := mem_needs_iff.mp hNeed
  exact mem_needs_iff.mpr ⟨entry, hExtends.loaded.subset hEntry, hKind⟩

/-- A planning that tried nothing further has loaded nothing further. -/
theorem Extends.loaded_eq_of_tried (hExtends : Extends p q) (hTried : q.tried = p.tried) :
    q.loaded = p.loaded := by
  have hLength := congrArg List.length hTried
  have hLoaded := hExtends.loaded.length_le
  have hFailed := hExtends.failed.length_le
  simp only [tried, List.length_append, List.length_map] at hLength
  exact (hExtends.loaded.eq_of_length (by omega)).symm

/-! ## Steps -/

inductive Tries (loader : Loader) (auto : Bool) (p : Planning) (name : String) : Planning → Prop
  | known (hTried : name ∈ p.tried) : Tries loader auto p name p
  | loaded (plugin : Plugin) (hNew : name ∉ p.tried) (hLoad : loader name = .ok plugin) :
      Tries loader auto p name
        { p with
          loaded := p.loaded ++ [(name, plugin)]
          autoAdded := if auto then p.autoAdded ++ [name] else p.autoAdded }
  | failed (e : LoadError) (hNew : name ∉ p.tried) (hLoad : loader name = .error e) :
      Tries loader auto p name
        { p with
          failed := p.failed ++ [name]
          warnings := p.warnings ++ [(Problem.pluginNotLoaded name e.message).located none none] }

theorem tries_ensure (loader : Loader) (auto : Bool) (p : Planning) (name : String) :
    Tries loader auto p name (p.ensure loader auto name) := by
  rw [ensure]
  split
  · rename_i hTried
    exact .known (isTried_iff.mp hTried)
  · rename_i hTried
    have hNew := mt isTried_iff.mpr hTried
    split
    · rename_i plugin hLoad
      exact .loaded plugin hNew hLoad
    · rename_i e hLoad
      exact .failed e hNew hLoad

theorem Tries.extends {auto : Bool} {name : String} (hTries : Tries loader auto p name q) :
    Extends p q := by
  cases hTries with
  | known => exact .refl p
  | loaded => exact ⟨List.prefix_append _ _, List.prefix_refl _, List.prefix_refl _⟩
  | failed => exact ⟨List.prefix_refl _, List.prefix_append _ _, List.prefix_refl _⟩

theorem Tries.mem_tried {auto : Bool} {name : String} (hTries : Tries loader auto p name q) :
    name ∈ q.tried := by
  cases hTries with
  | known hTried => exact hTried
  | loaded => simp [tried]
  | failed => simp [tried]

theorem loaded_noteUnprovided (consumer kind : String) :
    (p.noteUnprovided consumer kind).loaded = p.loaded := by
  rw [noteUnprovided]
  split <;> rfl

theorem failed_noteUnprovided (consumer kind : String) :
    (p.noteUnprovided consumer kind).failed = p.failed := by
  rw [noteUnprovided]
  split <;> rfl

theorem extends_noteUnprovided (consumer kind : String) :
    Extends p (p.noteUnprovided consumer kind) := by
  rw [noteUnprovided]
  split
  · exact .refl p
  · exact ⟨List.prefix_refl _, List.prefix_refl _, List.prefix_append _ _⟩

theorem mem_unprovided_noteUnprovided (consumer kind : String) :
    (consumer, kind) ∈ (p.noteUnprovided consumer kind).unprovided := by
  rw [noteUnprovided]
  split
  · rename_i hNoted
    exact List.contains_iff_mem.mp hNoted
  · exact List.mem_append_right _ List.mem_cons_self

inductive Provides (loader : Loader) (catalog : Catalog) (p : Planning) (need : String × String) :
    Planning → Prop
  | provided (hProvided : p.isProvided need.2 = true) : Provides loader catalog p need p
  | noted (hNone : catalog.providers need.2 = []) :
      Provides loader catalog p need (p.noteUnprovided need.1 need.2)
  | tries {first : String} {rest : List String} {q : Planning}
      (hFirst : catalog.providers need.2 = first :: rest) (hTries : Tries loader true p first q)
      (hMissing : ¬ p.isProvided need.2 = true) : Provides loader catalog p need q

theorem provides_provide (loader : Loader) (catalog : Catalog) (p : Planning)
    (need : String × String) :
    Provides loader catalog p need (p.provide loader catalog need) := by
  rw [provide]
  split
  · rename_i hProvided
    exact .provided hProvided
  · rename_i hMissing
    split
    · rename_i hNone
      exact .noted hNone
    · rename_i first rest hFirst
      exact .tries hFirst (tries_ensure loader true p first) hMissing

theorem Provides.extends {need : String × String} (hProvides : Provides loader catalog p need q) :
    Extends p q := by
  cases hProvides with
  | provided => exact .refl p
  | noted => exact extends_noteUnprovided _ _
  | tries _ hTries => exact hTries.extends

/-- What every step for a need keeps holds behind all rounds. -/
theorem expand_invariant {P : Planning → Prop}
    (hStep : ∀ p need q, need ∈ p.needs → Provides loader catalog p need q → P p → P q)
    (hp : P p) : P (p.expand loader catalog) := by
  have hFold : ∀ (needs : List (String × String)) (p : Planning), (∀ need ∈ needs, need ∈ p.needs) →
      P p → P (needs.foldl (provide loader catalog) p) := by
    intro needs
    induction needs with
    | nil => exact fun _ _ hp => hp
    | cons need rest ih =>
      intro p hNeeds hp
      have hProvides := provides_provide loader catalog p need
      refine ih _ ?_ (hStep p need _ (hNeeds need List.mem_cons_self) hProvides hp)
      exact fun other hOther =>
        hProvides.extends.mem_needs (hNeeds other (List.mem_cons_of_mem _ hOther))
  induction p using expand.induct loader catalog with
  | case1 p next hLess ih =>
    rw [expand, if_pos hLess]
    exact ih (hFold p.needs p (fun _ hNeed => hNeed) hp)
  | case2 p next hLess =>
    rw [expand, if_neg hLess]
    exact hFold p.needs p (fun _ hNeed => hNeed) hp

/-- Only entries of the catalog are tried. -/
theorem Provides.tried_cases {need : String × String}
    (hProvides : Provides loader catalog p need q) :
    q.tried = p.tried ∨
      ∃ entry ∈ catalog.entries, entry.manifest.name ∉ p.tried ∧ entry.manifest.name ∈ q.tried := by
  cases hProvides with
  | provided => exact Or.inl rfl
  | noted =>
    rw [tried, loaded_noteUnprovided, failed_noteUnprovided]
    exact Or.inl rfl
  | tries hFirst hTries =>
    obtain ⟨entry, hEntry, rfl⟩ := Catalog.exists_entry_of_providers hFirst
    by_cases hTried : entry.manifest.name ∈ p.tried
    · cases hTries with
      | known => exact Or.inl rfl
      | loaded _ hNew => exact absurd hTried hNew
      | failed _ hNew => exact absurd hTried hNew
    · exact Or.inr ⟨entry, hEntry, hTried, hTries.mem_tried⟩

/-! ## Rounds -/

theorem extends_foldl_provide (loader : Loader) (catalog : Catalog) (p : Planning)
    (needs : List (String × String)) :
    Extends p (needs.foldl (provide loader catalog) p) := by
  induction needs generalizing p with
  | nil => exact .refl p
  | cons need rest ih => exact (provides_provide loader catalog p need).extends.trans (ih _)

theorem tried_foldl_provide_cases (loader : Loader) (catalog : Catalog) (p : Planning)
    (needs : List (String × String)) :
    (needs.foldl (provide loader catalog) p).tried = p.tried ∨
      ∃ entry ∈ catalog.entries, entry.manifest.name ∉ p.tried ∧
        entry.manifest.name ∈ (needs.foldl (provide loader catalog) p).tried := by
  induction needs generalizing p with
  | nil => exact Or.inl rfl
  | cons need rest ih =>
    rw [List.foldl_cons]
    have hRest := extends_foldl_provide loader catalog (p.provide loader catalog need) rest
    rcases (provides_provide loader catalog p need).tried_cases with
      hSame | ⟨entry, hEntry, hNew, hTried⟩
    · rw [← hSame]
      exact ih _
    · exact Or.inr ⟨entry, hEntry, hNew, hRest.mem_tried hTried⟩

/-- A round tries something just when it leaves fewer entries of the catalog untried. -/
theorem tried_round_eq_iff (loader : Loader) (catalog : Catalog) (p : Planning) :
    (p.round loader catalog).tried = p.tried ↔
      ¬ (p.round loader catalog).untried catalog < p.untried catalog := by
  constructor
  · intro hSame hLess
    have hEqual : (p.round loader catalog).untried catalog = p.untried catalog := by
      apply List.countP_congr
      intro entry _
      simp only [Bool.not_eq_true', ← Bool.not_eq_true, isTried_iff, hSame]
    omega
  · intro hLess
    refine (tried_foldl_provide_cases loader catalog p p.needs).resolve_right ?_
    rintro ⟨entry, hEntry, hNew, hTried⟩
    refine hLess (countP_lt_of_mem ?_ hEntry ?_ ?_)
    · intro other hOther
      simp only [Bool.not_eq_true', ← Bool.not_eq_true, isTried_iff] at hOther ⊢
      exact fun hOld => hOther ((extends_foldl_provide loader catalog p p.needs).mem_tried hOld)
    · rw [Bool.not_eq_false', isTried_iff]
      exact hTried
    · rw [Bool.not_eq_true', ← Bool.not_eq_true, isTried_iff]
      exact hNew

theorem expand_of_tried {p : Planning} (hSame : (p.round loader catalog).tried = p.tried) :
    p.expand loader catalog = p.round loader catalog := by
  rw [expand, if_neg ((tried_round_eq_iff loader catalog p).mp hSame)]

/-- The rounds that `expand` takes: all but the last try something, and each of these takes an entry
off the catalog. -/
theorem exists_rounds (loader : Loader) (catalog : Catalog) (p : Planning) :
    ∃ rounds ≤ p.untried catalog,
      p.expand loader catalog = (round loader catalog)^[rounds + 1] p ∧
      ∀ i ≤ rounds, ((round loader catalog)^[i + 1] p).tried =
        ((round loader catalog)^[i] p).tried ↔ i = rounds := by
  induction p using expand.induct loader catalog with
  | case1 p next hLess ih =>
    obtain ⟨rounds, hBound, hExpand, hLast⟩ := ih
    refine ⟨rounds + 1, by omega, ?_, ?_⟩
    · rw [expand, if_pos hLess, Function.iterate_succ_apply]
      exact hExpand
    · intro i hi
      cases i with
      | zero =>
        have hChanged := mt (tried_round_eq_iff loader catalog p).mp (not_not.mpr hLess)
        exact ⟨fun hSame => absurd hSame hChanged, fun hZero => by cases hZero⟩
      | succ i =>
        rw [Function.iterate_succ_apply _ (i + 1) p, Function.iterate_succ_apply _ i p,
          Nat.add_right_cancel_iff]
        exact hLast i (by omega)
  | case2 p next hLess =>
    have hSame := (tried_round_eq_iff loader catalog p).mpr hLess
    refine ⟨0, Nat.zero_le _, expand_of_tried hSame, ?_⟩
    intro i hi
    obtain rfl : i = 0 := by omega
    exact ⟨fun _ => rfl, fun _ => hSame⟩

theorem extends_rounds (loader : Loader) (catalog : Catalog) (p : Planning) (rounds : Nat) :
    Extends p ((round loader catalog)^[rounds] p) := by
  induction rounds generalizing p with
  | zero => exact .refl p
  | succ rounds ih => exact (extends_foldl_provide loader catalog p p.needs).trans (ih _)

/-- A need that a plugin provides, that is noted, or whose provider in the catalog has been
tried. -/
def Settled (catalog : Catalog) (p : Planning) (need : String × String) : Prop :=
  p.isProvided need.2 = true ∨ (catalog.providers need.2 = [] ∧ need ∈ p.unprovided) ∨
    ∃ first rest, catalog.providers need.2 = first :: rest ∧ first ∈ p.tried

theorem Settled.extends {need : String × String} (hSettled : Settled catalog p need)
    (hExtends : Extends p q) : Settled catalog q need := by
  rcases hSettled with hProvided | ⟨hNone, hNoted⟩ | ⟨first, rest, hFirst, hTried⟩
  · obtain ⟨entry, hEntry, hKind⟩ := isProvided_iff.mp hProvided
    exact Or.inl (isProvided_iff.mpr ⟨entry, hExtends.loaded.subset hEntry, hKind⟩)
  · exact Or.inr (Or.inl ⟨hNone, hExtends.unprovided.subset hNoted⟩)
  · exact Or.inr (Or.inr ⟨first, rest, hFirst, hExtends.mem_tried hTried⟩)

theorem Provides.settled {need : String × String} (hProvides : Provides loader catalog p need q) :
    Settled catalog q need := by
  cases hProvides with
  | provided hProvided => exact Or.inl hProvided
  | noted hNone => exact Or.inr (Or.inl ⟨hNone, mem_unprovided_noteUnprovided _ _⟩)
  | tries hFirst hTries => exact Or.inr (Or.inr ⟨_, _, hFirst, hTries.mem_tried⟩)

theorem settled_foldl_provide (loader : Loader) (catalog : Catalog) (p : Planning)
    (needs : List (String × String)) :
    ∀ need ∈ needs, Settled catalog (needs.foldl (provide loader catalog) p) need := by
  induction needs generalizing p with
  | nil =>
    intro need hNeed
    cases hNeed
  | cons first rest ih =>
    intro need hNeed
    rw [List.foldl_cons]
    rcases List.mem_cons.mp hNeed with rfl | hRest
    · exact (provides_provide loader catalog p need).settled.extends
        (extends_foldl_provide loader catalog _ rest)
    · exact ih _ need hRest

/-- Where a round tries nothing, it has seen to all needs there are. -/
theorem settled_round (hSame : (p.round loader catalog).tried = p.tried) :
    ∀ need ∈ (p.round loader catalog).needs, Settled catalog (p.round loader catalog) need := by
  have hLoaded := (extends_foldl_provide loader catalog p p.needs).loaded_eq_of_tried hSame
  have hNeeds : (p.round loader catalog).needs = p.needs := by
    rw [needs, needs]
    exact congrArg _ hLoaded
  rw [hNeeds]
  exact settled_foldl_provide loader catalog p p.needs

/-! ## Warnings -/

def NotLoaded (loader : Loader) (name : String) (d : Diagnostic) : Prop :=
  ∃ e, loader name = .error e ∧ d = (Problem.pluginNotLoaded name e.message).located none none

def noProviderWarning (need : String × String) : Diagnostic :=
  (Problem.noProvider need.2 need.1).located none none

/-- The records of a planning agree with the loader, the catalog and the warnings. -/
structure Faithful (loader : Loader) (catalog : Catalog) (p : Planning) : Prop where
  loaded : ∀ entry ∈ p.loaded, loader entry.1 = .ok entry.2
  failed_nodup : p.failed.Nodup
  failures : List.Forall₂ (NotLoaded loader) p.failed
    (Diagnostics.withCode "W_PLUGIN_NOT_FOUND" p.warnings)
  unprovided_nodup : p.unprovided.Nodup
  unprovided : ∀ need ∈ p.unprovided, need ∈ p.needs ∧ catalog.providers need.2 = []
  notes : Diagnostics.withCode "W_NO_PROVIDER" p.warnings = p.unprovided.map noProviderWarning

theorem faithful_empty (loader : Loader) (catalog : Catalog) : Faithful loader catalog {} := by
  refine ⟨?_, .nil, .nil, .nil, ?_, rfl⟩
  · intro entry hEntry
    cases hEntry
  · intro need hNeed
    cases hNeed

theorem Faithful.tries {auto : Bool} {name : String} (hFaithful : Faithful loader catalog p)
    (hTries : Tries loader auto p name q) : Faithful loader catalog q := by
  have hNoted : ∀ need ∈ p.unprovided, need ∈ q.needs ∧ catalog.providers need.2 = [] :=
    fun need hNeed => (hFaithful.unprovided need hNeed).imp_left hTries.extends.mem_needs
  cases hTries with
  | known => exact hFaithful
  | loaded plugin hNew hLoad =>
    refine ⟨?_, hFaithful.failed_nodup, hFaithful.failures, hFaithful.unprovided_nodup, hNoted,
      hFaithful.notes⟩
    intro entry hEntry
    rcases List.mem_append.mp hEntry with hOld | hLast
    · exact hFaithful.loaded entry hOld
    · rw [List.mem_singleton.mp hLast]
      exact hLoad
  | failed e hNew hLoad =>
    refine ⟨hFaithful.loaded, ?_, ?_, hFaithful.unprovided_nodup, hNoted, ?_⟩
    · refine hFaithful.failed_nodup.append (List.nodup_singleton _) ?_
      rw [List.disjoint_singleton]
      exact fun hOld => hNew (List.mem_append_right _ hOld)
    · rw [Diagnostics.withCode_append]
      exact List.rel_append hFaithful.failures (.cons ⟨e, hLoad, rfl⟩ .nil)
    · rw [Diagnostics.withCode_append, hFaithful.notes]
      exact List.append_nil _

theorem Faithful.noteUnprovided {need : String × String} (hFaithful : Faithful loader catalog p)
    (hNeed : need ∈ p.needs) (hNone : catalog.providers need.2 = []) :
    Faithful loader catalog (p.noteUnprovided need.1 need.2) := by
  rw [Planning.noteUnprovided]
  split
  · exact hFaithful
  · rename_i hNew
    refine ⟨hFaithful.loaded, hFaithful.failed_nodup, ?_, ?_, ?_, ?_⟩
    · have hOther : Diagnostics.withCode "W_PLUGIN_NOT_FOUND" [noProviderWarning need] = [] := rfl
      rw [Diagnostics.withCode_append]
      exact (List.append_nil _).symm ▸ hOther ▸ hFaithful.failures
    · refine hFaithful.unprovided_nodup.append (List.nodup_singleton _) ?_
      rw [List.disjoint_singleton]
      exact fun hOld => hNew (List.contains_iff_mem.mpr hOld)
    · intro other hOther
      rcases List.mem_append.mp hOther with hOld | hLast
      · exact hFaithful.unprovided other hOld
      · rw [List.mem_singleton.mp hLast]
        exact ⟨hNeed, hNone⟩
    · rw [Diagnostics.withCode_append, hFaithful.notes, List.map_append]
      rfl

theorem Faithful.provides {need : String × String} (hFaithful : Faithful loader catalog p)
    (hNeed : need ∈ p.needs) (hProvides : Provides loader catalog p need q) :
    Faithful loader catalog q := by
  cases hProvides with
  | provided => exact hFaithful
  | noted hNone => exact hFaithful.noteUnprovided hNeed hNone
  | tries hFirst hTries => exact hFaithful.tries hTries

theorem Faithful.foldl_provide (hFaithful : Faithful loader catalog p)
    {needs : List (String × String)} (hNeeds : ∀ need ∈ needs, need ∈ p.needs) :
    Faithful loader catalog (needs.foldl (provide loader catalog) p) := by
  induction needs generalizing p with
  | nil => exact hFaithful
  | cons need rest ih =>
    have hProvides := provides_provide loader catalog p need
    refine ih (hFaithful.provides (hNeeds need List.mem_cons_self) hProvides) ?_
    intro other hOther
    exact hProvides.extends.mem_needs (hNeeds other (List.mem_cons_of_mem _ hOther))

theorem Faithful.rounds (hFaithful : Faithful loader catalog p) (rounds : Nat) :
    Faithful loader catalog ((round loader catalog)^[rounds] p) := by
  induction rounds generalizing p with
  | zero => exact hFaithful
  | succ rounds ih => exact ih (hFaithful.foldl_provide fun _ hNeed => hNeed)

theorem Faithful.foldl_ensure (hFaithful : Faithful loader catalog p) (auto : Bool)
    (names : List String) : Faithful loader catalog (names.foldl (ensure loader auto) p) := by
  induction names generalizing p with
  | nil => exact hFaithful
  | cons name rest ih => exact ih (hFaithful.tries (tries_ensure loader auto p name))

theorem Faithful.exists_warning (hFaithful : Faithful loader catalog p) {name : String}
    (hFailed : name ∈ p.failed) :
    ∃ d ∈ Diagnostics.withCode "W_PLUGIN_NOT_FOUND" p.warnings, NotLoaded loader name d := by
  have hFailures := hFaithful.failures
  generalize p.failed = names at hFailures hFailed
  generalize Diagnostics.withCode "W_PLUGIN_NOT_FOUND" p.warnings = ds at hFailures ⊢
  induction hFailures with
  | nil => cases hFailed
  | @cons first d rest ds hFirst _ ih =>
    rcases List.mem_cons.mp hFailed with rfl | hRest
    · exact ⟨d, List.mem_cons_self, hFirst⟩
    · obtain ⟨other, hOther, hNotLoaded⟩ := ih hRest
      exact ⟨other, List.mem_cons_of_mem _ hOther, hNotLoaded⟩

/-- Of the names that were tried, those failed that the loader refuses. -/
theorem Faithful.mem_failed_iff (hFaithful : Faithful loader catalog p) {name : String} :
    name ∈ p.failed ↔ name ∈ p.tried ∧ ∃ e, loader name = .error e := by
  constructor
  · intro hFailed
    obtain ⟨d, -, e, hLoad, -⟩ := hFaithful.exists_warning hFailed
    exact ⟨List.mem_append_right _ hFailed, e, hLoad⟩
  · rintro ⟨hTried, e, hLoad⟩
    rcases List.mem_append.mp hTried with hLoaded | hFailed
    · obtain ⟨entry, hEntry, rfl⟩ := List.mem_map.mp hLoaded
      cases hLoad.symm.trans (hFaithful.loaded entry hEntry)
    · exact hFailed

end Planning

namespace Plan

/-- The planning once the requested plugins have been tried. -/
def asked (requested : List String) (loader : Loader) : Planning :=
  requested.foldl (Planning.ensure loader false) {}

def planning (requested : List String) (loader : Loader) (catalog : Catalog) : Planning :=
  (asked requested loader).expand loader catalog

variable {requested : List String} {loader : Loader} {catalog : Catalog}

theorem mem_ordered_iff {plugin : Plugin} : plugin ∈ (make requested loader catalog).ordered ↔
    ∃ entry ∈ (planning requested loader catalog).loaded, entry.2 = plugin :=
  (Schedule.perm_order _).mem_iff.trans List.mem_map

theorem warnings_make : (make requested loader catalog).warnings =
    (planning requested loader catalog).warnings ++
      (Schedule.order ((planning requested loader catalog).loaded.map (·.2))).2 :=
  rfl

/-- The scheduling adds no warning but the one of a cycle. -/
theorem withCode_make {code : String} (hCode : code ≠ "W_PLUGIN_CYCLE") :
    Diagnostics.withCode code (make requested loader catalog).warnings =
      Diagnostics.withCode code (planning requested loader catalog).warnings := by
  have hOther : Diagnostics.withCode code
      (Schedule.order ((planning requested loader catalog).loaded.map (·.2))).2 = [] := by
    apply Diagnostics.withCode_eq_nil
    intro d hd
    rw [Schedule.order] at hd
    split at hd
    · cases hd
    · rw [List.mem_singleton.mp hd]
      exact fun hSame => hCode (Option.some.inj hSame).symm
  rw [warnings_make, Diagnostics.withCode_append, hOther, List.append_nil]

theorem mem_warnings_of_withCode (code : String) {d : Diagnostic}
    (hd : d ∈ Diagnostics.withCode code (planning requested loader catalog).warnings) :
    d ∈ (make requested loader catalog).warnings := by
  rw [warnings_make]
  exact List.mem_append_left _ (List.mem_filter.mp hd).1

/-- How a plan answers the need of a plugin for a kind. -/
inductive Answers (loader : Loader) (catalog : Catalog) (plan : Plan)
    (consumer kind : String) : Prop
  | provided (provider : Plugin) (hPlanned : provider ∈ plan.ordered)
      (hKind : kind ∈ provider.manifest.provides)
  | unknown (hNone : catalog.providers kind = [])
      (hWarning : Planning.noProviderWarning (consumer, kind) ∈ plan.warnings)
  | notLoaded (first : String) (warning : Diagnostic)
      (hFirst : (catalog.providers kind).head? = some first)
      (hWarning : warning ∈ plan.warnings) (hFails : Planning.NotLoaded loader first warning)
  | unlisted (first : String) (provider : Plugin)
      (hFirst : (catalog.providers kind).head? = some first)
      (hLoad : loader first = .ok provider) (hPlanned : provider ∈ plan.ordered)
      (hKind : kind ∉ provider.manifest.provides)

theorem answers_of_settled {consumer kind : String}
    (hFaithful : Planning.Faithful loader catalog (planning requested loader catalog))
    (hSettled : Planning.Settled catalog (planning requested loader catalog) (consumer, kind)) :
    Answers loader catalog (make requested loader catalog) consumer kind := by
  rcases hSettled with hProvided | ⟨hNone, hNoted⟩ | ⟨first, rest, hFirst, hTried⟩
  · obtain ⟨entry, hEntry, hKind⟩ := Planning.isProvided_iff.mp hProvided
    exact .provided entry.2 (mem_ordered_iff.mpr ⟨entry, hEntry, rfl⟩) hKind
  · refine .unknown hNone (mem_warnings_of_withCode "W_NO_PROVIDER" ?_)
    rw [hFaithful.notes]
    exact List.mem_map_of_mem hNoted
  · have hHead : (catalog.providers kind).head? = some first := by rw [hFirst, List.head?_cons]
    rcases List.mem_append.mp hTried with hLoaded | hFailed
    · obtain ⟨entry, hEntry, rfl⟩ := List.mem_map.mp hLoaded
      have hPlanned := mem_ordered_iff.mpr ⟨entry, hEntry, rfl⟩
      by_cases hKind : kind ∈ entry.2.manifest.provides
      · exact .provided entry.2 hPlanned hKind
      · exact .unlisted entry.1 entry.2 hHead (hFaithful.loaded entry hEntry) hPlanned hKind
    · obtain ⟨warning, hWarning, hNotLoaded⟩ := hFaithful.exists_warning hFailed
      exact .notLoaded first warning hHead (mem_warnings_of_withCode _ hWarning) hNotLoaded

theorem faithful_planning (requested : List String) (loader : Loader) (catalog : Catalog) :
    Planning.Faithful loader catalog (planning requested loader catalog) := by
  obtain ⟨last, -, hExpand, -⟩ := Planning.exists_rounds loader catalog (asked requested loader)
  rw [planning, hExpand]
  exact ((Planning.faithful_empty loader catalog).foldl_ensure false requested).rounds _

theorem extends_planning (requested : List String) (loader : Loader) (catalog : Catalog) :
    Planning.Extends (asked requested loader) (planning requested loader catalog) := by
  obtain ⟨last, -, hExpand, -⟩ := Planning.exists_rounds loader catalog (asked requested loader)
  rw [planning, hExpand]
  exact Planning.extends_rounds loader catalog _ _

theorem settled_planning (requested : List String) (loader : Loader) (catalog : Catalog) :
    ∀ need ∈ (planning requested loader catalog).needs,
      Planning.Settled catalog (planning requested loader catalog) need := by
  obtain ⟨last, -, hExpand, hLast⟩ := Planning.exists_rounds loader catalog (asked requested loader)
  have hSame := (hLast last (Nat.le_refl _)).mpr rfl
  rw [Function.iterate_succ_apply'] at hSame hExpand
  rw [planning, hExpand]
  exact Planning.settled_round hSame

theorem make_complete (requested : List String) (loader : Loader) (catalog : Catalog) :
    (∃ rounds, 0 < rounds ∧ rounds ≤ catalog.entries.length + 1 ∧
      planning requested loader catalog =
        (Planning.round loader catalog)^[rounds] (asked requested loader) ∧
      ∀ i < rounds,
        ((Planning.round loader catalog)^[i + 1] (asked requested loader)).tried =
          ((Planning.round loader catalog)^[i] (asked requested loader)).tried ↔ i + 1 = rounds) ∧
    (∀ plugin ∈ (make requested loader catalog).ordered, ∀ kind ∈ plugin.manifest.consumes,
      Answers loader catalog (make requested loader catalog) plugin.name kind) ∧
    (∃ noted : List (String × String), noted.Nodup ∧
      (∀ need ∈ noted, catalog.providers need.2 = [] ∧
        ∃ plugin ∈ (make requested loader catalog).ordered,
          plugin.name = need.1 ∧ need.2 ∈ plugin.manifest.consumes) ∧
      Diagnostics.withCode "W_NO_PROVIDER" (make requested loader catalog).warnings =
        noted.map Planning.noProviderWarning) ∧
    ∃ failed : List String, failed.Nodup ∧
      (∀ name, name ∈ failed ↔ name ∈ (planning requested loader catalog).tried ∧
        ∃ e, loader name = .error e) ∧
      List.Forall₂ (Planning.NotLoaded loader) failed
        (Diagnostics.withCode "W_PLUGIN_NOT_FOUND" (make requested loader catalog).warnings) := by
  obtain ⟨last, hBound, hExpand, hLast⟩ :=
    Planning.exists_rounds loader catalog (asked requested loader)
  have hEntries : (asked requested loader).untried catalog ≤ catalog.entries.length :=
    List.countP_le_length
  have hFaithful := faithful_planning requested loader catalog
  refine ⟨⟨last + 1, Nat.succ_pos _, by omega, hExpand, ?_⟩, ?_, ?_, ?_⟩
  · intro i hi
    rw [hLast i (by omega), Nat.add_right_cancel_iff]
  · intro plugin hPlugin kind hKind
    obtain ⟨entry, hEntry, rfl⟩ := mem_ordered_iff.mp hPlugin
    exact answers_of_settled hFaithful
      (settled_planning _ _ _ _ (Planning.mem_needs_iff.mpr ⟨entry, hEntry, hKind, rfl⟩))
  · rw [withCode_make (by decide)]
    refine ⟨_, hFaithful.unprovided_nodup, ?_, hFaithful.notes⟩
    intro need hNeed
    obtain ⟨hNeeded, hNone⟩ := hFaithful.unprovided need hNeed
    obtain ⟨entry, hEntry, hKind, hName⟩ := Planning.mem_needs_iff.mp hNeeded
    exact ⟨hNone, entry.2, mem_ordered_iff.mpr ⟨entry, hEntry, rfl⟩, hName, hKind⟩
  · rw [withCode_make (by decide)]
    exact ⟨_, hFaithful.failed_nodup, fun _ => hFaithful.mem_failed_iff, hFaithful.failures⟩

/-- What was loaded on request is planned. -/
theorem mem_ordered_of_asked (catalog : Catalog) {entry : String × Plugin}
    (hEntry : entry ∈ (asked requested loader).loaded) :
    entry.2 ∈ (make requested loader catalog).ordered :=
  mem_ordered_iff.mpr ⟨entry, (extends_planning _ _ _).loaded.subset hEntry, rfl⟩

def hungry : Plugin :=
  Schedule.idle ⟨"hungry", [], ["tree", "index", "page"]⟩

/-- A catalog with a provider that does not provide what it is listed with, and one that cannot be
loaded. -/
def poorCatalog : Catalog where
  entries :=
    [⟨hungry.manifest, .ok hungry⟩,
      ⟨⟨"hollow", ["tree"], []⟩, .ok (Schedule.idle ⟨"hollow", [], []⟩)⟩,
      ⟨⟨"torn", ["index"], []⟩, .error (.factory "torn" "no file")⟩]

theorem make_complete_poorCatalog :
    hungry ∈ (make ["hungry", "none"] poorCatalog.load poorCatalog).ordered ∧
      ∀ kind ∈ ["tree", "index", "page"], Answers poorCatalog.load poorCatalog
        (make ["hungry", "none"] poorCatalog.load poorCatalog) "hungry" kind := by
  have hLoaded : ("hungry", hungry) ∈ (asked ["hungry", "none"] poorCatalog.load).loaded :=
    List.mem_cons_self
  have hPlanned := mem_ordered_of_asked poorCatalog hLoaded
  exact ⟨hPlanned, (make_complete _ _ _).2.1 hungry hPlanned⟩

end Plan

end BraceDoc
