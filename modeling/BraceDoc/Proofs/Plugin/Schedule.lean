import BraceDoc.Lists
import BraceDoc.Plugin.Schedule
import Mathlib.Data.List.Nodup
import Mathlib.Data.List.Perm.Subperm
import Mathlib.Data.List.Range
import Mathlib.Data.Fintype.EquivFin
import Mathlib.Order.WellFounded
import Mathlib.Logic.Relation

/-!
# Providers come first

While plugins are being scheduled, the counter of a plugin is the number of its providers that have
not been taken, and the plugins with counter zero are those that have been taken or are ready. So a
plugin is taken behind all its providers. If the scheduling stops early, every plugin that is left
waits for another one that is left, and among finitely many plugins this is a cycle.
-/

set_option autoImplicit false

namespace BraceDoc.Schedule

variable {manifests : List Manifest}

/-! ## Who waits for whom -/

theorem lt_of_waitsFor {i j : Nat} (hWaits : waitsFor manifests i j = true) :
    i < manifests.length ∧ j < manifests.length ∧ i ≠ j := by
  unfold waitsFor at hWaits
  split at hWaits
  · rename_i a b ha hb
    rw [Bool.and_eq_true, bne_iff_ne] at hWaits
    exact ⟨(List.getElem?_eq_some_iff.mp ha).1, (List.getElem?_eq_some_iff.mp hb).1, hWaits.1⟩
  · cases hWaits

theorem mem_dependents_iff {i j : Nat} :
    i ∈ dependents manifests j ↔ waitsFor manifests i j = true := by
  rw [dependents, List.mem_filter, List.mem_range, and_iff_right_iff_imp]
  exact fun hWaits => (lt_of_waitsFor hWaits).1

theorem nodup_dependents (manifests : List Manifest) (j : Nat) : (dependents manifests j).Nodup :=
  List.nodup_range.filter _

/-- The number of providers of a plugin that are not among the taken ones. -/
def unmet (manifests : List Manifest) (taken : List Nat) (i : Nat) : Nat :=
  (List.range manifests.length).countP fun j => waitsFor manifests i j && decide (j ∉ taken)

theorem unmet_nil (i : Nat) : unmet manifests [] i = waitCount manifests i := by
  simp [unmet, waitCount]

theorem unmet_eq_zero_iff {taken : List Nat} {i : Nat} :
    unmet manifests taken i = 0 ↔ ∀ j, waitsFor manifests i j = true → j ∈ taken := by
  simp only [unmet, List.countP_eq_zero, List.mem_range, Bool.and_eq_true, decide_eq_true_eq,
    not_and, not_not]
  exact ⟨fun hAll j hWaits => hAll j (lt_of_waitsFor hWaits).2.1 hWaits,
    fun hAll j _ hWaits => hAll j hWaits⟩

/-- Taking a plugin meets one need of each of its consumers, and no other. -/
theorem unmet_append (manifests : List Manifest) {taken : List Nat} {first : Nat}
    (hNew : first ∉ taken) (i : Nat) : unmet manifests taken i =
      unmet manifests (taken ++ [first]) i +
        if waitsFor manifests i first = true then 1 else 0 := by
  by_cases hWaits : waitsFor manifests i first = true
  · have hMem : first ∈ List.range manifests.length :=
      List.mem_range.mpr (lt_of_waitsFor hWaits).2.1
    have hSplit := List.perm_cons_erase hMem
    have hRest : ((List.range manifests.length).erase first).countP
          (fun j => waitsFor manifests i j && decide (j ∉ taken)) =
        ((List.range manifests.length).erase first).countP
          (fun j => waitsFor manifests i j && decide (j ∉ taken ++ [first])) := by
      apply List.countP_congr
      intro j hj
      have hOther : j ≠ first := fun hSame => List.nodup_range.not_mem_erase (hSame ▸ hj)
      simp [hOther]
    rw [unmet, unmet, hSplit.countP_eq, hSplit.countP_eq, List.countP_cons, List.countP_cons, hRest]
    simp [hWaits, hNew]
  · rw [if_neg hWaits, Nat.add_zero]
    apply List.countP_congr
    intro j _
    by_cases hSame : j = first
    · simp [hSame, hWaits]
    · simp [hSame]

/-! ## Releasing the consumers of a plugin -/

theorem waiting_release (s : State) (d i : Nat) : (release s d).waiting[i]? =
    if i = d then s.waiting[i]?.map (· - 1) else s.waiting[i]? := by
  rw [release, List.getElem?_modify]
  split
  · rename_i hSame
    simp [hSame]
  · rename_i hOther
    simp [Ne.symm hOther]

theorem waiting_foldl_release {ds : List Nat} (hNodup : ds.Nodup) (s : State) (i : Nat) :
    (ds.foldl release s).waiting[i]? =
      if i ∈ ds then s.waiting[i]?.map (· - 1) else s.waiting[i]? := by
  induction ds generalizing s with
  | nil => simp
  | cons d ds ih =>
    obtain ⟨hOnce, hRest⟩ := List.nodup_cons.mp hNodup
    rw [List.foldl_cons, ih hRest, waiting_release]
    by_cases hSame : i = d
    · rw [if_neg (hSame ▸ hOnce), if_pos hSame, if_pos (hSame ▸ List.mem_cons_self)]
    · simp [hSame]

theorem taken_foldl_release (ds : List Nat) (s : State) : (ds.foldl release s).taken = s.taken := by
  induction ds generalizing s with
  | nil => rfl
  | cons d ds ih => exact ih _

theorem ready_release (s : State) (d : Nat) : (release s d).ready =
    s.ready ++ [d].filter fun i => s.waiting[i]?.map (· - 1) == some 0 := by
  have hLowered : (s.waiting.modify d (· - 1))[d]? = s.waiting[d]?.map (· - 1) := by
    rw [List.getElem?_modify]
    simp
  simp only [release, hLowered, List.filter_cons, List.filter_nil]
  split
  · rfl
  · exact (List.append_nil _).symm

theorem ready_foldl_release {ds : List Nat} (hNodup : ds.Nodup) (s : State) :
    (ds.foldl release s).ready =
      s.ready ++ ds.filter fun i => s.waiting[i]?.map (· - 1) == some 0 := by
  induction ds generalizing s with
  | nil => simp
  | cons d ds ih =>
    obtain ⟨hOnce, hRest⟩ := List.nodup_cons.mp hNodup
    have hSame : (ds.filter fun i => (release s d).waiting[i]?.map (· - 1) == some 0) =
        ds.filter fun i => s.waiting[i]?.map (· - 1) == some 0 := by
      apply List.filter_congr
      intro i hi
      have hOther : i ≠ d := fun hSame => hOnce (hSame ▸ hi)
      rw [waiting_release, if_neg hOther]
    rw [List.foldl_cons, ih hRest, ready_release, hSame, List.append_assoc, ← List.filter_append,
      List.singleton_append]

/-! ## The invariant -/

/-- What holds of every state of a scheduling. -/
structure Sound (manifests : List Manifest) (s : State) : Prop where
  waiting : ∀ i < manifests.length, s.waiting[i]? = some (unmet manifests s.taken i)
  nodup : (s.taken ++ s.ready).Nodup
  mem_iff : ∀ i, i ∈ s.taken ++ s.ready ↔ i < manifests.length ∧ unmet manifests s.taken i = 0
  /-- No plugin waits for one that was taken later. -/
  sorted : s.taken.Pairwise fun i j => waitsFor manifests i j = false

theorem sound_start (manifests : List Manifest) : Sound manifests (start manifests) := by
  have hWaiting : ∀ i < manifests.length,
      (start manifests).waiting[i]? = some (unmet manifests [] i) := by
    intro i hi
    simp [start, unmet_nil, hi]
  have hReady : ∀ i, i ∈ (start manifests).ready ↔
      i < manifests.length ∧ unmet manifests [] i = 0 := by
    intro i
    rw [start, List.mem_filter, List.mem_range, beq_iff_eq]
    refine and_congr_right fun hi => ?_
    have hCounter := hWaiting i hi
    rw [start] at hCounter
    rw [hCounter, Option.some.injEq]
  exact ⟨hWaiting, List.nodup_range.filter _, hReady, .nil⟩

/-- The state in which the first ready plugin has been moved and its consumers have not been
released. -/
def State.moved (s : State) (first : Nat) (rest : List Nat) : State :=
  { s with ready := rest, taken := s.taken ++ [first] }

theorem take_of_ready {s : State} {first : Nat} {rest : List Nat}
    (hReady : s.ready = first :: rest) :
    take manifests s = (dependents manifests first).foldl release (s.moved first rest) := by
  rw [take, hReady]
  rfl

theorem take_of_not_ready {s : State} (hReady : s.ready = []) : take manifests s = s := by
  rw [take, hReady]

section Take

variable {s : State} {first : Nat} {rest : List Nat}

theorem Sound.unmet_first (hSound : Sound manifests s) (hReady : s.ready = first :: rest) :
    first ∉ s.taken ∧ unmet manifests s.taken first = 0 := by
  have hNodup := hSound.nodup
  rw [hReady, List.nodup_append] at hNodup
  refine ⟨fun hTaken => hNodup.2.2 first hTaken first List.mem_cons_self rfl, ?_⟩
  refine ((hSound.mem_iff first).mp ?_).2
  rw [hReady]
  exact List.mem_append_right _ List.mem_cons_self

/-- A consumer that is released had its counter above zero. -/
theorem Sound.waiting_dependent (hSound : Sound manifests s) (hReady : s.ready = first :: rest)
    {i : Nat} (hDependent : i ∈ dependents manifests first) :
    s.waiting[i]? = some (unmet manifests (s.taken ++ [first]) i + 1) := by
  have hWaits := mem_dependents_iff.mp hDependent
  rw [hSound.waiting i (lt_of_waitsFor hWaits).1,
    unmet_append manifests (hSound.unmet_first hReady).1 i,
    if_pos hWaits]

theorem Sound.ready_take (hSound : Sound manifests s) (hReady : s.ready = first :: rest) :
    (take manifests s).ready = rest ++ (dependents manifests first).filter fun i =>
      decide (unmet manifests (s.taken ++ [first]) i = 0) := by
  rw [take_of_ready hReady, ready_foldl_release (nodup_dependents manifests first)]
  refine congrArg (rest ++ ·) (List.filter_congr fun i hi => ?_)
  change (s.waiting[i]?.map (· - 1) == some 0) = _
  rw [hSound.waiting_dependent hReady hi]
  rfl

theorem taken_take (hReady : s.ready = first :: rest) :
    (take manifests s).taken = s.taken ++ [first] := by
  rw [take_of_ready hReady, taken_foldl_release]
  rfl

theorem Sound.waiting_take (hSound : Sound manifests s) (hReady : s.ready = first :: rest)
    {i : Nat} (hi : i < manifests.length) :
    (take manifests s).waiting[i]? = some (unmet manifests (s.taken ++ [first]) i) := by
  rw [take_of_ready hReady, waiting_foldl_release (nodup_dependents manifests first)]
  change (if _ then s.waiting[i]?.map (· - 1) else s.waiting[i]?) = _
  split
  · rename_i hDependent
    rw [hSound.waiting_dependent hReady hDependent]
    rfl
  · rename_i hOther
    rw [hSound.waiting i hi, unmet_append manifests (hSound.unmet_first hReady).1 i,
      if_neg (mt mem_dependents_iff.mpr hOther)]
    rfl

/-- A plugin that becomes ready was waiting for the one that is taken, and for no other. -/
theorem Sound.mem_take_iff (hSound : Sound manifests s) (hReady : s.ready = first :: rest)
    (i : Nat) :
    i ∈ (take manifests s).taken ++ (take manifests s).ready ↔
      i < manifests.length ∧ unmet manifests (s.taken ++ [first]) i = 0 := by
  have hOld := hSound.mem_iff i
  have hStep := unmet_append manifests (hSound.unmet_first hReady).1 i
  rw [taken_take hReady, hSound.ready_take hReady, List.append_assoc, List.singleton_append,
    ← List.cons_append, ← hReady, ← List.append_assoc, List.mem_append, hOld, List.mem_filter,
    mem_dependents_iff, decide_eq_true_eq]
  constructor
  · rintro (⟨hi, hUnmet⟩ | ⟨hWaits, hUnmet⟩)
    · exact ⟨hi, by omega⟩
    · exact ⟨(lt_of_waitsFor hWaits).1, hUnmet⟩
  · rintro ⟨hi, hUnmet⟩
    by_cases hWaits : waitsFor manifests i first = true
    · exact Or.inr ⟨hWaits, hUnmet⟩
    · rw [if_neg hWaits, hUnmet] at hStep
      exact Or.inl ⟨hi, hStep⟩

theorem Sound.nodup_take (hSound : Sound manifests s) (hReady : s.ready = first :: rest) :
    ((take manifests s).taken ++ (take manifests s).ready).Nodup := by
  rw [taken_take hReady, hSound.ready_take hReady, List.append_assoc, List.singleton_append,
    ← List.cons_append, ← hReady, ← List.append_assoc, List.nodup_append]
  refine ⟨hSound.nodup, (nodup_dependents manifests first).filter _, ?_⟩
  rintro i hOld _ hNew rfl
  have hWaits := mem_dependents_iff.mp (List.mem_filter.mp hNew).1
  have hTaken := unmet_eq_zero_iff.mp ((hSound.mem_iff i).mp hOld).2 first hWaits
  exact (hSound.unmet_first hReady).1 hTaken

theorem Sound.sorted_take (hSound : Sound manifests s) (hReady : s.ready = first :: rest) :
    (take manifests s).taken.Pairwise fun i j => waitsFor manifests i j = false := by
  rw [taken_take hReady, List.pairwise_append]
  refine ⟨hSound.sorted, List.pairwise_singleton _ _, ?_⟩
  intro i hTaken j hj
  rw [List.mem_singleton.mp hj, ← Bool.not_eq_true]
  intro hWaits
  -- All providers of a taken plugin have been taken, and `first` has not.
  have hUnmet := ((hSound.mem_iff i).mp (List.mem_append_left _ hTaken)).2
  exact (hSound.unmet_first hReady).1 (unmet_eq_zero_iff.mp hUnmet first hWaits)

theorem Sound.take (hSound : Sound manifests s) : Sound manifests (take manifests s) := by
  cases hReady : s.ready with
  | nil =>
    rw [take_of_not_ready hReady]
    exact hSound
  | cons first rest =>
    constructor
    case waiting =>
      rw [taken_take hReady]
      exact fun i hi => hSound.waiting_take hReady hi
    case nodup => exact hSound.nodup_take hReady
    case mem_iff =>
      intro i
      rw [hSound.mem_take_iff hReady, taken_take hReady]
    case sorted => exact hSound.sorted_take hReady

end Take

/-! ## Runs -/

def after (manifests : List Manifest) (steps : Nat) : State :=
  (List.range steps).foldl (fun s _ => take manifests s) (start manifests)

theorem after_succ (steps : Nat) :
    after manifests (steps + 1) = take manifests (after manifests steps) := by
  rw [after, List.range_succ, List.foldl_append]
  rfl

theorem sound_after (manifests : List Manifest) (steps : Nat) :
    Sound manifests (after manifests steps) := by
  induction steps with
  | zero => exact sound_start manifests
  | succ steps ih =>
    rw [after_succ]
    exact ih.take

/-- Every step takes a plugin, as long as one is ready. -/
theorem ready_or_length (manifests : List Manifest) (steps : Nat) :
    (after manifests steps).ready = [] ∨ (after manifests steps).taken.length = steps := by
  induction steps with
  | zero => exact Or.inr rfl
  | succ steps ih =>
    rw [after_succ]
    cases hReady : (after manifests steps).ready with
    | nil =>
      rw [take_of_not_ready hReady]
      exact Or.inl hReady
    | cons first rest =>
      have hLength := ih.resolve_left (by rw [hReady]; exact List.cons_ne_nil _ _)
      rw [taken_take hReady, List.length_append, hLength]
      exact Or.inr rfl

theorem sound_run (manifests : List Manifest) :
    (run manifests).Nodup ∧ (∀ i ∈ run manifests, i < manifests.length) ∧
      (run manifests).Pairwise fun i j => waitsFor manifests i j = false := by
  have hSound := sound_after manifests manifests.length
  refine ⟨(List.nodup_append.mp hSound.nodup).1, ?_, hSound.sorted⟩
  intro i hi
  exact ((hSound.mem_iff i).mp (List.mem_append_left _ hi)).1

theorem perm_run (hLength : (run manifests).length = manifests.length) :
    (run manifests).Perm (List.range manifests.length) := by
  obtain ⟨hNodup, hBound, -⟩ := sound_run manifests
  refine (hNodup.subperm fun i hi => List.mem_range.mpr (hBound i hi)).perm_of_length_le ?_
  rw [hLength, List.length_range]

/-! ## Cycles -/

def Acyclic (manifests : List Manifest) : Prop :=
  ∀ i, ¬ Relation.TransGen (fun a b => waitsFor manifests a b = true) i i

/-- In a schedule of all plugins, whoever waits stands further back. -/
theorem idxOf_lt_of_waitsFor (hLength : (run manifests).length = manifests.length) {i j : Nat}
    (hWaits : waitsFor manifests i j = true) :
    (run manifests).idxOf j < (run manifests).idxOf i := by
  obtain ⟨hi, hj, hOther⟩ := lt_of_waitsFor hWaits
  have hPlace : ∀ {k}, k < manifests.length → (run manifests).idxOf k < (run manifests).length :=
    fun hk => List.idxOf_lt_length_of_mem ((perm_run hLength).mem_iff.mpr (List.mem_range.mpr hk))
  rcases Nat.lt_trichotomy ((run manifests).idxOf j) ((run manifests).idxOf i) with
    hLess | hSame | hMore
  · exact hLess
  · exact absurd ((List.idxOf_inj ((perm_run hLength).mem_iff.mpr (List.mem_range.mpr hj))).mp
      hSame).symm hOther
  · have hFree := List.pairwise_iff_getElem.mp (sound_run manifests).2.2 _ _ (hPlace hi)
      (hPlace hj) hMore
    rw [List.getElem_idxOf, List.getElem_idxOf, hWaits] at hFree
    cases hFree

theorem acyclic_of_length_run (hLength : (run manifests).length = manifests.length) :
    Acyclic manifests := by
  have hBack : ∀ i j, Relation.TransGen (fun a b => waitsFor manifests a b = true) i j →
      (run manifests).idxOf j < (run manifests).idxOf i := by
    intro i j hPath
    induction hPath with
    | single hWaits => exact idxOf_lt_of_waitsFor hLength hWaits
    | tail _ hWaits ih => exact (idxOf_lt_of_waitsFor hLength hWaits).trans ih
  exact fun i hCycle => Nat.lt_irrefl _ (hBack i i hCycle)

/-- Among plugins without a cycle, any that are left include one that waits for none of them. -/
theorem exists_unmet_eq_zero (hAcyclic : Acyclic manifests) {taken : List Nat} {i : Nat}
    (hi : i < manifests.length) (hLeft : i ∉ taken) :
    ∃ j < manifests.length, j ∉ taken ∧ unmet manifests taken j = 0 := by
  let Below (a b : Fin manifests.length) : Prop :=
    Relation.TransGen (fun a b => waitsFor manifests a b = true) b.val a.val
  have : IsTrans _ Below := ⟨fun _ _ _ hab hbc => hbc.trans hab⟩
  have : Std.Irrefl Below := ⟨fun a => hAcyclic a.val⟩
  have hWell : WellFounded Below := Finite.wellFounded_of_trans_of_irrefl Below
  obtain ⟨j, hj, hLeast⟩ := hWell.has_min {k | k.val ∉ taken} ⟨⟨i, hi⟩, hLeft⟩
  refine ⟨j.val, j.isLt, hj, unmet_eq_zero_iff.mpr fun k hWaits => ?_⟩
  by_contra hk
  exact hLeast ⟨k, (lt_of_waitsFor hWaits).2.1⟩ hk (.single hWaits)

theorem length_run_of_acyclic (hAcyclic : Acyclic manifests) :
    (run manifests).length = manifests.length := by
  rcases ready_or_length manifests manifests.length with hReady | hLength
  · have hSound := sound_after manifests manifests.length
    have hAll : ∀ i < manifests.length, i ∈ run manifests := by
      intro i hi
      by_contra hLeft
      obtain ⟨j, hj, hNew, hUnmet⟩ := exists_unmet_eq_zero hAcyclic hi hLeft
      have hMem := (hSound.mem_iff j).mpr ⟨hj, hUnmet⟩
      rw [hReady, List.append_nil] at hMem
      exact hNew hMem
    obtain ⟨hNodup, hBound, -⟩ := sound_run manifests
    have hPerm := (List.perm_ext_iff_of_nodup hNodup List.nodup_range).mpr fun i =>
      ⟨fun hi => List.mem_range.mpr (hBound i hi), fun hi => hAll i (List.mem_range.mp hi)⟩
    exact hPerm.length_eq.trans List.length_range
  · exact hLength

/-! ## Schedules of plugins -/

/-- The plugin at one index consumes a kind that another, at a second index, provides. -/
def DependsOn (plugins : List Plugin) (a b : Nat) : Prop :=
  a ≠ b ∧ ∃ consumer ∈ plugins[a]?, ∃ provider ∈ plugins[b]?,
    ∃ kind ∈ consumer.manifest.consumes, kind ∈ provider.manifest.provides

/-- No plugin consumes what a later one provides. -/
def ProvidersFirst (plugins : List Plugin) : Prop :=
  plugins.Pairwise fun p later => ∀ kind ∈ p.manifest.consumes, kind ∉ later.manifest.provides

theorem needs_iff {consumer provider : Manifest} : needs consumer provider = true ↔
    ∃ kind ∈ consumer.consumes, kind ∈ provider.provides := by
  simp [needs]

theorem dependsOn_eq (plugins : List Plugin) : DependsOn plugins =
    fun a b => waitsFor (plugins.map (·.manifest)) a b = true := by
  funext a b
  rw [waitsFor, List.getElem?_map, List.getElem?_map, DependsOn]
  cases plugins[a]? <;> cases plugins[b]? <;> simp [needs_iff]

theorem order_of_acyclic {plugins : List Plugin} (hAcyclic : Acyclic (plugins.map (·.manifest))) :
    order plugins = ((run (plugins.map (·.manifest))).filterMap fun i => plugins[i]?, []) := by
  have hLength := length_run_of_acyclic hAcyclic
  rw [List.length_map] at hLength
  rw [order, if_pos hLength]

theorem order_of_cycle {plugins : List Plugin} (hCycle : ¬ Acyclic (plugins.map (·.manifest))) :
    order plugins = (plugins, [Problem.pluginCycle.located none none]) := by
  rw [order, if_neg]
  intro hLength
  refine hCycle (acyclic_of_length_run ?_)
  rw [hLength, List.length_map]

theorem perm_order (plugins : List Plugin) : (order plugins).1.Perm plugins := by
  by_cases hAcyclic : Acyclic (plugins.map (·.manifest))
  · have hPerm := (perm_run (length_run_of_acyclic hAcyclic)).filterMap fun i => plugins[i]?
    rw [List.length_map, filterMap_range_getElem?] at hPerm
    rw [order_of_acyclic hAcyclic]
    exact hPerm
  · rw [order_of_cycle hAcyclic]

theorem providersFirst_order {plugins : List Plugin}
    (hAcyclic : Acyclic (plugins.map (·.manifest))) : ProvidersFirst (order plugins).1 := by
  obtain ⟨hNodup, -, hSorted⟩ := sound_run (plugins.map (·.manifest))
  rw [order_of_acyclic hAcyclic]
  refine (hSorted.and hNodup).filterMap _ ?_
  rintro i j ⟨hFree, hOther⟩ p hp later hLater kind hConsumes hProvides
  have hDepends : DependsOn plugins i j :=
    ⟨hOther, p, hp, later, hLater, kind, hConsumes, hProvides⟩
  rw [dependsOn_eq] at hDepends
  cases hFree.symm.trans hDepends

/-- Somewhere in a run the counter at an index is lowered in the given state. -/
inductive Lowers (manifests : List Manifest) : State → Nat → Prop
  | release (steps : Nat) {first index : Nat} {rest earlier later : List Nat}
      (hReady : (after manifests steps).ready = first :: rest)
      (hDependents : dependents manifests first = earlier ++ index :: later) :
      Lowers manifests (earlier.foldl release ((after manifests steps).moved first rest)) index

theorem waiting_of_lowers {s : State} {index : Nat} (hLowers : Lowers manifests s index) :
    ∃ count, s.waiting[index]? = some (count + 1) := by
  cases hLowers with
  | @release steps first index rest earlier later hReady hDependents =>
    have hNodup := nodup_dependents manifests first
    rw [hDependents, List.nodup_append] at hNodup
    have hFirst : index ∉ earlier := fun hMem =>
      hNodup.2.2 index hMem index List.mem_cons_self rfl
    have hMem : index ∈ dependents manifests first := by
      rw [hDependents]
      exact List.mem_append_right _ List.mem_cons_self
    rw [waiting_foldl_release hNodup.1, if_neg hFirst]
    exact ⟨_, (sound_after manifests steps).waiting_dependent hReady hMem⟩

theorem order_topological (plugins : List Plugin) :
    (order plugins).1.Perm plugins ∧
      (∀ s index, Lowers (plugins.map (·.manifest)) s index →
        ∃ count, s.waiting[index]? = some (count + 1)) ∧
      ((∀ i, ¬ Relation.TransGen (DependsOn plugins) i i) →
        ProvidersFirst (order plugins).1 ∧ (order plugins).2 = []) ∧
      ((∃ i, Relation.TransGen (DependsOn plugins) i i) →
        ∃ warning, order plugins = (plugins, [warning]) ∧ warning.severity = .warning ∧
          warning.code = some "W_PLUGIN_CYCLE") := by
  refine ⟨perm_order plugins, fun s index hLowers => waiting_of_lowers hLowers, ?_, ?_⟩
  · intro hNone
    rw [dependsOn_eq] at hNone
    refine ⟨providersFirst_order hNone, ?_⟩
    rw [order_of_acyclic hNone]
  · rintro ⟨i, hCycle⟩
    rw [dependsOn_eq] at hCycle
    exact ⟨_, order_of_cycle fun hAcyclic => hAcyclic i hCycle, rfl, rfl⟩

def idle (manifest : Manifest) : Plugin :=
  ⟨manifest, fun _ s => (s, none)⟩

/-- A consumer in front of its provider; they share two kinds, one of them listed twice, and the
provider consumes what it provides. -/
def pair : List Plugin :=
  [idle ⟨"reader", ["page"], ["tree", "tree", "index"]⟩,
    idle ⟨"maker", ["tree", "index"], ["tree"]⟩]

def loop : List Plugin :=
  [idle ⟨"first", ["x"], ["y"]⟩, idle ⟨"second", ["y"], ["x"]⟩]

theorem order_topological_pair :
    (∃ s, Lowers (pair.map (·.manifest)) s 0 ∧ ∃ count, s.waiting[0]? = some (count + 1)) ∧
      ((∀ i, ¬ Relation.TransGen (DependsOn pair) i i) ∧
        ProvidersFirst (order pair).1 ∧ (order pair).2 = []) ∧
      ((∃ i, Relation.TransGen (DependsOn loop) i i) ∧
        ∃ warning, order loop = (loop, [warning]) ∧ warning.severity = .warning ∧
          warning.code = some "W_PLUGIN_CYCLE") := by
  have hLowers : Lowers (pair.map (·.manifest))
      ((start (pair.map (·.manifest))).moved 1 []) 0 :=
    @Lowers.release _ 0 1 0 [] [] [] (by decide) (by decide)
  have hAcyclic : ∀ i, ¬ Relation.TransGen (DependsOn pair) i i := by
    rw [dependsOn_eq]
    exact acyclic_of_length_run (by decide)
  have hCycle : ∃ i, Relation.TransGen (DependsOn loop) i i := by
    rw [dependsOn_eq]
    exact ⟨0, .tail (.single (b := 1) (by decide)) (by decide)⟩
  exact ⟨⟨_, hLowers, (order_topological pair).2.1 _ 0 hLowers⟩,
    ⟨hAcyclic, (order_topological pair).2.2.1 hAcyclic⟩,
    hCycle, (order_topological loop).2.2.2 hCycle⟩

end BraceDoc.Schedule
