import BraceDoc.Proofs.Plugin.Schedule

/-!
# A schedule is scheduled as it stands

Plugins are taken in the order in which they become ready, so whoever stands further back in a
schedule became ready no earlier. Where plugins are given in such an order, those that become ready
together stand together, in the order in which they are found, and the scheduling takes all as they
stand.
-/

set_option autoImplicit false

namespace BraceDoc.Schedule

variable {manifests : List Manifest}

/-- The plugin at an index waits for none from `bound` on. -/
def WaitsBelow (manifests : List Manifest) (bound i : Nat) : Prop :=
  ∀ j, waitsFor manifests i j = true → j < bound

/-- Providers stand in front of their consumers, and whoever stands further back waits no less
long. -/
structure Orderly (manifests : List Manifest) : Prop where
  back : ∀ i, WaitsBelow manifests i i
  monotone : ∀ bound i j, i ≤ j → j < manifests.length → WaitsBelow manifests bound j →
    WaitsBelow manifests bound i

theorem unmet_range_eq_zero_iff {bound i : Nat} :
    unmet manifests (List.range bound) i = 0 ↔ WaitsBelow manifests bound i := by
  simp only [unmet_eq_zero_iff, WaitsBelow, List.mem_range]

/-! ## Orderly plugins -/

section Orderly

variable (hOrderly : Orderly manifests) {s : State} (hSound : Sound manifests s) {steps : Nat}
  (hTaken : s.taken = List.range steps) (hSorted : (s.taken ++ s.ready).Pairwise (· < ·))
  (hLess : steps < manifests.length)

include hOrderly hSound hTaken hSorted hLess

theorem Orderly.exists_ready : ∃ rest, s.ready = steps :: rest := by
  have hNext : steps ∈ s.taken ++ s.ready := by
    rw [hSound.mem_iff, hTaken, unmet_range_eq_zero_iff]
    exact ⟨hLess, hOrderly.back steps⟩
  have hReady : steps ∈ s.ready := by
    simpa [hTaken] using hNext
  cases hFirst : s.ready with
  | nil => simp [hFirst] at hReady
  | cons first rest =>
    have hNew := (hSound.unmet_first hFirst).1
    rw [hFirst, List.mem_cons] at hReady
    rw [hFirst, List.pairwise_append, List.pairwise_cons] at hSorted
    rcases hReady with rfl | hRest
    · exact ⟨rest, rfl⟩
    · have hBefore : first < steps := hSorted.2.1.1 steps hRest
      rw [hTaken, List.mem_range] at hNew
      omega

theorem Orderly.sorted_take :
    ((take manifests s).taken ++ (take manifests s).ready).Pairwise (· < ·) := by
  obtain ⟨rest, hReady⟩ := hOrderly.exists_ready hSound hTaken hSorted hLess
  rw [taken_take hReady, hSound.ready_take hReady, List.append_assoc, List.singleton_append,
    ← List.cons_append, ← hReady, ← List.append_assoc, List.pairwise_append]
  refine ⟨hSorted, (List.pairwise_lt_range.filter _).filter _, ?_⟩
  intro x hOld y hNew
  by_contra hOrder
  -- otherwise `y` would have been ready with `x`, though it waits for the plugin that is taken
  have hBound := (hSound.mem_iff x).mp hOld
  rw [hTaken, unmet_range_eq_zero_iff] at hBound
  have hWaits := mem_dependents_iff.mp (List.mem_filter.mp hNew).1
  have hEarly := hOrderly.monotone steps y x (by omega) hBound.1 hBound.2 steps hWaits
  omega

end Orderly

theorem Orderly.after (hOrderly : Orderly manifests) {steps : Nat}
    (hSteps : steps ≤ manifests.length) :
    (after manifests steps).taken = List.range steps ∧
      ((after manifests steps).taken ++ (after manifests steps).ready).Pairwise (· < ·) := by
  induction steps with
  | zero => exact ⟨rfl, List.pairwise_lt_range.filter _⟩
  | succ steps ih =>
    obtain ⟨hTaken, hSorted⟩ := ih (by omega)
    have hSound := sound_after manifests steps
    rw [after_succ]
    refine ⟨?_, hOrderly.sorted_take hSound hTaken hSorted (by omega)⟩
    obtain ⟨rest, hReady⟩ := hOrderly.exists_ready hSound hTaken hSorted (by omega)
    rw [taken_take hReady, hTaken, List.range_succ]

theorem Orderly.run_eq (hOrderly : Orderly manifests) :
    run manifests = List.range manifests.length :=
  (hOrderly.after (Nat.le_refl _)).1

/-! ## Schedules grow at their end -/

theorem queue_take {s : State} (hSound : Sound manifests s) :
    s.taken ++ s.ready <+: (take manifests s).taken ++ (take manifests s).ready := by
  cases hReady : s.ready with
  | nil => rw [take_of_not_ready hReady, hReady]
  | cons first rest =>
    rw [taken_take hReady, hSound.ready_take hReady, List.append_assoc, List.singleton_append,
      ← List.cons_append, ← List.append_assoc]
    exact List.prefix_append _ _

theorem queue_after (manifests : List Manifest) (steps more : Nat) :
    (after manifests steps).taken ++ (after manifests steps).ready <+:
      (after manifests (steps + more)).taken ++ (after manifests (steps + more)).ready := by
  induction more with
  | zero => exact List.prefix_refl _
  | succ more ih =>
    rw [← Nat.add_assoc, after_succ]
    exact ih.trans (queue_take (sound_after manifests _))

theorem length_taken_after (manifests : List Manifest) (steps more : Nat) :
    (after manifests (steps + more)).taken.length ≤
      (after manifests steps).taken.length + more := by
  induction more with
  | zero => exact Nat.le_refl _
  | succ more ih =>
    rw [← Nat.add_assoc, after_succ]
    cases hReady : (after manifests (steps + more)).ready with
    | nil =>
      rw [take_of_not_ready hReady]
      omega
    | cons first rest =>
      rw [taken_take hReady, List.length_append, List.length_singleton]
      omega

section Complete

variable (hLength : (run manifests).length = manifests.length)

include hLength

theorem ready_of_complete : (after manifests manifests.length).ready = [] := by
  have hSound := sound_after manifests manifests.length
  have hBound : ∀ i ∈ (after manifests manifests.length).taken ++
      (after manifests manifests.length).ready, i ∈ List.range manifests.length :=
    fun i hi => List.mem_range.mpr ((hSound.mem_iff i).mp hi).1
  have hFits := (hSound.nodup.subperm hBound).length_le
  have hRun : (after manifests manifests.length).taken.length = manifests.length := hLength
  rw [List.length_append, hRun, List.length_range] at hFits
  exact List.eq_nil_of_length_eq_zero (by omega)

/-- At every step, what has become ready is a beginning of the schedule. -/
theorem queue_of_complete {steps : Nat} (hSteps : steps ≤ manifests.length) :
    (after manifests steps).taken ++ (after manifests steps).ready <+: run manifests := by
  have hQueue := queue_after manifests steps (manifests.length - steps)
  rw [Nat.add_sub_of_le hSteps, ready_of_complete hLength, List.append_nil] at hQueue
  exact hQueue

theorem taken_of_complete {steps : Nat} (hSteps : steps ≤ manifests.length) :
    (after manifests steps).taken = (run manifests).take steps := by
  have hFront := (List.prefix_append _ _).trans (queue_of_complete hLength hSteps)
  have hMost := length_taken_after manifests 0 steps
  have hLeast := length_taken_after manifests steps (manifests.length - steps)
  have hRun : (after manifests manifests.length).taken.length = manifests.length := hLength
  have hNone : (after manifests 0).taken.length = 0 := rfl
  rw [Nat.zero_add] at hMost
  rw [Nat.add_sub_of_le hSteps] at hLeast
  rw [List.prefix_iff_eq_take.mp hFront]
  congr 1
  omega

end Complete

/-! ## Plugins in the order of a schedule -/

theorem mem_take_iff_lt {xs : List Nat} (hNodup : xs.Nodup) {i bound : Nat} (hi : i < xs.length) :
    xs[i] ∈ xs.take bound ↔ i < bound := by
  rw [List.mem_take_iff_getElem]
  constructor
  · rintro ⟨k, hk, hSame⟩
    have hIndex : k = i := (hNodup.getElem_inj_iff).mp hSame
    omega
  · intro hLess
    exact ⟨i, by omega, rfl⟩

section Reordered

variable {reordered : List Manifest} (hLength : (run manifests).length = manifests.length)
  (hWaits : ∀ i j, waitsFor reordered i j = true ↔
    ∃ a ∈ (run manifests)[i]?, ∃ b ∈ (run manifests)[j]?, waitsFor manifests a b = true)
  (hSame : reordered.length = manifests.length)

include hLength hWaits

theorem waitsBelow_self_of_reordered (i : Nat) : WaitsBelow reordered i i := by
  intro j hj
  obtain ⟨a, ha, b, hb, hab⟩ := (hWaits i j).mp hj
  obtain ⟨hi, rfl⟩ := List.getElem?_eq_some_iff.mp ha
  obtain ⟨hj, rfl⟩ := List.getElem?_eq_some_iff.mp hb
  have hBefore := idxOf_lt_of_waitsFor hLength hab
  have hNodup := (sound_run manifests).1
  rwa [hNodup.idxOf_getElem, hNodup.idxOf_getElem] at hBefore

/-- A plugin waits for none from `bound` on just when it is ready after `bound` steps. -/
theorem waitsBelow_iff_of_reordered {bound i : Nat} (hBound : bound ≤ manifests.length)
    (hi : i < (run manifests).length) : WaitsBelow reordered bound i ↔
      (run manifests)[i] ∈ (after manifests bound).taken ++ (after manifests bound).ready := by
  have hNodup := (sound_run manifests).1
  rw [(sound_after manifests bound).mem_iff, unmet_eq_zero_iff, taken_of_complete hLength hBound,
    and_iff_right ((sound_run manifests).2.1 _ (List.getElem_mem hi))]
  constructor
  · intro hBelow b hb
    have hMem : b ∈ run manifests :=
      (perm_run hLength).mem_iff.mpr (List.mem_range.mpr (lt_of_waitsFor hb).2.1)
    obtain ⟨j, hj, rfl⟩ := List.getElem_of_mem hMem
    refine (mem_take_iff_lt hNodup hj).mpr (hBelow j ((hWaits i j).mpr ?_))
    exact ⟨_, List.getElem?_eq_getElem hi, _, List.getElem?_eq_getElem hj, hb⟩
  · intro hTaken j hj
    obtain ⟨a, ha, b, hb, hab⟩ := (hWaits i j).mp hj
    obtain ⟨_, rfl⟩ := List.getElem?_eq_some_iff.mp ha
    obtain ⟨hj, rfl⟩ := List.getElem?_eq_some_iff.mp hb
    exact (mem_take_iff_lt hNodup hj).mp (hTaken _ hab)

include hSame

theorem orderly_of_reordered : Orderly reordered where
  back := waitsBelow_self_of_reordered hLength hWaits
  monotone bound i j hij hj hBelow := by
    by_cases hBound : bound ≤ manifests.length
    · have hjRun : j < (run manifests).length := by omega
      have hiRun : i < (run manifests).length := by omega
      have hNodup := (sound_run manifests).1
      have hQueue := List.prefix_iff_eq_take.mp (queue_of_complete hLength hBound)
      -- the plugins that are ready are the first ones of the schedule
      rw [waitsBelow_iff_of_reordered hLength hWaits hBound hjRun, hQueue,
        mem_take_iff_lt hNodup hjRun] at hBelow
      rw [waitsBelow_iff_of_reordered hLength hWaits hBound hiRun, hQueue,
        mem_take_iff_lt hNodup hiRun]
      omega
    · intro k hk
      have hLess := (lt_of_waitsFor hk).2.1
      omega

end Reordered

/-- The plugins in the order of a list of indices depend on each other as they did before. -/
theorem dependsOn_filterMap {plugins : List Plugin} {indices : List Nat} (hNodup : indices.Nodup)
    (hBound : ∀ i ∈ indices, i < plugins.length) (i j : Nat) :
    DependsOn (indices.filterMap fun k => plugins[k]?) i j ↔
      ∃ a ∈ indices[i]?, ∃ b ∈ indices[j]?, DependsOn plugins a b := by
  have hAll : ∀ k ∈ indices, (plugins[k]?).isSome = true := by
    intro k hk
    simpa using hBound k hk
  simp only [DependsOn, getElem?_filterMap_of_isSome hAll, Option.mem_def, Option.bind_eq_some_iff]
  constructor
  · rintro ⟨hOther, consumer, ⟨a, ha, hConsumer⟩, provider, ⟨b, hb, hProvider⟩, hKind⟩
    refine ⟨a, ha, b, hb, ?_, consumer, hConsumer, provider, hProvider, hKind⟩
    rintro rfl
    obtain ⟨hi, hia⟩ := List.getElem?_eq_some_iff.mp ha
    obtain ⟨hj, hja⟩ := List.getElem?_eq_some_iff.mp hb
    exact hOther (hNodup.getElem_inj_iff.mp (hia.trans hja.symm))
  · rintro ⟨a, ha, b, hb, hOther, consumer, hConsumer, provider, hProvider, hKind⟩
    refine ⟨?_, consumer, ⟨a, ha, hConsumer⟩, provider, ⟨b, hb, hProvider⟩, hKind⟩
    rintro rfl
    exact hOther (Option.some.inj (ha.symm.trans hb))

theorem order_order_of_acyclic {plugins : List Plugin}
    (hAcyclic : Acyclic (plugins.map (·.manifest))) :
    order (order plugins).1 = order plugins := by
  have hLength := length_run_of_acyclic hAcyclic
  have hSame : (order plugins).1.length = plugins.length := (perm_order plugins).length_eq
  obtain ⟨hNodup, hBound, -⟩ := sound_run (plugins.map (·.manifest))
  rw [order_of_acyclic hAcyclic] at hSame ⊢
  simp only [List.length_map] at hBound
  have hOrderly : Orderly
      (((run (plugins.map (·.manifest))).filterMap fun i => plugins[i]?).map (·.manifest)) := by
    apply orderly_of_reordered hLength
    · intro i j
      have hMoved := dependsOn_filterMap hNodup hBound i j
      rwa [dependsOn_eq, dependsOn_eq] at hMoved
    · rw [List.length_map, List.length_map, hSame]
  rw [order, hOrderly.run_eq]
  simp only [List.length_range, List.length_map, if_true]
  rw [filterMap_range_getElem?]

/-- To schedule a schedule changes nothing. -/
theorem order_order (plugins : List Plugin) : order (order plugins).1 = order plugins := by
  by_cases hAcyclic : Acyclic (plugins.map (·.manifest))
  · exact order_order_of_acyclic hAcyclic
  · rw [order_of_cycle hAcyclic, order_of_cycle hAcyclic]

end BraceDoc.Schedule
