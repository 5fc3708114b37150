import BraceDoc.Lists
import BraceDoc.Proofs.Import.Exact
import Mathlib.Data.List.Nodup
import Mathlib.Logic.Relation

/-!
# Dependencies come first

A depth-first walk that lists nodes as it leaves them lists every node behind the nodes it leads to,
unless one of these leads back: a node that is still to be listed when another is left is either
being walked, and then it leads to that other, or it cannot be entered from it any more. So the
documents of a graph are ordered by dependence as far as cycles allow. In a graph that was built the
entry leads to all documents, and comes last.
-/

set_option autoImplicit false

namespace BraceDoc

section Postorder

variable {κ : Type} [DecidableEq κ] {next : κ → List κ}

/-- From `todo` and a pool of nodes, a walk lists the nodes of `order` and leaves those of
`left`. -/
inductive Postorder (next : κ → List κ) : List κ → List κ → List κ → List κ → Prop
  | done (pool : List κ) : Postorder next [] pool [] pool
  | enter {node : κ} {rest pool before middle behind left : List κ} (hPool : node ∈ pool)
      (hInner : Postorder next (next node) (pool.erase node) before middle)
      (hOuter : Postorder next rest middle behind left) :
      Postorder next (node :: rest) pool (before ++ node :: behind) left
  | skip {node : κ} {rest pool order left : List κ} (hPool : node ∉ pool)
      (hOuter : Postorder next rest pool order left) :
      Postorder next (node :: rest) pool order left

theorem postorder_of_mem {node : κ} {rest pool : List κ} (hPool : node ∈ pool) :
    (postorder next (node :: rest) pool).val =
      let inner := (postorder next (next node) (pool.erase node)).val
      let outer := (postorder next rest inner.2).val
      (inner.1 ++ node :: outer.1, outer.2) := by
  rw [postorder, dif_pos hPool]

theorem walks_postorder (next : κ → List κ) (todo pool : List κ) :
    Postorder next todo pool (postorder next todo pool).val.1 (postorder next todo pool).val.2 := by
  induction todo, pool using postorder.induct next with
  | case1 pool =>
    rw [postorder]
    exact .done pool
  | case2 pool node rest hPool hErase before middle hMiddle hInner hLess behind left hLeft hOuter
      ihInner ihOuter =>
    obtain rfl : middle = (postorder next (next node) (pool.erase node)).val.2 := by rw [hInner]
    rw [postorder_of_mem hPool]
    exact .enter hPool ihInner ihOuter
  | case3 pool node rest hPool ih =>
    rw [postorder, dif_neg hPool]
    exact .skip hPool ih

namespace Postorder

variable {todo pool order left : List κ}

theorem perm (hWalk : Postorder next todo pool order left) : (order ++ left).Perm pool := by
  induction hWalk with
  | done pool => exact .refl _
  | enter hPool hInner hOuter ihInner ihOuter =>
    rename_i node rest pool before middle behind left
    have hParts : (before ++ (behind ++ left)).Perm (pool.erase node) :=
      (ihOuter.append_left before).trans ihInner
    rw [List.append_assoc, List.cons_append]
    exact List.perm_middle.trans ((hParts.cons node).trans (List.perm_cons_erase hPool).symm)
  | skip hPool hOuter ih => exact ih

theorem mem_or_mem (hWalk : Postorder next todo pool order left) {x : κ} :
    x ∈ pool ↔ x ∈ order ∨ x ∈ left := by
  rw [← hWalk.perm.mem_iff, List.mem_append]

/-- Whatever is to be entered and is in the pool is listed. -/
theorem mem_of_mem_todo (hWalk : Postorder next todo pool order left) {x : κ} (hTodo : x ∈ todo)
    (hx : x ∈ pool) : x ∈ order := by
  induction hWalk with
  | done pool => cases hTodo
  | enter hPool hInner hOuter ihInner ihOuter =>
    rename_i node rest pool before middle behind left
    by_cases hNode : x = node
    · simp [hNode]
    · have hErase : x ∈ pool.erase node := (List.mem_erase_of_ne hNode).mpr hx
      rcases hInner.mem_or_mem.mp hErase with hBefore | hMiddle
      · exact List.mem_append_left _ hBefore
      · have hRest := (List.mem_cons.mp hTodo).resolve_left hNode
        exact List.mem_append_right _ (List.mem_cons_of_mem _ (ihOuter hRest hMiddle))
  | skip hPool hOuter ih =>
    rcases List.mem_cons.mp hTodo with rfl | hRest
    · exact absurd hx hPool
    · exact ih hRest hx

/-- What a listed node leads to is listed too, unless it was entered before. -/
theorem mem_of_mem_next (hWalk : Postorder next todo pool order left) {x y : κ} (hx : x ∈ order)
    (hNext : y ∈ next x) (hy : y ∈ pool) : y ∈ order := by
  induction hWalk with
  | done pool => cases hx
  | enter hPool hInner hOuter ihInner ihOuter =>
    rename_i node rest pool before middle behind left
    by_cases hNode : y = node
    · simp [hNode]
    · have hErase : y ∈ pool.erase node := (List.mem_erase_of_ne hNode).mpr hy
      rcases hInner.mem_or_mem.mp hErase with hBefore | hMiddle
      · exact List.mem_append_left _ hBefore
      · rcases List.mem_append.mp hx with hx | hx
        · exact List.mem_append_left _ (ihInner hx hErase)
        · rcases List.mem_cons.mp hx with rfl | hx
          · exact List.mem_append_left _ (hInner.mem_of_mem_todo hNext hErase)
          · exact List.mem_append_right _ (List.mem_cons_of_mem _ (ihOuter hx hMiddle))
  | skip hPool hOuter ih => exact ih hx hy

/-- Something to be entered leads to every listed node. -/
theorem exists_todo (hWalk : Postorder next todo pool order left) {x : κ} (hx : x ∈ order) :
    ∃ first ∈ todo, Relation.ReflTransGen (fun a b => b ∈ next a) first x := by
  induction hWalk with
  | done pool => cases hx
  | enter hPool hInner hOuter ihInner ihOuter =>
    rename_i node rest pool before middle behind left
    rcases List.mem_append.mp hx with hx | hx
    · obtain ⟨first, hFirst, hPath⟩ := ihInner hx
      exact ⟨node, List.mem_cons_self, hPath.head hFirst⟩
    · rcases List.mem_cons.mp hx with rfl | hx
      · exact ⟨x, List.mem_cons_self, .refl⟩
      · obtain ⟨first, hFirst, hPath⟩ := ihOuter hx
        exact ⟨first, List.mem_cons_of_mem _ hFirst, hPath⟩
  | skip hPool hOuter ih =>
    obtain ⟨first, hFirst, hPath⟩ := ih hx
    exact ⟨first, List.mem_cons_of_mem _ hFirst, hPath⟩

/-- A listed node stands behind what it leads to, unless that leads back. -/
theorem sublist_or_path (hWalk : Postorder next todo pool order left) (hNodup : pool.Nodup)
    {x y : κ} (hx : x ∈ order) (hNext : y ∈ next x) (hy : y ∈ order) :
    [y, x].Sublist order ∨ Relation.ReflTransGen (fun a b => b ∈ next a) y x := by
  induction hWalk with
  | done pool => cases hx
  | enter hPool hInner hOuter ihInner ihOuter =>
    rename_i node rest pool before middle behind left
    have hErased : (pool.erase node).Nodup := hNodup.erase node
    have hParts := List.nodup_append.mp (hInner.perm.nodup_iff.mpr hErased)
    have hMiddle : ∀ z ∈ behind, z ∈ middle := fun z hz => hOuter.mem_or_mem.mpr (Or.inl hz)
    -- What is listed behind `node` could be entered before, so nothing before leads to it.
    have hLate : ∀ z ∈ behind, z ∈ pool.erase node ∧ z ∉ before := fun z hz =>
      ⟨hInner.mem_or_mem.mpr (Or.inr (hMiddle z hz)),
        fun hBefore => hParts.2.2 z hBefore z (hMiddle z hz) rfl⟩
    simp only [List.mem_append, List.mem_cons] at hx hy
    rcases hx with hx | rfl | hx <;> rcases hy with hy | rfl | hy
    · refine (ihInner hErased hx hy).imp_left fun hSub => ?_
      exact hSub.trans (List.sublist_append_left _ _)
    · obtain ⟨first, hFirst, hPath⟩ := hInner.exists_todo hx
      exact Or.inr (hPath.head hFirst)
    · exact absurd (hInner.mem_of_mem_next hx hNext (hLate y hy).1) (hLate y hy).2
    · exact Or.inl ((List.singleton_sublist.mpr hy).append
        (List.singleton_sublist.mpr List.mem_cons_self))
    · exact Or.inr .refl
    · exact absurd (hInner.mem_of_mem_todo hNext (hLate y hy).1) (hLate y hy).2
    · exact Or.inl ((List.singleton_sublist.mpr hy).append
        (List.singleton_sublist.mpr (List.mem_cons_of_mem _ hx)))
    · exact Or.inl (((List.singleton_sublist.mpr hx).cons_cons y).trans
        (List.sublist_append_right _ _))
    · refine (ihOuter (hParts.2.1) hx hy).imp_left fun hSub => ?_
      exact hSub.trans ((List.sublist_cons_self _ _).trans (List.sublist_append_right _ _))
  | skip hPool hOuter ih => exact ih hNodup hx hy

/-- A walk from what a node leads to lists all that can be reached from it. -/
theorem eq_or_mem_of_path {node : κ} {before middle : List κ}
    (hInner : Postorder next (next node) (pool.erase node) before middle)
    (hPool : ∀ x y, y ∈ next x → y ∈ pool) {x : κ}
    (hPath : Relation.ReflTransGen (fun a b => b ∈ next a) node x) : x = node ∨ x ∈ before := by
  induction hPath with
  | refl => exact Or.inl rfl
  | @tail x y _ hNext ih =>
    by_cases hNode : y = node
    · exact Or.inl hNode
    · have hErase : y ∈ pool.erase node := (List.mem_erase_of_ne hNode).mpr (hPool x y hNext)
      rcases ih with rfl | hBefore
      · exact Or.inr (hInner.mem_of_mem_todo hNext hErase)
      · exact Or.inr (hInner.mem_of_mem_next hBefore hNext hErase)

end Postorder

/-! ## Orders of the nodes of a graph -/

variable {nodes : List κ} {edges : List (κ × κ)} {entry : κ}

theorem mem_successors_iff {x y : κ} : y ∈ successors edges x ↔ (x, y) ∈ edges := by
  rw [successors, List.mem_filterMap]
  constructor
  · rintro ⟨⟨a, b⟩, hEdge, hEnd⟩
    split at hEnd
    · rename_i hStart
      cases hStart
      cases hEnd
      exact hEdge
    · cases hEnd
  · intro hEdge
    exact ⟨(x, y), hEdge, if_pos rfl⟩

theorem mem_occurring_of_mem {x : κ} (hx : x ∈ nodes) : x ∈ occurring nodes edges :=
  List.mem_eraseDups.mpr (List.mem_append_left _ hx)

theorem mem_occurring_of_edge {x y : κ} (hEdge : (x, y) ∈ edges) : y ∈ occurring nodes edges := by
  refine List.mem_eraseDups.mpr (List.mem_append_right _ (List.mem_flatMap.mpr ⟨_, hEdge, ?_⟩))
  simp

/-- The walk that gives the order of dependence lists every node once. -/
theorem exists_walk (nodes : List κ) (edges : List (κ × κ)) (entry : κ) :
    ∃ order left, Postorder (successors edges) (entry :: nodes)
        (occurring (entry :: nodes) edges) order left ∧
      dependencyOrder nodes edges entry = order.filter (· ∈ nodes) ∧
      (order ++ left).Nodup ∧ ∀ x ∈ nodes, x ∈ order := by
  have hWalk :=
    walks_postorder (successors edges) (entry :: nodes) (occurring (entry :: nodes) edges)
  refine ⟨_, _, hWalk, rfl, hWalk.perm.nodup_iff.mpr (nodup_eraseDups _), fun x hx => ?_⟩
  have hTodo : x ∈ entry :: nodes := List.mem_cons_of_mem _ hx
  exact hWalk.mem_of_mem_todo hTodo (mem_occurring_of_mem hTodo)

theorem perm_dependencyOrder (hNodup : nodes.Nodup) :
    (dependencyOrder nodes edges entry).Perm nodes := by
  obtain ⟨order, left, -, hOrder, hAll, hListed⟩ := exists_walk nodes edges entry
  rw [hOrder, List.perm_ext_iff_of_nodup ((List.nodup_append.mp hAll).1.filter _) hNodup]
  intro x
  rw [List.mem_filter, decide_eq_true_eq, and_iff_right_iff_imp]
  exact hListed x

theorem sublist_or_path_dependencyOrder {x y : κ} (hEdge : (x, y) ∈ edges) (hx : x ∈ nodes)
    (hy : y ∈ nodes) : [y, x].Sublist (dependencyOrder nodes edges entry) ∨
      Relation.ReflTransGen (fun a b => (a, b) ∈ edges) y x := by
  obtain ⟨order, left, hWalk, hOrder, -, hListed⟩ := exists_walk nodes edges entry
  have hNext := mem_successors_iff.mpr hEdge
  rcases hWalk.sublist_or_path (nodup_eraseDups _) (hListed x hx) hNext (hListed y hy) with
    hSub | hPath
  · refine Or.inl ?_
    have hFilter := hSub.filter (· ∈ nodes)
    rw [← hOrder] at hFilter
    simpa [hx, hy] using hFilter
  · simp only [mem_successors_iff] at hPath
    exact Or.inr hPath

/-- An entry that leads to all nodes is the last of them. -/
theorem exists_dependencyOrder_eq (hEntry : entry ∈ nodes)
    (hReached : ∀ x ∈ nodes, Relation.ReflTransGen (fun a b => (a, b) ∈ edges) entry x) :
    ∃ before, dependencyOrder nodes edges entry = before ++ [entry] := by
  obtain ⟨order, left, hWalk, hOrder, hAll, -⟩ := exists_walk nodes edges entry
  rw [hOrder]
  cases hWalk with
  | skip hPool => exact absurd (mem_occurring_of_mem List.mem_cons_self) hPool
  | @enter _ _ _ before middle behind _ hPool hInner hOuter =>
    have hBehind : behind.filter (· ∈ nodes) = [] := by
      rw [List.filter_eq_nil_iff]
      intro x hx hNode
      have hPath := hReached x (of_decide_eq_true hNode)
      simp only [← mem_successors_iff] at hPath
      have hListed := hInner.eq_or_mem_of_path
        (fun a b hNext => mem_occurring_of_edge (mem_successors_iff.mp hNext)) hPath
      rw [List.append_assoc, List.cons_append, List.nodup_append, List.nodup_cons] at hAll
      rcases hListed with rfl | hBefore
      · exact hAll.2.1.1 (List.mem_append_left _ hx)
      · exact hAll.2.2 x hBefore x (List.mem_cons_of_mem _ (List.mem_append_left _ hx)) rfl
    refine ⟨before.filter (· ∈ nodes), ?_⟩
    rw [List.filter_append, List.filter_cons, if_pos (decide_eq_true hEntry), hBehind]

end Postorder

namespace Graph

variable {g : Graph}

theorem links_eq (edges : List Edge) :
    Edge.Links edges = fun x y => (x, y) ∈ edges.map fun e => (e.source, e.target) := by
  funext x y
  simp only [List.mem_map, Prod.mk.injEq, Edge.Links]

theorem exists_document? {file : Path} (hFile : file ∈ g.files) :
    ∃ d, g.document? file = some d ∧ d.file = file := by
  obtain ⟨d, hd, rfl⟩ := List.mem_map.mp hFile
  have hSome : (g.document? d.file).isSome = true :=
    List.find?_isSome.mpr ⟨d, hd, beq_self_eq_true d.file⟩
  obtain ⟨d', hFind⟩ := Option.isSome_iff_exists.mp hSome
  have hFound := List.find?_some (p := fun d' : SourceFile => d'.file == d.file) hFind
  exact ⟨d', hFind, beq_iff_eq.mp hFound⟩

theorem files_ordered (g : Graph) : g.ordered.map (·.file) =
    dependencyOrder g.files (g.edges.map fun e => (e.source, e.target)) g.entry := by
  rw [ordered, List.map_filterMap]
  refine (List.filterMap_congr ?_).trans List.filterMap_some
  intro file hFile
  rw [dependencyOrder, List.mem_filter, decide_eq_true_eq] at hFile
  obtain ⟨d, hFind, hSame⟩ := exists_document? hFile.2
  rw [hFind, Option.map_some, hSame]

theorem perm_ordered (hNodup : g.files.Nodup) : g.ordered.Perm g.documents := by
  have hOrder : g.ordered.Perm (g.files.filterMap g.document?) :=
    (perm_dependencyOrder hNodup).filterMap g.document?
  have hDocuments : g.files.filterMap g.document? = g.documents := by
    rw [files, List.filterMap_map]
    refine (List.filterMap_congr ?_).trans List.filterMap_some
    intro d hd
    exact document?_of_nodup hNodup hd
  rwa [hDocuments] at hOrder

theorem nodup_files_of_build {setup : WalkSetup} {entry : Path}
    (hBuild : (build setup entry).graph = .ok g) : g.files.Nodup := by
  obtain ⟨-, -, -, hDocuments, -, -⟩ := outcome_of_build hBuild
  rw [files, hDocuments]
  exact (setup.course_outcome entry).1.account.nodup

theorem reached_of_build {setup : WalkSetup} {entry : Path}
    (hBuild : (build setup entry).graph = .ok g) :
    g.entry ∈ g.files ∧
      ∀ file ∈ g.files, Relation.ReflTransGen (Edge.Links g.edges) g.entry file := by
  obtain ⟨-, hEntry, hLoaded, hDocuments, hEdges, -⟩ := outcome_of_build hBuild
  rw [files, hDocuments, hEdges]
  refine ⟨hLoaded, ?_⟩
  rw [hEntry]
  exact (setup.course_outcome entry).1.reached

/-- All documents, each once, and each behind those it has an edge to, unless these lead back. -/
structure DependenciesFirst (g : Graph) (order : List SourceFile) : Prop where
  perm : order.Perm g.documents
  before : ∀ e ∈ g.edges, e.source ∈ g.files → e.target ∈ g.files →
    ¬ Relation.ReflTransGen (Edge.Links g.edges) e.target e.source →
      [e.target, e.source].Sublist (order.map (·.file))

theorem dependenciesFirst_ordered :
    (∀ g : Graph, g.files.Nodup → g.DependenciesFirst g.ordered) ∧
      ∀ (setup : WalkSetup) (entry : Path) (g : Graph), (build setup entry).graph = .ok g →
        g.files.Nodup ∧ ∃ before d, g.ordered = before ++ [d] ∧ d.file = g.entry := by
  constructor
  · intro g hNodup
    refine ⟨perm_ordered hNodup, ?_⟩
    intro e he hSource hTarget hApart
    rw [files_ordered]
    rw [links_eq] at hApart
    have hEdge := List.mem_map_of_mem (f := fun e : Edge => (e.source, e.target)) he
    exact (sublist_or_path_dependencyOrder hEdge hSource hTarget).resolve_right hApart
  · intro setup entry g hBuild
    refine ⟨nodup_files_of_build hBuild, ?_⟩
    obtain ⟨hEntry, hReached⟩ := reached_of_build hBuild
    rw [links_eq] at hReached
    obtain ⟨before, hOrder⟩ := exists_dependencyOrder_eq hEntry hReached
    rw [← files_ordered, List.map_eq_append_iff] at hOrder
    obtain ⟨first, last, hSplit, -, hLast⟩ := hOrder
    obtain ⟨d, rfl, hFile⟩ := List.map_eq_singleton_iff.mp hLast
    exact ⟨first, d, hSplit, hFile⟩

/-- A cycle behind the entry, an edge that is there twice, an edge from a file to itself, and a way
through a file that is no document. -/
def tangled : Graph where
  entry := ⟨"a"⟩
  documents := ["a", "b", "c", "d"].map fun name => ⟨⟨name⟩, "", default, []⟩
  edges :=
    [("a", "gone"), ("gone", "d"), ("a", "b"), ("a", "b"), ("b", "c"), ("c", "b"), ("c", "c"),
      ("d", "c")].map fun ends => ⟨⟨ends.1⟩, ⟨ends.2⟩, ends.2, none⟩

/-- Two files that import each other, and a companion of the first. -/
def mutualTree : FileTree where
  files := [(⟨"/p/a.sh1"⟩, "\x7bimport: b\x7d"), (⟨"/p/a.x.sh1"⟩, ""),
    (⟨"/p/b.sh1"⟩, "\x7bimport: a\x7d")]

def mutualSetup : WalkSetup where
  system := mutualTree.system

theorem dependenciesFirst_ordered_tangled :
    (tangled.files.Nodup ∧ tangled.DependenciesFirst tangled.ordered) ∧
      ∃ g, (build mutualSetup ⟨"/p/a.sh1"⟩).graph = .ok g ∧
        ∃ before d, g.ordered = before ++ [d] ∧ d.file = g.entry := by
  have hNodup : tangled.files.Nodup := by decide
  have hStored : mutualSetup.entryFile ⟨"/p/a.sh1"⟩ ∈ mutualSetup.system.stored := by
    decide +kernel
  have hRead : mutualSetup.system.read (mutualSetup.entryFile ⟨"/p/a.sh1"⟩) =
      .ok "\x7bimport: b\x7d" := by
    decide +kernel
  obtain ⟨g, hBuild⟩ := exists_build_tolerate hStored hRead
  exact ⟨⟨hNodup, dependenciesFirst_ordered.1 tangled hNodup⟩, g, hBuild,
    (dependenciesFirst_ordered.2 mutualSetup ⟨"/p/a.sh1"⟩ g hBuild).2⟩

end Graph

end BraceDoc
