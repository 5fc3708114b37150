/-!
# Orders of dependence

`postorder` walks a finite directed graph depth first and lists every node behind the nodes it leads
to, as far as cycles allow it: a node is not entered again while it is being walked. The walk draws
on a pool of nodes that have not been entered, which shrinks with every node.
-/

set_option autoImplicit false

namespace BraceDoc

variable {κ : Type} [DecidableEq κ]

/-- The nodes that can be entered from `todo` through `pool`, each behind those it leads to, and the
nodes of the pool that are left. -/
def postorder (next : κ → List κ) (todo pool : List κ) :
    { result : List κ × List κ // result.2.length ≤ pool.length } :=
  match todo with
  | [] => ⟨([], pool), Nat.le_refl _⟩
  | node :: rest =>
    if hPool : node ∈ pool then
      have hErase : (pool.erase node).length < pool.length := by
        have hLength := List.length_erase_of_mem hPool
        have hPos := List.length_pos_of_mem hPool
        omega
      match postorder next (next node) (pool.erase node) with
      | ⟨(before, middle), hMiddle⟩ =>
        have hLess : middle.length < pool.length := Nat.lt_of_le_of_lt hMiddle hErase
        match postorder next rest middle with
        | ⟨(behind, left), hLeft⟩ =>
          ⟨(before ++ node :: behind, left), Nat.le_trans hLeft (Nat.le_of_lt hLess)⟩
    else
      postorder next rest pool
termination_by (pool.length, todo.length)
decreasing_by
  · exact Prod.Lex.left _ _ hErase
  · exact Prod.Lex.left _ _ hLess
  · exact Prod.Lex.right _ (Nat.lt_succ_self _)

def successors (edges : List (κ × κ)) (node : κ) : List κ :=
  edges.filterMap fun edge => if edge.1 = node then some edge.2 else none

def occurring (nodes : List κ) (edges : List (κ × κ)) : List κ :=
  (nodes ++ edges.flatMap fun edge => [edge.1, edge.2]).eraseDups

/-- The nodes of a graph, each behind the nodes it depends on, starting from `entry`. -/
def dependencyOrder (nodes : List κ) (edges : List (κ × κ)) (entry : κ) : List κ :=
  let walk := postorder (successors edges) (entry :: nodes) (occurring (entry :: nodes) edges)
  walk.val.1.filter (· ∈ nodes)

end BraceDoc
