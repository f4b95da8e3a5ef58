import TypeDrift.Expr.Basic

/-!
Trees. The parts of an expression, the parts of these, and so on form a tree. What does not depend
on the forms (the order in which nodes come, their depths, their numbers) is said of trees here, by
recursion on the tree.
-/
namespace TypeDrift

/-- A labelled tree with its branches in order. -/
inductive Tree (α : Type) where
  | node (label : α) (branches : List (Tree α))
deriving Repr

/-- A node of a tree that has been numbered: its own number, and the number of the node it hangs
from. -/
structure Numbered (α : Type) where
  id : Nat
  parent : Nat
  label : α
deriving Repr

namespace Tree
variable {α : Type}

mutual

/-- The labels of a tree, each before those of its branches. -/
def preorder : Tree α → List α
  | node label branches => label :: preorderAll branches

/-- The labels of some trees, one tree after the other. -/
def preorderAll : List (Tree α) → List α
  | [] => []
  | tree :: trees => tree.preorder ++ preorderAll trees

end

mutual

/-- The labels of a tree in the same order, each with the number of labels above it. -/
def depths (depth : Nat) : Tree α → List (Nat × α)
  | node label branches => (depth, label) :: depthsAll (depth + 1) branches

/-- The labels of some trees with their depths. -/
def depthsAll (depth : Nat) : List (Tree α) → List (Nat × α)
  | [] => []
  | tree :: trees => tree.depths depth ++ depthsAll depth trees

end

mutual

/-- The nodes of a tree in the same order, numbered from `id` on. The root hangs from `parent`. -/
def number (id parent : Nat) : Tree α → List (Numbered α)
  | node label branches => ⟨id, parent, label⟩ :: numberAll (id + 1) id branches

/-- The nodes of some trees that hang from one node, each tree numbered behind the one before. -/
def numberAll (id parent : Nat) : List (Tree α) → List (Numbered α)
  | [] => []
  | tree :: trees =>
    let first := tree.number id parent
    first ++ numberAll (id + first.length) parent trees

end

end Tree

/-- The tree of an expression: every node is labelled with the expression it stands for. -/
def Expr.tree (e : Expr) : Tree Expr :=
  .node e (e.children.attach.map fun child => child.1.tree)
termination_by sizeOf e
decreasing_by exact sizeOf_child_lt child.2

theorem Expr.tree_eq (e : Expr) : e.tree = .node e (e.children.map Expr.tree) := by
  rw [Expr.tree]
  simp

namespace Expr

/-- An expression and everything in it, each before its parts. -/
def preorder (e : Expr) : List Expr := e.tree.preorder

/-- Some expressions and everything in them. -/
def preorderAll (es : List Expr) : List Expr := es.flatMap preorder

theorem preorder_eq (e : Expr) : e.preorder = e :: preorderAll e.children := by
  have hall (trees : List (Tree Expr)) : Tree.preorderAll trees = trees.flatMap Tree.preorder := by
    induction trees with
    | nil => rw [Tree.preorderAll, List.flatMap_nil]
    | cons tree trees ih => rw [Tree.preorderAll, List.flatMap_cons, ih]
  rw [preorder, tree_eq, Tree.preorder, hall, List.flatMap_map]
  rfl

/-- What holds of everything in an expression holds of the expression and of everything in its
parts. -/
theorem forall_mem_preorder_iff {p : Expr → Prop} {e : Expr} :
    (∀ x ∈ e.preorder, p x) ↔ p e ∧ ∀ child ∈ e.children, ∀ x ∈ child.preorder, p x := by
  rw [preorder_eq, List.forall_mem_cons, preorderAll, List.forall_mem_flatMap]

/-- What is in something in an expression is in the expression. -/
theorem mem_preorder_trans {e node inner : Expr} (hinner : inner ∈ node.preorder)
    (hnode : node ∈ e.preorder) : inner ∈ e.preorder := by
  induction e using induction_children with
  | step e ih =>
    rw [preorder_eq, List.mem_cons, preorderAll, List.mem_flatMap] at hnode
    rcases hnode with rfl | ⟨child, hchild, hmem⟩
    · exact hinner
    · rw [preorder_eq]
      exact List.mem_cons_of_mem _ (List.mem_flatMap.mpr ⟨child, hchild, ih child hchild hmem⟩)

end Expr
end TypeDrift
