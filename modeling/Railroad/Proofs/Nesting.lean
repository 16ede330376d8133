import Railroad.Rule.Reading

/-!
# Nesting along the paths of a tree

The nesting of a tree is a number that is computed from the nestings of its
children.  This module relates it to the paths of the tree, each of which goes
from the root down to some node and is given by the kinds on its way.

Main results:

- Theorem {lit}`Node.Path.countP_nests_le`: no path carries more groups and loops
  than the nesting says.
- Theorem {lit}`Node.exists_path_countP_nests_eq`: some path carries as many.
- Theorem {lit}`Node.shallow_iff`: no path of a tree carries too many groups and
  loops exactly when the nesting of the tree does not exceed the limit.
-/

namespace Railroad.Node

/-- The kinds on a way from the root of a tree to one of its nodes. -/
inductive Path : Node → List Kind → Prop where
  | root (node : Node) : Path node [node.kind]
  | child {node child : Node} {kinds : List Kind} (hmem : child ∈ node.children)
      (hpath : Path child kinds) : Path node (node.kind :: kinds)

/-- No path carries more groups and loops than a rule may have. -/
def Shallow (node : Node) : Prop :=
  ∀ kinds, node.Path kinds → kinds.countP Kind.nests ≤ maxNesting

/-- Induction on a tree: a property holds of every tree if it holds of a tree
whenever it holds of its children. -/
@[elab_as_elim] theorem childrenInduction {motive : Node → Prop}
    (node : ∀ node, (∀ child ∈ node.children, motive child) → motive node) :
    ∀ tree, motive tree
  | ⟨kind, value, children⟩ =>
    node ⟨kind, value, children⟩ fun child hmem =>
      have : sizeOf child < sizeOf children := List.sizeOf_lt_of_mem hmem
      childrenInduction node child
termination_by tree => sizeOf tree
decreasing_by
  simp only [mk.sizeOf_spec]
  omega

/-- The nesting of a tree from its kind and its children. -/
theorem nesting_eq (node : Node) :
    node.nesting = (if node.kind.nests then 1 else 0) + nestingAll node.children := by
  cases node
  rw [nesting]

/-- The nesting of a tree without children. -/
@[simp] theorem nesting_leaf (kind : Kind) (value : String) :
    nesting ⟨kind, value, []⟩ = if kind.nests then 1 else 0 := by
  simp [nesting_eq, nestingAll]

/-- The nesting of a tree with one child. -/
@[simp] theorem nesting_singleton (kind : Kind) (value : String) (child : Node) :
    nesting ⟨kind, value, [child]⟩ = (if kind.nests then 1 else 0) + child.nesting := by
  simp [nesting_eq, nestingAll]

/-- The nesting of a group or loop around one child. -/
theorem nesting_singleton_of_nests {kind : Kind} (h : kind.nests) (value : String)
    (child : Node) : nesting ⟨kind, value, [child]⟩ = child.nesting + 1 := by
  rw [nesting_singleton, if_pos h, Nat.add_comm]

/-- The greatest nesting among trees is bounded by what bounds each of them. -/
theorem nestingAll_le_iff (nodes : List Node) (k : Nat) :
    nestingAll nodes ≤ k ↔ ∀ node ∈ nodes, node.nesting ≤ k := by
  induction nodes with
  | nil => simp [nestingAll]
  | cons node nodes ih => rw [nestingAll, Nat.max_le, ih, List.forall_mem_cons]

/-- Trees that nest at all have one among them that nests as much as any. -/
theorem exists_mem_nesting_eq {nodes : List Node} (h : nodes ≠ []) :
    ∃ node ∈ nodes, node.nesting = nestingAll nodes := by
  induction nodes with
  | nil => exact absurd rfl h
  | cons node nodes ih =>
    by_cases hle : nestingAll nodes ≤ node.nesting
    · exact ⟨node, by simp, by simp [nestingAll, hle]⟩
    · have hnodes : nodes ≠ [] := by
        rintro rfl
        simp [nestingAll] at hle
      obtain ⟨deepest, hmem, hdeepest⟩ := ih hnodes
      refine ⟨deepest, by simp [hmem], ?_⟩
      rw [nestingAll, hdeepest]
      omega

/-- No path carries more groups and loops than the nesting of the tree. -/
theorem Path.countP_nests_le {node : Node} {kinds : List Kind} (h : node.Path kinds) :
    kinds.countP Kind.nests ≤ node.nesting := by
  induction h with
  | root node =>
    rw [nesting_eq, List.countP_singleton]
    omega
  | @child node child kinds hmem hpath ih =>
    have hchild : child.nesting ≤ nestingAll node.children :=
      (nestingAll_le_iff node.children _).mp (Nat.le_refl _) child hmem
    rw [nesting_eq, List.countP_cons]
    omega

/-- Some path carries as many groups and loops as the nesting of the tree. -/
theorem exists_path_countP_nests_eq (node : Node) :
    ∃ kinds, node.Path kinds ∧ kinds.countP Kind.nests = node.nesting := by
  induction node using childrenInduction with
  | node node ih =>
    by_cases hchildren : node.children = []
    · refine ⟨[node.kind], .root node, ?_⟩
      rw [nesting_eq, List.countP_singleton, hchildren, nestingAll, Nat.add_zero]
    · obtain ⟨child, hmem, hchild⟩ := exists_mem_nesting_eq hchildren
      obtain ⟨kinds, hpath, hcount⟩ := ih child hmem
      refine ⟨node.kind :: kinds, .child hmem hpath, ?_⟩
      rw [nesting_eq, List.countP_cons, hcount, hchild, Nat.add_comm]

/-- A tree is shallow exactly when its nesting does not exceed the limit. -/
theorem shallow_iff (node : Node) : node.Shallow ↔ node.nesting ≤ maxNesting := by
  constructor
  · intro h
    obtain ⟨kinds, hpath, hcount⟩ := exists_path_countP_nests_eq node
    rw [← hcount]
    exact h kinds hpath
  · intro h kinds hpath
    exact Nat.le_trans (Path.countP_nests_le hpath) h

end Railroad.Node
