import Railroad.Proofs.Nesting

/-!
# The leaves of a tree

The nodes that show a text of their own are terminals, names and remarks.  In a rule they
have no children, but in other trees they may.

Main definitions:

- Definition {lit}`Node.leaves`: these nodes, each by its kind and its value.
-/

namespace Railroad

/-- Whether nodes of this kind show a text. -/
def Kind.shows : Kind → Bool
  | remark | terminal | nonTerminal => true
  | _ => false

namespace Node

mutual

/-- The nodes that show a text, from left to right, each before those below it. -/
def leaves : Node → List (Kind × String)
  | ⟨kind, value, children⟩ => (if kind.shows then [(kind, value)] else []) ++ leavesAll children

/-- The leaves of some trees. -/
def leavesAll : List Node → List (Kind × String)
  | [] => []
  | node :: nodes => node.leaves ++ leavesAll nodes

end

/-- The leaves of a tree from its children. -/
theorem leaves_eq (node : Node) :
    node.leaves =
      (if node.kind.shows then [(node.kind, node.value)] else []) ++ leavesAll node.children := by
  cases node
  rw [leaves]

theorem leavesAll_eq_flatMap (nodes : List Node) : leavesAll nodes = nodes.flatMap leaves := by
  induction nodes with
  | nil => rfl
  | cons node nodes ih => rw [leavesAll, ih, List.flatMap_cons]

/-- What holds for all leaves of a tree holds for those of its children. -/
theorem forall_leaves_child {P : Kind × String → Prop} {node child : Node}
    (hchild : child ∈ node.children) (h : ∀ leaf ∈ node.leaves, P leaf) :
    ∀ leaf ∈ child.leaves, P leaf := by
  intro leaf hleaf
  apply h
  rw [leaves_eq, leavesAll_eq_flatMap]
  exact List.mem_append_right _ (List.mem_flatMap_of_mem hchild hleaf)

end Node

end Railroad
