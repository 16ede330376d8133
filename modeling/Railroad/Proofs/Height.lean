import Railroad.Proofs.NormalForm

/-!
# The height of trees

The height of a tree is the number of nodes on its longest path.  The containers that
can stand between two groups or loops of a tree in normal form are few, so that the
height is bounded by the nesting.

Main definitions:

- Definition {lit}`Node.height`: the number of nodes on the longest path.
- Definition {lit}`Node.PathsWithin`: bounds on what a path carries.

Main results:

- Theorem {lit}`Node.Normal.height_le`: how high a tree in normal form can be.
-/

namespace Railroad

namespace Node

mutual

/-- The number of nodes on the longest way from the root to a leaf. -/
def height : Node → Nat
  | ⟨_, _, children⟩ => 1 + heightAll children

/-- The greatest height among trees. -/
def heightAll : List Node → Nat
  | [] => 0
  | node :: nodes => max node.height (heightAll nodes)

end

/-- The height of a tree from its children. -/
theorem height_eq (node : Node) : node.height = 1 + heightAll node.children := by
  cases node
  rw [height]

/-- The height of a tree without children. -/
@[simp] theorem height_leaf (kind : Kind) (value : String) : height ⟨kind, value, []⟩ = 1 := by
  simp [height_eq, heightAll]

/-- The height of a tree with one child. -/
@[simp] theorem height_singleton (kind : Kind) (value : String) (child : Node) :
    height ⟨kind, value, [child]⟩ = 1 + child.height := by
  simp [height_eq, heightAll]

/-- The root alone makes a tree one node high. -/
theorem height_pos (node : Node) : 0 < node.height := by
  rw [height_eq]
  omega

/-- The greatest height among trees is bounded by what bounds each of them. -/
theorem heightAll_le_iff (nodes : List Node) (k : Nat) :
    heightAll nodes ≤ k ↔ ∀ node ∈ nodes, node.height ≤ k := by
  induction nodes with
  | nil => simp [heightAll]
  | cons node nodes ih => rw [heightAll, Nat.max_le, ih, List.forall_mem_cons]

/-- The height of a tree whose nesting bounds the heights of its children. -/
theorem height_le_of_forall_child {kind : Kind} {value : String} {nodes : List Node} {k : Nat}
    (h : ∀ node ∈ nodes, node.height ≤ 5 * node.nesting + k) :
    height ⟨kind, value, nodes⟩ ≤ 5 * nestingAll nodes + k + 1 := by
  have hall : heightAll nodes ≤ 5 * nestingAll nodes + k := by
    rw [heightAll_le_iff]
    intro node hnode
    have hnesting := (nestingAll_le_iff nodes _).mp (Nat.le_refl _) node hnode
    have hheight := h node hnode
    omega
  rw [height_eq]
  change 1 + heightAll nodes ≤ _
  omega

/-! ## Paths -/

/-- No path has more nodes than the height says. -/
theorem Path.length_le_height {node : Node} {kinds : List Kind} (h : node.Path kinds) :
    kinds.length ≤ node.height := by
  induction h with
  | root node => exact node.height_pos
  | @child node child kinds hmem hpath ih =>
    have hchild : child.height ≤ heightAll node.children :=
      (heightAll_le_iff node.children _).mp (Nat.le_refl _) child hmem
    rw [height_eq, List.length_cons]
    omega

/-- No path carries more than `nestings` groups and loops, nor has more than `nodes` nodes. -/
def PathsWithin (nestings nodes : Nat) (node : Node) : Prop :=
  ∀ kinds, node.Path kinds → kinds.countP Kind.nests ≤ nestings ∧ kinds.length ≤ nodes

/-- Bounds on the nesting and the height are bounds on every path. -/
theorem pathsWithin {nestings nodes : Nat} {node : Node} (hnesting : node.nesting ≤ nestings)
    (hheight : node.height ≤ nodes) : node.PathsWithin nestings nodes :=
  fun _ hpath => ⟨hpath.countP_nests_le.trans hnesting, hpath.length_le_height.trans hheight⟩

/-! ## Trees in normal form -/

/-- The place of a layer, from the innermost one. -/
def Layer.rank : Layer → Nat
  | element => 1
  | branch => 2
  | choice => 3
  | optional => 4
  | body => 5

/-- A tree in normal form has at most four more containers around each of its groups and
loops, and at most four around the innermost leaves. -/
theorem Normal.height_le {layer : Layer} {node : Node} (h : Normal layer node) :
    node.height ≤ 5 * node.nesting + layer.rank := by
  -- Each container takes one more rank; a group or loop starts over at the lowest one, and
  -- adds five for its own nesting.
  induction h with
  | name hname => simp [Layer.rank, Kind.nests]
  | terminal hterminal => simp [Layer.rank, Kind.nests]
  | remark hbracket htrim => simp [Layer.rank, Kind.nests]
  | emptyGroup => simp [Layer.rank, Kind.nests]
  | group hinner ih =>
    simp only [height_singleton, nesting_singleton, Kind.nests, Layer.rank, if_true] at ih ⊢
    omega
  | loop hinner ih =>
    simp only [height_singleton, nesting_singleton, Kind.nests, Layer.rank, if_true] at ih ⊢
    omega
  | single hnode ih =>
    simp only [Layer.rank] at ih ⊢
    omega
  | sequence hlength hnodes ih =>
    rw [nesting_eq]
    exact Nat.le_trans (height_le_of_forall_child ih) (by simp [Layer.rank, Kind.nests])
  | only hnode ih =>
    simp only [Layer.rank] at ih ⊢
    omega
  | choice hlength hnodes ih =>
    rw [nesting_eq]
    exact Nat.le_trans (height_le_of_forall_child ih) (by simp [Layer.rank, Kind.nests])
  | notRight hnode ih =>
    simp only [Layer.rank] at ih ⊢
    omega
  | right hnode ih =>
    simp only [height_singleton, nesting_singleton, Layer.rank] at ih ⊢
    omega
  | notLeft hnode ih =>
    simp only [Layer.rank] at ih ⊢
    omega
  | left hnode ih =>
    simp only [height_singleton, nesting_singleton, Layer.rank] at ih ⊢
    omega

end Node

end Railroad
