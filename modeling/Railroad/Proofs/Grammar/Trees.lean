import Railroad.Proofs.Grammar
import Railroad.Proofs.Nesting
import Mathlib.Logic.Basic

/-!
# Trees of alternations

The grammar gives a tree to every list of branches.  Without forbidden empty branches
there are some filled ones, perhaps behind an empty one and perhaps before an empty
one, and the tree shows all of them.  Its nesting is that of its branches.

Main results:

- Theorem {lit}`Grammar.exists_optionalBranches`: the lists of branches without a
  forbidden empty one.
- Theorem {lit}`Grammar.alternationTree_optionalBranches`: their trees.
- Theorem {lit}`Grammar.nesting_alternationTree`: the nesting of an alternation.
- Theorem {lit}`Grammar.alternationTree_blank_iff`: an alternation whose tree is an
  empty sequence has one empty branch and no bar.
-/

namespace Railroad.Grammar

/-! ## Several elements or branches -/

theorem branchTree_of_two_le {nodes : List Node} (h : 2 ≤ nodes.length) :
    branchTree nodes = some ⟨.sequence, "", nodes⟩ := by
  match nodes with
  | first :: second :: nodes => rfl

theorem choiceTree_of_two_le {nodes : List Node} (h : 2 ≤ nodes.length) :
    choiceTree nodes = ⟨.choice, "", nodes⟩ := by
  match nodes with
  | first :: second :: nodes => rfl

/-! ## Alternations with bars -/

/-- Branches with a bar fall into the first, those between two bars and the last. -/
theorem exists_eq_bar {branches : List (Option Node)} (h : 1 < branches.length) :
    ∃ first inner last, branches = first :: (inner ++ [last]) := by
  match branches with
  | first :: second :: rest =>
    refine ⟨first, (second :: rest).dropLast, (second :: rest).getLast (by simp), ?_⟩
    rw [List.dropLast_concat_getLast]

/-- The tree of the grammar for an alternation that has a bar. -/
theorem alternationTree_bar (first last : Option Node) (inner : List (Option Node)) :
    alternationTree (first :: (inner ++ [last])) =
      optionalTree first.isNone last.isNone
        (choiceTree ((first :: (inner ++ [last])).filterMap id)) := by
  have hlast : (first :: (inner ++ [last])).getLast? = some last := by
    rw [← List.cons_append, List.getLast?_concat]
  have hbar : ∀ branch, first :: (inner ++ [last]) ≠ [branch] := by simp
  rw [alternationTree, hlast, List.head?_cons]
  · cases first <;> cases last <;> simp
  · exact hbar

/-- An alternation with a bar is filled exactly when no branch between two bars is
empty and not all branches are. -/
theorem filled_bar_iff (first last : Option Node) (inner : List (Option Node)) :
    Filled (first :: (inner ++ [last])) ↔
      (∀ branch ∈ inner, branch ≠ none) ∧ (first :: (inner ++ [last])).filterMap id ≠ [] := by
  have hsome : (∃ branch ∈ first :: (inner ++ [last]), branch ≠ none) ↔
      (first :: (inner ++ [last])).filterMap id ≠ [] := by
    rw [Ne, List.filterMap_eq_nil_iff]
    simp only [id_eq, not_forall, exists_prop]
  rw [Filled, hsome]
  simp

/-! ## Filled alternations -/

/-- A single branch may be empty. -/
theorem filled_singleton (branch : Option Node) : Filled [branch] :=
  fun h => absurd h (Nat.lt_irrefl 1)

/-- Filled branches, with an empty one in front or behind where that is asked for. -/
def optionalBranches (left right : Bool) (nodes : List Node) : List (Option Node) :=
  (if left then [none] else []) ++ (nodes.map some ++ if right then [none] else [])

/-- The filled ones of such branches. -/
theorem filterMap_optionalBranches (left right : Bool) (nodes : List Node) :
    (optionalBranches left right nodes).filterMap id = nodes := by
  cases left <;> cases right <;> simp [optionalBranches, List.filterMap_map]

/-- The tree of filled branches, perhaps between empty ones. -/
theorem alternationTree_optionalBranches {nodes : List Node} (left right : Bool)
    (hne : nodes ≠ []) :
    alternationTree (optionalBranches left right nodes) =
      optionalTree left right (choiceTree nodes) := by
  by_cases hsingle : ∃ branch, optionalBranches left right nodes = [branch]
  · rcases hsingle with ⟨branch, hbranch⟩
    match nodes with
    | first :: nodes =>
      cases left <;> cases right <;> simp [optionalBranches] at hbranch
      rcases hbranch with ⟨rfl, rfl⟩
      rfl
  · rw [alternationTree, filterMap_optionalBranches]
    · match nodes with
      | first :: nodes =>
        cases left <;> cases right <;> simp [optionalBranches, List.getLast?_cons]
    · intro branch hbranch
      exact hsingle ⟨branch, hbranch⟩

/-- Filled branches, perhaps between empty ones, have no forbidden empty one. -/
theorem filled_optionalBranches {nodes : List Node} (left right : Bool) (hne : nodes ≠ []) :
    Filled (optionalBranches left right nodes) := by
  intro _
  constructor
  · intro branch hbranch
    have htail : ∃ middle, middle ⊆ nodes.map some ∧
        (optionalBranches left right nodes).tail =
          middle ++ if right then [none] else [] := by
      match nodes with
      | first :: nodes =>
        cases left with
        | true => exact ⟨_, List.Subset.refl _, rfl⟩
        | false => exact ⟨_, List.subset_cons_self _ _, rfl⟩
    rcases htail with ⟨middle, hmiddle, htail⟩
    have hmem : branch ∈ nodes.map some := by
      rw [htail] at hbranch
      apply hmiddle
      cases right with
      | true => simpa using hbranch
      | false => exact List.dropLast_subset _ (by simpa using hbranch)
    rcases List.mem_map.mp hmem with ⟨node, -, rfl⟩
    exact Option.some_ne_none node
  · rcases List.exists_mem_of_ne_nil nodes hne with ⟨node, hnode⟩
    refine ⟨some node, ?_, Option.some_ne_none node⟩
    simp [optionalBranches, hnode]

/-- Branches of which none is empty. -/
theorem exists_eq_map_some {branches : List (Option Node)}
    (h : ∀ branch ∈ branches, branch ≠ none) : ∃ nodes : List Node, branches = nodes.map some := by
  refine ⟨branches.filterMap id, ?_⟩
  induction branches with
  | nil => rfl
  | cons branch branches ih =>
    rw [List.forall_mem_cons] at h
    cases branch with
    | none => exact absurd rfl h.1
    | some node => simpa using ih h.2

/-- An alternation without a forbidden empty branch has filled branches, unless it is
but one empty branch. -/
theorem exists_optionalBranches {branches : List (Option Node)} (hne : branches ≠ [])
    (hnone : branches ≠ [none]) (hfilled : Filled branches) :
    ∃ left right nodes, nodes ≠ [] ∧ branches = optionalBranches left right nodes := by
  match branches with
  | [none] => exact absurd rfl hnone
  | [some node] => exact ⟨false, false, [node], List.cons_ne_nil _ _, rfl⟩
  | first :: second :: rest =>
    have hlength : 1 < (first :: second :: rest).length := by simp
    rcases exists_eq_bar hlength with ⟨first, inner, last, heq⟩
    rw [heq] at hfilled ⊢
    rw [filled_bar_iff] at hfilled
    rcases hfilled with ⟨hinner, hsome⟩
    rcases exists_eq_map_some hinner with ⟨nodes, rfl⟩
    cases first with
    | none =>
      cases last with
      | none =>
        refine ⟨true, true, nodes, ?_, rfl⟩
        rintro rfl
        exact hsome rfl
      | some last => exact ⟨true, false, nodes ++ [last], by simp, by simp [optionalBranches]⟩
    | some first =>
      cases last with
      | none => exact ⟨false, true, first :: nodes, by simp, by simp [optionalBranches]⟩
      | some last =>
        exact ⟨false, false, first :: (nodes ++ [last]), by simp, by simp [optionalBranches]⟩

/-! ## Nesting -/

/-- A choice nests as deeply as its branches. -/
theorem nesting_choiceTree (nodes : List Node) :
    (choiceTree nodes).nesting = Node.nestingAll nodes := by
  match nodes with
  | [] => rfl
  | [node] => simp [choiceTree, Node.nestingAll]
  | first :: second :: nodes => simp [choiceTree, Node.nesting_eq, Kind.nests]

/-- What is optional nests no deeper for that. -/
theorem nesting_optionalTree (left right : Bool) (node : Node) :
    (optionalTree left right node).nesting = node.nesting := by
  cases left <;> cases right <;> simp [optionalTree, Kind.nests]

/-- A sequence nests as much as its elements. -/
theorem nesting_of_branchTree_eq {nodes : List Node} {node : Node}
    (h : branchTree nodes = some node) : node.nesting = Node.nestingAll nodes := by
  match nodes with
  | [] => cases h
  | [only] =>
    obtain rfl : only = node := by simpa [branchTree] using h
    simp [Node.nestingAll]
  | first :: second :: nodes =>
    obtain rfl : ⟨.sequence, "", first :: second :: nodes⟩ = node := by
      simpa [branchTree] using h
    simp [Node.nesting_eq, Kind.nests]

/-- A branch nests no deeper than its elements. -/
theorem nesting_le_of_branchTree_eq {nodes : List Node} {node : Node} {k : Nat}
    (h : branchTree nodes = some node) (hk : ∀ node ∈ nodes, node.nesting ≤ k) :
    node.nesting ≤ k := by
  rw [nesting_of_branchTree_eq h]
  exact (Node.nestingAll_le_iff nodes k).mpr hk

/-- What bounds the nesting of a branch bounds that of its elements. -/
theorem add_nesting_le_of_branchTree {nodes : List Node} {depth k : Nat}
    (h : ∀ tree, branchTree nodes = some tree → depth + tree.nesting ≤ k) :
    ∀ node ∈ nodes, depth + node.nesting ≤ k := by
  intro node hnode
  have htree : ∃ tree, branchTree nodes = some tree := by
    match nodes with
    | [only] => exact ⟨_, rfl⟩
    | first :: second :: nodes => exact ⟨_, rfl⟩
  rcases htree with ⟨tree, htree⟩
  have hdepth := h tree htree
  have hle : node.nesting ≤ tree.nesting := by
    rw [nesting_of_branchTree_eq htree]
    exact (Node.nestingAll_le_iff nodes _).mp (Nat.le_refl _) node hnode
  omega

/-- An alternation nests as much as its branches. -/
theorem nesting_alternationTree (branches : List (Option Node)) :
    (alternationTree branches).nesting = Node.nestingAll (branches.filterMap id) := by
  match branches with
  | [] => rfl
  | [none] => rfl
  | [some node] => simp [alternationTree, Node.nestingAll]
  | first :: second :: branches =>
    rw [alternationTree, nesting_optionalTree, nesting_choiceTree]
    simp

/-- The nesting of an alternation is bounded by what bounds each branch. -/
theorem nesting_alternationTree_le_iff (branches : List (Option Node)) (k : Nat) :
    (alternationTree branches).nesting ≤ k ↔ ∀ node, some node ∈ branches → node.nesting ≤ k := by
  rw [nesting_alternationTree, Node.nestingAll_le_iff]
  simp only [List.mem_filterMap, id_eq, exists_eq_right]

/-! ## Empty sequences -/

/-- A group has one child, unless its only branch is empty. -/
theorem groupChildren_eq {branches : List (Option Node)} (h : branches ≠ [none]) :
    groupChildren branches = [alternationTree branches] := by
  rw [groupChildren]
  exact h

/-- A choice between trees is no empty sequence if none of them is. -/
theorem choiceTree_ne_blank {nodes : List Node}
    (h : ∀ node ∈ nodes, ¬(node.isSequence ∧ node.size = 0)) :
    ¬((choiceTree nodes).isSequence ∧ (choiceTree nodes).size = 0) := by
  match nodes with
  | [] => simp [choiceTree, Node.isSequence]
  | [node] => exact h node List.mem_cons_self
  | first :: second :: nodes => simp [choiceTree, Node.isSequence]

/-- The tree of an alternation is an empty sequence only if it has no bar and its
branch is empty. -/
theorem alternationTree_blank_iff {branches : List (Option Node)}
    (h : ∀ node, some node ∈ branches → ¬(node.isSequence ∧ node.size = 0)) :
    ((alternationTree branches).isSequence ∧ (alternationTree branches).size = 0) ↔
      branches = [none] := by
  match branches with
  | [] => simp [alternationTree, optionalTree, choiceTree, Node.isSequence]
  | [none] => simp [alternationTree, Node.isSequence, Node.size]
  | [some node] =>
    have hnode := h node List.mem_cons_self
    simpa [alternationTree] using hnode
  | first :: second :: rest =>
    have hlength : 1 < (first :: second :: rest).length := by simp
    obtain ⟨first, inner, last, heq⟩ := exists_eq_bar hlength
    rw [heq] at h ⊢
    have hfilled : ∀ node ∈ (first :: (inner ++ [last])).filterMap id,
        ¬(node.isSequence ∧ node.size = 0) := by
      intro node hnode
      simp only [List.mem_filterMap, id_eq, exists_eq_right] at hnode
      exact h node hnode
    have hne : first :: (inner ++ [last]) ≠ [none] := by simp
    have hchoice := choiceTree_ne_blank hfilled
    rw [alternationTree_bar, iff_false_right hne]
    cases first.isNone with
    | true => simp [optionalTree, Node.isSequence]
    | false =>
      cases last.isNone with
      | true => simp [optionalTree, Node.isSequence]
      | false => exact hchoice

end Railroad.Grammar
