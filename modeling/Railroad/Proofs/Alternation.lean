import Railroad.Proofs.Grammar.Trees

/-!
# The tree of an alternation

Reading an alternation builds its tree by adding nodes to containers, and reports
empty branches on the way.  This module shows that the outcome is the tree which
the grammar gives to the branches, and that nothing dissolves while it is built.

Main results:

- Theorem {lit}`Node.ofList_eq`: nothing dissolves among nodes of other kinds.
- Theorem {lit}`Alternation.tree_eq_ok_iff`: an alternation has a tree exactly when
  no branch is empty where none may be, and it is the tree of the grammar.
- Theorem {lit}`Body.groupOf_eq_ok_iff`: a group around such a tree is built
  exactly when it does not nest too deeply.
-/

namespace Railroad

open Grammar

/-! ## Containers -/

namespace Node

/-- Adding nodes of other kinds puts them behind the children. -/
theorem foldl_add_eq (kind : Kind) (value : String) (children nodes : List Node)
    (h : ∀ node ∈ nodes, node.kind ≠ kind) :
    nodes.foldl add ⟨kind, value, children⟩ = ⟨kind, value, children ++ nodes⟩ := by
  induction nodes generalizing children with
  | nil => simp
  | cons node nodes ih =>
    have hnode : node.kind ≠ kind := h node List.mem_cons_self
    have hadd : add ⟨kind, value, children⟩ node = ⟨kind, value, children ++ [node]⟩ := by
      simp [add, hnode]
    rw [List.foldl_cons, hadd, ih _ fun n hn => h n (List.mem_cons_of_mem node hn)]
    simp

/-- Nodes that are put into a container of another kind stay whole. -/
theorem ofList_eq (kind : Kind) (nodes : List Node) (h : ∀ node ∈ nodes, node.kind ≠ kind) :
    ofList kind nodes = ⟨kind, "", nodes⟩ := by
  rw [ofList, container, foldl_add_eq kind "" [] nodes h, List.nil_append]

end Node

/-! ## Branches -/

namespace Alternation

/-- The trees of the branches of an alternation that has been read, in order, where
an empty branch has none. -/
def branches (a : Alternation) : List (Option Node) :=
  a.closed.reverse.map Prod.fst ++ [a.branch]

@[simp] theorem branches_mk_nil (nodes : List Node) :
    branches ⟨[], nodes⟩ = [branchOf nodes.reverse] := rfl

@[simp] theorem branches_bar (a : Alternation) (span : Span) (nodes : List Node) :
    branches { a.bar span with elements := nodes } = a.branches ++ [branchOf nodes.reverse] := by
  simp [branches, bar, branch]

/-- Elements that are no sequences make up the branch of the grammar. -/
theorem branchOf_eq (nodes : List Node) (h : ∀ node ∈ nodes, node.kind ≠ .sequence) :
    branchOf nodes = branchTree nodes := by
  match nodes with
  | [] => rfl
  | [node] => rfl
  | node :: node' :: nodes => simp [branchOf, branchTree, Node.ofList_eq _ _ h]

/-- No empty branch is reported exactly if all behind the first one have elements. -/
theorem emptyInner?_eq_none_iff (first : Option Node × Span) (rest : List (Option Node × Span)) :
    emptyInner? (first :: rest) = none ↔ ∀ branch ∈ rest.map Prod.fst, branch ≠ none := by
  induction rest generalizing first with
  | nil => simp [emptyInner?]
  | cons second rest ih =>
    obtain ⟨branch, bar⟩ := second
    cases branch with
    | none => simp [emptyInner?]
    | some node => simp [emptyInner?, ih]

/-- There is nothing to join exactly if no branch has elements. -/
theorem joinBranches?_eq_none_iff {nodes : List Node} :
    joinBranches? nodes = none ↔ nodes = [] := by
  match nodes with
  | [] => simp [joinBranches?]
  | [only] => simp [joinBranches?]
  | first :: second :: nodes => simp [joinBranches?]

/-- Filled branches that are no choices are joined to the tree of the grammar. -/
theorem joinBranches?_eq_some_iff {nodes : List Node} (node : Node)
    (h : ∀ node ∈ nodes, node.kind ≠ .choice) :
    joinBranches? nodes = some node ↔ nodes ≠ [] ∧ node = choiceTree nodes := by
  match nodes with
  | [] => simp [joinBranches?]
  | [only] => simp [joinBranches?, choiceTree, eq_comm]
  | first :: second :: nodes =>
    simp [joinBranches?, choiceTree, Node.ofList_eq _ _ h, eq_comm]

/-- The outcome for branches of which all but the last come with a bar. -/
theorem treeOf_eq_ok_iff (closed : List (Option Node × Span)) (last : Option Node) (node : Node)
    (h : ∀ node, some node ∈ closed.map Prod.fst ++ [last] → node.kind ≠ .choice) :
    treeOf closed last = .ok node ↔
      Filled (closed.map Prod.fst ++ [last]) ∧
        node = alternationTree (closed.map Prod.fst ++ [last]) := by
  match closed with
  | [] => simp [treeOf, Filled, alternationTree, Node.container, eq_comm]
  | (first, bar) :: rest =>
    rw [List.map_cons, List.cons_append] at h ⊢
    have hfilled : ((first, bar) :: rest).filterMap Prod.fst ++ last.toList =
        (first :: (rest.map Prod.fst ++ [last])).filterMap id := by
      cases first <;> cases last <;> simp [List.filterMap_map]
    have hkind : ∀ node ∈ (first :: (rest.map Prod.fst ++ [last])).filterMap id,
        node.kind ≠ .choice := by
      intro node hnode
      simp only [List.mem_filterMap, id_eq, exists_eq_right] at hnode
      exact h node hnode
    rw [filled_bar_iff, alternationTree_bar, treeOf, hfilled,
      ← emptyInner?_eq_none_iff (first, bar) rest]
    cases hinner : emptyInner? ((first, bar) :: rest) with
    | some span => simp
    | none =>
      cases hjoin : joinBranches? ((first :: (rest.map Prod.fst ++ [last])).filterMap id) with
      | none =>
        have hnil : (first :: (rest.map Prod.fst ++ [last])).filterMap id = [] :=
          joinBranches?_eq_none_iff.mp hjoin
        rw [hnil]
        simp
      | some joined =>
        obtain ⟨hne, rfl⟩ := (joinBranches?_eq_some_iff joined hkind).mp hjoin
        simp only [true_and, hne, ne_eq, not_false_eq_true, optionalTree,
          Node.wrap_eq .choiceRight _ rfl, Node.wrap_eq .choiceLeft _ rfl, Except.ok.injEq]
        exact eq_comm

/-- An alternation that has been read has a tree exactly when no branch is empty
where none may be, and it is the tree of the grammar. -/
theorem tree_eq_ok_iff (a : Alternation) (node : Node)
    (h : ∀ node, some node ∈ a.branches → node.kind ≠ .choice) :
    a.tree = .ok node ↔ Filled a.branches ∧ node = alternationTree a.branches :=
  treeOf_eq_ok_iff a.closed.reverse a.branch node h

end Alternation

/-! ## Groups -/

namespace Body

/-- A group around the tree of an alternation is built exactly when it does not
nest too deeply. -/
theorem groupOf_eq_ok_iff (span : Span) {branches : List (Option Node)} (node : Node)
    (h : ∀ node, some node ∈ branches → ¬(node.isSequence ∧ node.size = 0)) :
    groupOf span (alternationTree branches) = .ok node ↔
      node = ⟨.group, "", groupChildren branches⟩ ∧ node.nesting ≤ maxNesting := by
  by_cases hblank : branches = [none]
  · subst hblank
    have hsequence := (alternationTree_blank_iff h).mpr rfl
    rw [groupOf, if_pos hsequence, groupChildren, Node.container, Except.ok.injEq]
    constructor
    · rintro rfl
      exact ⟨rfl, by decide⟩
    · rintro ⟨rfl, -⟩
      rfl
  · have hsequence := (alternationTree_blank_iff h).not.mpr hblank
    rw [groupOf, if_neg hsequence, Node.wrap_eq .group _ rfl, groupChildren_eq hblank]
    by_cases hdeep : (alternationTree branches).nesting ≥ maxNesting
    · rw [if_pos hdeep]
      constructor
      · intro h
        cases h
      · rintro ⟨rfl, hnesting⟩
        rw [Node.nesting_singleton_of_nests rfl] at hnesting
        omega
    · rw [if_neg hdeep, Except.ok.injEq]
      constructor
      · rintro rfl
        refine ⟨rfl, ?_⟩
        rw [Node.nesting_singleton_of_nests rfl]
        omega
      · rintro ⟨rfl, -⟩
        rfl

end Body

end Railroad
