import Railroad.Proofs.Alternation
import Railroad.Proofs.Reading

/-!
# Evaluating a derivation

Reading the tokens of a derivation builds its tree from the leaves to the root and
stops at the first fault.  This module describes that process on the derivation
itself, where {lit}`depth` counts the groups that are open around a piece.  It
succeeds exactly on the derivations without forbidden empty branches whose trees
do not nest too deeply.

Main definitions:

- Definitions {lit}`Grammar.Element.eval`, {lit}`Grammar.Branch.eval` and
  {lit}`Grammar.Alternatives.eval`: the outcomes of reading a piece.

Main results:

- Theorem {lit}`Grammar.Alternatives.of_eval_eq_ok`: what has been read without a
  fault has the branches of the derivation, is filled, and does not nest too
  deeply.
- Theorem {lit}`Grammar.Alternatives.exists_eval_eq_ok`: what is filled and does not
  nest too deeply is read without a fault.
- Theorem {lit}`Grammar.Sentence.eval_eq_ok_iff`: both together, for a rule.
-/

namespace Railroad

namespace Grammar

/-! ## Kinds of trees -/

/-- The tree of an element is neither a sequence nor a choice. -/
theorem Element.kind_tree (e : Element) :
    e.tree.kind ≠ .sequence ∧ e.tree.kind ≠ .choice := by
  cases e <;> simp [Element.tree]

/-- No element of a branch is a sequence or a choice. -/
theorem Branch.kind_of_mem_trees {b : Branch} {node : Node} (h : node ∈ b.trees) :
    node.kind ≠ .sequence ∧ node.kind ≠ .choice := by
  match b with
  | .empty => simp [Branch.trees] at h
  | .snoc front element =>
    rw [Branch.trees, List.mem_append, List.mem_singleton] at h
    rcases h with hfront | rfl
    · exact Branch.kind_of_mem_trees hfront
    · exact element.kind_tree

/-- The tree of a branch is no choice and no empty sequence. -/
theorem kind_of_branchTree_eq {nodes : List Node} {node : Node}
    (h : branchTree nodes = some node)
    (hkind : ∀ node ∈ nodes, node.kind ≠ .sequence ∧ node.kind ≠ .choice) :
    node.kind ≠ .choice ∧ ¬(node.isSequence ∧ node.size = 0) := by
  match nodes with
  | [] => cases h
  | [only] =>
    obtain rfl : only = node := by simpa [branchTree] using h
    have honly := hkind only List.mem_cons_self
    exact ⟨honly.2, by simp [Node.isSequence, honly.1]⟩
  | first :: second :: nodes =>
    obtain rfl : ⟨.sequence, "", first :: second :: nodes⟩ = node := by
      simpa [branchTree] using h
    simp [Node.size]

/-- No branch of an alternation is a choice or an empty sequence. -/
theorem Alternatives.kind_of_mem_branches {a : Alternatives} {node : Node}
    (h : some node ∈ a.branches) : node.kind ≠ .choice ∧ ¬(node.isSequence ∧ node.size = 0) := by
  match a with
  | .single branch =>
    rw [Alternatives.branches, List.mem_singleton] at h
    exact kind_of_branchTree_eq h.symm fun _ => Branch.kind_of_mem_trees
  | .snoc front bar branch =>
    rw [Alternatives.branches, List.mem_append, List.mem_singleton] at h
    rcases h with hfront | hbranch
    · exact Alternatives.kind_of_mem_branches hfront
    · exact kind_of_branchTree_eq hbranch.symm fun _ => Branch.kind_of_mem_trees

/-- What has been read has the branches of a derivation, which are no such trees. -/
theorem kind_of_branches_eq {s : Alternation} {a : Alternatives}
    (h : s.branches = a.branches) (node : Node) (hnode : some node ∈ s.branches) :
    node.kind ≠ .choice ∧ ¬(node.isSequence ∧ node.size = 0) := by
  rw [h] at hnode
  exact Alternatives.kind_of_mem_branches hnode

/-! ## Evaluation -/

mutual

/-- The tree of an element that is read inside of `depth` open groups. -/
def Element.eval (depth : Nat) : Element → Except Rule.Error Node
  | .name t => .ok (Node.nonTerminal t.val.text)
  | .terminal t => .ok (Node.terminal t.val.text)
  | .remark t => .ok (Node.remark (Body.remarkText t.val.text))
  | .group opening inner _ =>
    if depth ≥ maxNesting then .error (.tooDeep maxNesting opening.val.span)
    else do
      let a ← inner.eval (depth + 1)
      let node ← a.tree
      Body.groupOf opening.val.span node
  | .loop element plus => do
    let node ← element.eval depth
    if node.nesting + 1 > maxNesting then .error (.tooDeep maxNesting plus.val.span)
    else .ok (Node.wrap .loop node)

/-- The trees of the elements of a branch, newest first. -/
def Branch.eval (depth : Nat) : Branch → Except Rule.Error (List Node)
  | .empty => .ok []
  | .snoc front element => do
    let nodes ← front.eval depth
    let node ← element.eval depth
    .ok (node :: nodes)

/-- The alternation that has been read. -/
def Alternatives.eval (depth : Nat) : Alternatives → Except Rule.Error Alternation
  | .single branch => do
    let nodes ← branch.eval depth
    .ok ⟨[], nodes⟩
  | .snoc front bar branch => do
    let a ← front.eval depth
    let nodes ← branch.eval depth
    .ok { a.bar bar.val.span with elements := nodes }

end

/-- The outcome for a rule. -/
def Sentence.eval (d : Sentence) : Except Rule.Error Rule := do
  let a ← d.body.eval 0
  let root ← a.tree
  .ok ⟨d.name.val.text, root⟩

/-! ## What has been read -/

mutual

/-- An element that is read without a fault gives its tree, which does not nest too
deeply, and all alternations inside are filled. -/
theorem Element.of_eval_eq_ok {e : Element} {depth : Nat} {node : Node}
    (h : e.eval depth = .ok node) :
    node = e.tree ∧ e.tree.nesting ≤ maxNesting ∧ ∀ a ∈ e.alternations, Filled a.branches := by
  match e with
  | .name t | .terminal t | .remark t =>
    rw [Element.eval, Except.ok.injEq] at h
    subst h
    refine ⟨rfl, ?_, ?_⟩
    · simp [Element.tree, Kind.nests]
    · simp [Element.alternations]
  | .group opening inner closing =>
    rw [Element.eval] at h
    by_cases hdepth : depth ≥ maxNesting
    · rw [if_pos hdepth] at h
      cases h
    rw [if_neg hdepth] at h
    obtain ⟨s, heval, h⟩ := bind_eq_ok_iff.mp h
    obtain ⟨tree, htree, hgroup⟩ := bind_eq_ok_iff.mp h
    obtain ⟨hbranches, -, hinner⟩ := Alternatives.of_eval_eq_ok heval
    have hkind := kind_of_branches_eq hbranches
    obtain ⟨hfilled, rfl⟩ := (s.tree_eq_ok_iff tree fun n hn => (hkind n hn).1).mp htree
    rw [Body.groupOf_eq_ok_iff _ _ fun n hn => (hkind n hn).2, hbranches] at hgroup
    obtain ⟨rfl, hnesting⟩ := hgroup
    refine ⟨rfl, hnesting, ?_⟩
    intro a ha
    rw [Element.alternations, List.mem_append, List.mem_singleton] at ha
    rcases ha with ha | rfl
    · exact hinner a ha
    · rwa [← hbranches]
  | .loop element plus =>
    rw [Element.eval] at h
    obtain ⟨inner, heval, h⟩ := bind_eq_ok_iff.mp h
    obtain ⟨rfl, -, hfilled⟩ := Element.of_eval_eq_ok heval
    by_cases hdeep : element.tree.nesting + 1 > maxNesting
    · rw [if_pos hdeep] at h
      cases h
    rw [if_neg hdeep, Except.ok.injEq, Node.wrap_eq .loop _ rfl] at h
    subst h
    refine ⟨rfl, ?_, hfilled⟩
    rw [Element.tree, Node.nesting_singleton_of_nests rfl]
    omega

/-- The elements of a branch that is read without a fault give their trees. -/
theorem Branch.of_eval_eq_ok {b : Branch} {depth : Nat} {nodes : List Node}
    (h : b.eval depth = .ok nodes) :
    nodes = b.trees.reverse ∧ (∀ node ∈ b.trees, node.nesting ≤ maxNesting) ∧
      ∀ a ∈ b.alternations, Filled a.branches := by
  match b with
  | .empty =>
    rw [Branch.eval, Except.ok.injEq] at h
    subst h
    simp [Branch.trees, Branch.alternations]
  | .snoc front element =>
    rw [Branch.eval] at h
    obtain ⟨nodes, hfront, h⟩ := bind_eq_ok_iff.mp h
    obtain ⟨node, helement, h⟩ := bind_eq_ok_iff.mp h
    obtain ⟨rfl, hnodes, hfilled⟩ := Branch.of_eval_eq_ok hfront
    obtain ⟨rfl, hnode, hfilled'⟩ := Element.of_eval_eq_ok helement
    cases h
    refine ⟨by simp [Branch.trees], ?_, ?_⟩
    · intro node hmem
      rw [Branch.trees, List.mem_append, List.mem_singleton] at hmem
      rcases hmem with hmem | rfl
      · exact hnodes node hmem
      · exact hnode
    · intro a ha
      rw [Branch.alternations, List.mem_append] at ha
      exact ha.elim (hfilled a) (hfilled' a)

/-- An alternation that is read without a fault has the branches of the derivation. -/
theorem Alternatives.of_eval_eq_ok {a : Alternatives} {depth : Nat} {s : Alternation}
    (h : a.eval depth = .ok s) :
    s.branches = a.branches ∧ (∀ node, some node ∈ a.branches → node.nesting ≤ maxNesting) ∧
      ∀ x ∈ a.innerAlternations, Filled x.branches := by
  match a with
  | .single branch =>
    rw [Alternatives.eval] at h
    obtain ⟨nodes, hbranch, h⟩ := bind_eq_ok_iff.mp h
    obtain ⟨rfl, hnodes, hfilled⟩ := Branch.of_eval_eq_ok hbranch
    cases h
    refine ⟨?_, ?_, hfilled⟩
    · rw [Alternation.branches_mk_nil, List.reverse_reverse, Alternatives.branches,
        Alternation.branchOf_eq _ fun node hnode => (Branch.kind_of_mem_trees hnode).1]
    · intro node hmem
      rw [Alternatives.branches, List.mem_singleton] at hmem
      exact nesting_le_of_branchTree_eq hmem.symm hnodes
  | .snoc front bar branch =>
    rw [Alternatives.eval] at h
    obtain ⟨s, hfront, h⟩ := bind_eq_ok_iff.mp h
    obtain ⟨nodes, hbranch, h⟩ := bind_eq_ok_iff.mp h
    obtain ⟨hbranches, hnesting, hfilled⟩ := Alternatives.of_eval_eq_ok hfront
    obtain ⟨rfl, hnodes, hfilled'⟩ := Branch.of_eval_eq_ok hbranch
    cases h
    refine ⟨?_, ?_, ?_⟩
    · rw [Alternation.branches_bar, List.reverse_reverse, Alternatives.branches, hbranches,
        Alternation.branchOf_eq _ fun node hnode => (Branch.kind_of_mem_trees hnode).1]
    · intro node hmem
      rw [Alternatives.branches, List.mem_append, List.mem_singleton] at hmem
      rcases hmem with hmem | hmem
      · exact hnesting node hmem
      · exact nesting_le_of_branchTree_eq hmem.symm hnodes
    · intro x hx
      rw [Alternatives.innerAlternations, List.mem_append] at hx
      exact hx.elim (hfilled x) (hfilled' x)

end

/-! ## What can be read -/

/-- What bounds the nesting of a group bounds that of the branches inside. -/
theorem nesting_branches_of_group {opening : Token.OfKind .openParen} {inner : Alternatives}
    {closing : Token.OfKind .closeParen} {depth k : Nat}
    (h : depth + (Element.group opening inner closing).tree.nesting ≤ k) (node : Node)
    (hnode : some node ∈ inner.branches) : depth + 1 + node.nesting ≤ k := by
  have hne : inner.branches ≠ [none] := by
    intro hnone
    rw [hnone] at hnode
    simp at hnode
  have hle := (nesting_alternationTree_le_iff inner.branches _).mp (Nat.le_refl _) node hnode
  rw [Element.tree, groupChildren_eq hne, Node.nesting_singleton_of_nests rfl] at h
  omega

mutual

/-- A filled element that does not nest too deeply inside of the open groups is read
without a fault. -/
theorem Element.eval_eq_ok {e : Element} {depth : Nat}
    (hfilled : ∀ a ∈ e.alternations, Filled a.branches)
    (hnesting : depth + e.tree.nesting ≤ maxNesting) : e.eval depth = .ok e.tree := by
  match e with
  | .name t | .terminal t | .remark t => rfl
  | .group opening inner closing =>
    have hinner := nesting_branches_of_group hnesting
    rw [Element.tree, Node.nesting_eq] at hnesting
    simp only [Kind.nests, if_true] at hnesting
    rw [Element.alternations, List.forall_mem_append] at hfilled
    obtain ⟨hfilled, hfilled'⟩ := hfilled
    obtain ⟨s, heval⟩ := Alternatives.exists_eval_eq_ok hfilled hinner
    obtain ⟨hbranches, -, -⟩ := Alternatives.of_eval_eq_ok heval
    have hkind := kind_of_branches_eq hbranches
    have htree : s.tree = .ok (alternationTree s.branches) := by
      rw [s.tree_eq_ok_iff _ fun n hn => (hkind n hn).1, hbranches]
      exact ⟨hfilled' inner (List.mem_singleton_self inner), rfl⟩
    have hgroup : Body.groupOf opening.val.span (alternationTree s.branches) =
        .ok ⟨.group, "", groupChildren s.branches⟩ := by
      rw [Body.groupOf_eq_ok_iff _ _ fun n hn => (hkind n hn).2]
      refine ⟨rfl, ?_⟩
      rw [Node.nesting_eq, hbranches]
      simp only [Kind.nests, if_true]
      omega
    have hdepth : ¬depth ≥ maxNesting := by omega
    rw [Element.eval, if_neg hdepth, heval, ok_bind, htree, ok_bind, hgroup, hbranches,
      Element.tree]
  | .loop element plus =>
    rw [Element.tree, Node.nesting_singleton_of_nests rfl] at hnesting
    have helement : element.eval depth = .ok element.tree :=
      Element.eval_eq_ok hfilled (by omega)
    have hdeep : ¬element.tree.nesting + 1 > maxNesting := by omega
    rw [Element.eval, helement, ok_bind, if_neg hdeep, Node.wrap_eq .loop _ rfl, Element.tree]

/-- A filled branch that does not nest too deeply is read without a fault. -/
theorem Branch.eval_eq_ok {b : Branch} {depth : Nat}
    (hfilled : ∀ a ∈ b.alternations, Filled a.branches)
    (hnesting : ∀ node ∈ b.trees, depth + node.nesting ≤ maxNesting) :
    b.eval depth = .ok b.trees.reverse := by
  match b with
  | .empty => rfl
  | .snoc front element =>
    rw [Branch.alternations, List.forall_mem_append] at hfilled
    rw [Branch.trees, List.forall_mem_append] at hnesting
    have hfront : front.eval depth = .ok front.trees.reverse :=
      Branch.eval_eq_ok hfilled.1 hnesting.1
    have helement : element.eval depth = .ok element.tree :=
      Element.eval_eq_ok hfilled.2 (hnesting.2 element.tree (List.mem_singleton_self _))
    rw [Branch.eval, hfront, ok_bind, helement, ok_bind, Branch.trees, List.reverse_append,
      List.reverse_singleton, List.singleton_append]

/-- Filled branches that do not nest too deeply are read without a fault. -/
theorem Alternatives.exists_eval_eq_ok {a : Alternatives} {depth : Nat}
    (hfilled : ∀ x ∈ a.innerAlternations, Filled x.branches)
    (hnesting : ∀ node, some node ∈ a.branches → depth + node.nesting ≤ maxNesting) :
    ∃ s, a.eval depth = .ok s := by
  match a with
  | .single branch =>
    have hbranch : branch.eval depth = .ok branch.trees.reverse := by
      apply Branch.eval_eq_ok hfilled
      apply add_nesting_le_of_branchTree
      intro tree htree
      exact hnesting tree (by simp [Alternatives.branches, htree])
    exact ⟨_, by rw [Alternatives.eval, hbranch, ok_bind]⟩
  | .snoc front bar branch =>
    rw [Alternatives.innerAlternations, List.forall_mem_append] at hfilled
    obtain ⟨s, hfront⟩ : ∃ s, front.eval depth = .ok s := by
      refine Alternatives.exists_eval_eq_ok hfilled.1 ?_
      intro node hnode
      exact hnesting node (by simp [Alternatives.branches, hnode])
    have hbranch : branch.eval depth = .ok branch.trees.reverse := by
      apply Branch.eval_eq_ok hfilled.2
      apply add_nesting_le_of_branchTree
      intro tree htree
      exact hnesting tree (by simp [Alternatives.branches, htree])
    exact ⟨_, by rw [Alternatives.eval, hfront, ok_bind, hbranch, ok_bind]⟩

end

/-- A derivation is read without a fault exactly if it is filled and its tree does
not nest too deeply, and it then gives its rule. -/
theorem Sentence.eval_eq_ok_iff (d : Sentence) (rule : Rule) :
    d.eval = .ok rule ↔ d.Filled ∧ d.rule = rule ∧ d.body.tree.nesting ≤ maxNesting := by
  constructor
  · intro h
    obtain ⟨s, heval, h⟩ := bind_eq_ok_iff.mp h
    obtain ⟨root, htree, h⟩ := bind_eq_ok_iff.mp h
    obtain ⟨hbranches, hnesting, hfilled⟩ := Alternatives.of_eval_eq_ok heval
    have hkind := kind_of_branches_eq hbranches
    obtain ⟨hbody, rfl⟩ := (s.tree_eq_ok_iff root fun n hn => (hkind n hn).1).mp htree
    cases h
    rw [hbranches] at hbody ⊢
    refine ⟨?_, rfl, (nesting_alternationTree_le_iff _ _).mpr hnesting⟩
    rw [Sentence.Filled, Sentence.alternations, List.forall_mem_append]
    exact ⟨hfilled, List.forall_mem_singleton.mpr hbody⟩
  · rintro ⟨hfilled, rfl, hnesting⟩
    rw [Sentence.Filled, Sentence.alternations, List.forall_mem_append] at hfilled
    rw [Alternatives.tree, nesting_alternationTree_le_iff] at hnesting
    have hinner : ∀ node, some node ∈ d.body.branches → 0 + node.nesting ≤ maxNesting := by
      simpa using hnesting
    obtain ⟨s, heval⟩ := Alternatives.exists_eval_eq_ok hfilled.1 hinner
    obtain ⟨hbranches, -, -⟩ := Alternatives.of_eval_eq_ok heval
    have hkind := kind_of_branches_eq hbranches
    have htree : s.tree = .ok d.body.tree := by
      rw [s.tree_eq_ok_iff _ fun n hn => (hkind n hn).1, hbranches]
      exact ⟨hfilled.2 d.body (List.mem_singleton_self _), rfl⟩
    rw [Sentence.eval, heval, ok_bind, htree, ok_bind, Sentence.rule]

end Grammar

end Railroad
