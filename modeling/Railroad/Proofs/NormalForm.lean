import Railroad.Proofs.Grammar.Evaluation
import Railroad.Proofs.Token.Spelling
import Railroad.Proofs.Trimming

/-!
# The normal form of rules

The tree of a derivation has a shape of its own: no sequence or choice has fewer
than two children, none stands directly inside of another of its kind, and the
containers that make an alternation optional stand around it in one fixed order.

Main definitions:

- Definition {lit}`Node.Normal`: a tree in normal form, layer by layer.
- Definition {lit}`Rule.Normal`: a rule in normal form.

Main results:

- Theorem {lit}`Grammar.Element.normal_tree` and its like for branches and
  alternations: the trees of a derivation are in normal form.
- Theorem {lit}`Grammar.Sentence.normal_rule`: so is the rule that a derivation stands
  for.
-/

namespace Railroad

/-- The layers of a tree in normal form, each of which includes the ones before it. -/
inductive Node.Layer where
  /-- A leaf, a group or a loop. -/
  | element
  /-- An element or a sequence of elements. -/
  | branch
  /-- A branch or a choice between branches. -/
  | choice
  /-- A choice that may be optional from the right. -/
  | optional
  /-- Such a tree that may be optional from the left as well. -/
  | body

/-- A tree in normal form, which belongs to a layer. -/
inductive Node.Normal : Node.Layer → Node → Prop where
  | name {value : String} (h : IsIdentifier value.toList) :
      Normal .element ⟨.nonTerminal, value, []⟩
  | terminal {value : String} (h : IsQuoted value.toList) :
      Normal .element ⟨.terminal, value, []⟩
  | remark {value : String} (hbracket : ']' ∉ value.toList)
      (htrim : Text.trim value.toList = value.toList) : Normal .element ⟨.remark, value, []⟩
  | emptyGroup : Normal .element ⟨.group, "", []⟩
  | group {inner : Node} (h : Normal .body inner) : Normal .element ⟨.group, "", [inner]⟩
  | loop {inner : Node} (h : Normal .element inner) : Normal .element ⟨.loop, "", [inner]⟩
  | single {node : Node} (h : Normal .element node) : Normal .branch node
  | sequence {nodes : List Node} (hlength : 2 ≤ nodes.length)
      (h : ∀ node ∈ nodes, Normal .element node) : Normal .branch ⟨.sequence, "", nodes⟩
  | only {node : Node} (h : Normal .branch node) : Normal .choice node
  | choice {nodes : List Node} (hlength : 2 ≤ nodes.length)
      (h : ∀ node ∈ nodes, Normal .branch node) : Normal .choice ⟨.choice, "", nodes⟩
  | notRight {node : Node} (h : Normal .choice node) : Normal .optional node
  | right {node : Node} (h : Normal .choice node) : Normal .optional ⟨.choiceRight, "", [node]⟩
  | notLeft {node : Node} (h : Normal .optional node) : Normal .body node
  | left {node : Node} (h : Normal .optional node) : Normal .body ⟨.choiceLeft, "", [node]⟩

/-- A rule in normal form: its name is an identifier, its tree is in normal form or an
empty sequence, and no path carries too many groups and loops. -/
structure Rule.Normal (rule : Rule) : Prop where
  name : IsIdentifier rule.name.toList
  root : rule.root = ⟨.sequence, "", []⟩ ∨ Node.Normal .body rule.root
  shallow : rule.root.Shallow

namespace Grammar

open Node (Normal)

/-! ## Alternations -/

/-- Elements in normal form make up a branch in normal form. -/
theorem normal_of_branchTree_eq {nodes : List Node} {node : Node}
    (h : branchTree nodes = some node) (hnormal : ∀ node ∈ nodes, Normal .element node) :
    Normal .branch node := by
  match nodes with
  | [] => cases h
  | [only] =>
    cases h
    exact .single (hnormal node List.mem_cons_self)
  | first :: second :: nodes =>
    cases h
    exact .sequence (by simp) hnormal

/-- Branches in normal form make up a choice in normal form. -/
theorem normal_choiceTree {nodes : List Node} (hne : nodes ≠ [])
    (hnormal : ∀ node ∈ nodes, Normal .branch node) : Normal .choice (choiceTree nodes) := by
  match nodes with
  | [only] => exact .only (hnormal only List.mem_cons_self)
  | first :: second :: nodes => exact .choice (by simp) hnormal

/-- A choice in normal form may be optional from either side. -/
theorem normal_optionalTree {node : Node} (left right : Bool) (h : Normal .choice node) :
    Normal .body (optionalTree left right node) := by
  have hright : Normal .optional (if right then ⟨.choiceRight, "", [node]⟩ else node) := by
    cases right with
    | false => exact .notRight h
    | true => exact .right h
  cases left with
  | false => exact .notLeft hright
  | true => exact .left hright

/-- Branches in normal form make up an alternation in normal form, unless there is but
one and it is empty. -/
theorem normal_alternationTree {branches : List (Option Node)} (hne : branches ≠ [])
    (hnone : branches ≠ [none]) (hfilled : Filled branches)
    (hnormal : ∀ node, some node ∈ branches → Normal .branch node) :
    Normal .body (alternationTree branches) := by
  rcases exists_optionalBranches hne hnone hfilled with ⟨left, right, nodes, hnodes, rfl⟩
  rw [alternationTree_optionalBranches left right hnodes]
  apply normal_optionalTree
  apply normal_choiceTree hnodes
  intro node hnode
  apply hnormal
  simp [optionalBranches, hnode]

/-! ## Derivations -/

theorem Alternatives.branches_ne_nil (a : Alternatives) : a.branches ≠ [] := by
  cases a <;> simp [Alternatives.branches]

/-- The form of a token whose kind is known. -/
theorem spelled_ofKind {kind : Token.Kind} (t : Token.OfKind kind) (h : t.val.Spelled) :
    kind.Spelled t.val.text.toList := by
  rwa [Token.Spelled, t.property] at h

/-- The text of a remark token holds no closing bracket, and no blanks around it once these are
cut off. -/
theorem normal_remark {text : String} (h : IsBracketed text.toList) :
    Normal .element ⟨.remark, Body.remarkText text, []⟩ := by
  rcases h with ⟨inner, htext, hinner⟩
  have hremark : (Body.remarkText text).toList = Text.trim inner := by
    rw [Body.remarkText, htext, String.toList_ofList]
    simp
  refine .remark ?_ ?_
  · rw [hremark]
    intro hmem
    exact hinner ((Text.trim_infix inner).mem hmem)
  · rw [hremark, Text.trim_trim]

mutual

/-- The tree of an element is in normal form if its tokens have the form of their
kinds and its alternations are filled. -/
theorem Element.normal_tree (e : Element) (hspelled : ∀ t ∈ e.tokens, t.Spelled)
    (hfilled : ∀ a ∈ e.alternations, Filled a.branches) : Normal .element e.tree := by
  match e with
  | .name t =>
    exact .name (spelled_ofKind t (hspelled t.val List.mem_cons_self))
  | .terminal t =>
    exact .terminal (spelled_ofKind t (hspelled t.val List.mem_cons_self))
  | .remark t =>
    exact normal_remark (spelled_ofKind t (hspelled t.val List.mem_cons_self))
  | .group opening inner closing =>
    rw [Element.tokens, List.forall_mem_cons, List.forall_mem_append] at hspelled
    rw [Element.alternations, List.forall_mem_append, List.forall_mem_singleton] at hfilled
    have hinner := Alternatives.normal_branches inner hspelled.2.1 hfilled.1
    rw [Element.tree]
    by_cases hnone : inner.branches = [none]
    · rw [hnone]
      exact .emptyGroup
    · rw [groupChildren_eq hnone]
      exact .group (normal_alternationTree inner.branches_ne_nil hnone hfilled.2 hinner)
  | .loop element plus =>
    rw [Element.tokens, List.forall_mem_append] at hspelled
    exact .loop (Element.normal_tree element hspelled.1 hfilled)

theorem Branch.normal_trees (b : Branch) (hspelled : ∀ t ∈ b.tokens, t.Spelled)
    (hfilled : ∀ a ∈ b.alternations, Filled a.branches) :
    ∀ node ∈ b.trees, Normal .element node := by
  match b with
  | .empty => simp [Branch.trees]
  | .snoc front element =>
    rw [Branch.tokens, List.forall_mem_append] at hspelled
    rw [Branch.alternations, List.forall_mem_append] at hfilled
    rw [Branch.trees, List.forall_mem_append, List.forall_mem_singleton]
    exact ⟨Branch.normal_trees front hspelled.1 hfilled.1,
      Element.normal_tree element hspelled.2 hfilled.2⟩

theorem Alternatives.normal_branches (a : Alternatives) (hspelled : ∀ t ∈ a.tokens, t.Spelled)
    (hfilled : ∀ x ∈ a.innerAlternations, Filled x.branches) :
    ∀ node, some node ∈ a.branches → Normal .branch node := by
  match a with
  | .single branch =>
    intro node hnode
    rw [Alternatives.branches, List.mem_singleton] at hnode
    exact normal_of_branchTree_eq hnode.symm (Branch.normal_trees branch hspelled hfilled)
  | .snoc front bar branch =>
    rw [Alternatives.tokens, List.forall_mem_append, List.forall_mem_cons] at hspelled
    rw [Alternatives.innerAlternations, List.forall_mem_append] at hfilled
    intro node hnode
    rw [Alternatives.branches, List.mem_append, List.mem_singleton] at hnode
    rcases hnode with hnode | hnode
    · exact Alternatives.normal_branches front hspelled.1 hfilled.1 node hnode
    · exact normal_of_branchTree_eq hnode.symm
        (Branch.normal_trees branch hspelled.2.2 hfilled.2)

end

/-- A derivation without forbidden empty branches stands for a rule in normal form, if
that does not nest too deeply. -/
theorem Sentence.normal_rule (d : Sentence) (hspelled : ∀ t ∈ d.tokens, t.Spelled)
    (hfilled : d.Filled) (hshallow : d.rule.root.Shallow) : d.rule.Normal := by
  rw [Sentence.tokens, List.forall_mem_cons, List.forall_mem_cons, List.forall_mem_append]
    at hspelled
  rw [Sentence.Filled, Sentence.alternations, List.forall_mem_append,
    List.forall_mem_singleton] at hfilled
  have hname := spelled_ofKind d.name hspelled.1
  have hbranches := d.body.normal_branches hspelled.2.2.1 hfilled.1
  refine ⟨hname, ?_, hshallow⟩
  rw [Sentence.rule, Alternatives.tree]
  by_cases hnone : d.body.branches = [none]
  · rw [hnone]
    exact .inl rfl
  · exact .inr (normal_alternationTree d.body.branches_ne_nil hnone hfilled.2 hbranches)

end Grammar

end Railroad
