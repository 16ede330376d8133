import Railroad.Proofs.Rail.Tokens

/-!
# Derivations of rail tokens

The tokens that a tree stands for are those from which it was derived, but that the
texts of remarks have lost the blanks around them.  The other way round, whenever some
tokens are those that a tree in normal form stands for, then the grammar derives them
and the tree is that of the derivation.

Main definitions:

- Definition {lit}`Token.trimmedSymbol`: a token without its place and without blanks
  around the text of a remark.
- Definition {lit}`Grammar.Derives`: some tokens have a derivation that stands for a tree.
- Definition {lit}`Grammar.Derivable`: all tokens that a tree stands for have one.

Main results:

- Theorem {lit}`Grammar.Sentence.map_trimmedSymbol_tokens`: the tokens of a derivation
  are those of its rule.
- Theorem {lit}`Grammar.derivable_of_normal`: trees in normal form are derivable.
- Theorem {lit}`Grammar.Sentence.exists_of_normal`: the tokens of a rule in normal form
  have a derivation that stands for the rule.
-/

namespace Railroad

/-- A token without its place, where a remark has lost the blanks around its text. -/
def Token.trimmedSymbol (t : Token) : Token.Kind × String :=
  match t.kind with
  | .remark => (.remark, "[" ++ Body.remarkText t.text ++ "]")
  | kind => (kind, t.text)

namespace Grammar

open Node (Normal)

/-! ## Tokens of alternations -/

/-- Lists with a separator between neighbours, of which the last is set apart. -/
theorem intercalate_concat {α : Type} {ls : List (List α)} (sep l : List α) (hne : ls ≠ []) :
    sep.intercalate (ls ++ [l]) = sep.intercalate ls ++ (sep ++ l) := by
  induction ls with
  | nil => exact absurd rfl hne
  | cons l' ls ih =>
    cases ls with
    | nil => simp [List.intercalate_cons_cons]
    | cons l'' ls =>
      have hrest := ih (List.cons_ne_nil l'' ls)
      rw [List.cons_append, List.cons_append, List.intercalate_cons_cons, ← List.cons_append,
        hrest, List.intercalate_cons_cons]
      simp only [List.append_assoc]

/-- The tokens of a branch: none if it is empty, else those of its tree. -/
def branchSymbols (branch : Option Node) : List (Token.Kind × String) :=
  branch.elim [] Node.railSymbols

/-- The tokens of a branch are those of its elements in a row. -/
theorem branchSymbols_branchTree (nodes : List Node) :
    branchSymbols (branchTree nodes) = (nodes.map Node.railSymbols).flatten := by
  match nodes with
  | [] => rfl
  | [node] => simp [branchSymbols, branchTree]
  | first :: second :: nodes =>
    rw [branchTree, branchSymbols, Option.elim_some, Node.railSymbols, Node.railSymbolsAll_eq_map]
    · simp
    · simp

/-- The tree of some branches stands for their tokens with bars between them, also if there is
but one. -/
theorem railSymbols_choiceTree {nodes : List Node} (hne : nodes ≠ []) :
    (choiceTree nodes).railSymbols =
      [Token.barSymbol].intercalate (nodes.map Node.railSymbols) := by
  match nodes with
  | [node] => rw [choiceTree, List.map_singleton, List.intercalate_singleton]
  | first :: second :: nodes =>
    rw [choiceTree, Node.railSymbols, Node.railSymbolsAll_eq_map]
    simp

/-- A bar where one is asked for. -/
def barIf (present : Bool) : List (Token.Kind × String) :=
  if present then [Token.barSymbol] else []

/-- What is optional stands for a bar more on each side from which it is. -/
theorem railSymbols_optionalTree (left right : Bool) (node : Node) :
    (optionalTree left right node).railSymbols =
      barIf left ++ (node.railSymbols ++ barIf right) := by
  cases left <;> cases right <;>
    simp [optionalTree, barIf, Node.railSymbols, Node.railSymbolsAll]

/-- Empty branches in front or behind are bars in front or behind. -/
theorem intercalate_optionalBranches {nodes : List Node} (left right : Bool) (hne : nodes ≠ []) :
    [Token.barSymbol].intercalate ((optionalBranches left right nodes).map branchSymbols) =
      barIf left ++ ([Token.barSymbol].intercalate (nodes.map Node.railSymbols) ++
        barIf right) := by
  have hmiddle : (nodes.map some).map branchSymbols = nodes.map Node.railSymbols := by
    rw [List.map_map]
    rfl
  have hright : [Token.barSymbol].intercalate
      ((nodes.map some ++ if right then [none] else []).map branchSymbols) =
        [Token.barSymbol].intercalate (nodes.map Node.railSymbols) ++ barIf right := by
    rw [List.map_append, hmiddle]
    cases right with
    | false => simp [barIf]
    | true => exact intercalate_concat _ [] (by simpa using hne)
  cases left with
  | false => exact hright
  | true =>
    have hrest : (nodes.map some ++ if right then [none] else []).map branchSymbols ≠ [] := by
      simp [hne]
    rw [optionalBranches, List.map_append, ← hright]
    exact List.intercalate_cons_of_ne_nil hrest

/-- The tree of an alternation stands for those of the branches with bars between
them. -/
theorem railSymbols_alternationTree {branches : List (Option Node)} (hne : branches ≠ [])
    (hfilled : Filled branches) :
    (alternationTree branches).railSymbols =
      [Token.barSymbol].intercalate (branches.map branchSymbols) := by
  by_cases hnone : branches = [none]
  · rw [hnone]
    rfl
  · rcases exists_optionalBranches hne hnone hfilled with ⟨left, right, nodes, hnodes, rfl⟩
    rw [alternationTree_optionalBranches left right hnodes, railSymbols_optionalTree,
      railSymbols_choiceTree hnodes, intercalate_optionalBranches left right hnodes]

/-- So do the children of a group around the alternation. -/
theorem railSymbolsAll_groupChildren {branches : List (Option Node)} (hne : branches ≠ [])
    (hfilled : Filled branches) :
    (Node.railSymbolsAll (groupChildren branches)).flatten =
      [Token.barSymbol].intercalate (branches.map branchSymbols) := by
  by_cases hnone : branches = [none]
  · rw [hnone]
    rfl
  · rw [groupChildren_eq hnone, Node.railSymbolsAll_eq_map, List.map_singleton,
      List.flatten_singleton, railSymbols_alternationTree hne hfilled]

/-! ## From derivations to trees -/

/-- The token of a punctuation mark is the same wherever it stands. -/
theorem trimmedSymbol_mark {kind : Token.Kind} {c : Char} (t : Token.OfKind kind)
    (hmark : Lexeme.mark? c = some kind) (h : t.val.Spelled) :
    t.val.trimmedSymbol = (kind, String.ofList [c]) := by
  have htext := spelled_ofKind t h
  rw [Token.trimmedSymbol, t.property]
  unfold Lexeme.mark? at hmark
  split at hmark <;> cases hmark <;>
    exact congrArg (Prod.mk _) (String.toList_injective (htext.trans String.toList_ofList.symm))

theorem trimmedSymbol_name (t : Token.OfKind .identifier) :
    t.val.trimmedSymbol = (.identifier, t.val.text) := by
  rw [Token.trimmedSymbol, t.property]

theorem Alternatives.branches_map_ne_nil (a : Alternatives) :
    a.branches.map branchSymbols ≠ [] := by
  rw [Ne, List.map_eq_nil_iff]
  exact a.branches_ne_nil

mutual

/-- The tokens of an element are those of its tree, if they have the form of their
kinds and the alternations of the element are filled. -/
theorem Element.map_trimmedSymbol_tokens (e : Element) (hspelled : ∀ t ∈ e.tokens, t.Spelled)
    (hfilled : ∀ a ∈ e.alternations, Filled a.branches) :
    e.tokens.map Token.trimmedSymbol = e.tree.railSymbols := by
  match e with
  | .name ⟨⟨_, text, span⟩, rfl⟩ => rfl
  | .terminal ⟨⟨_, text, span⟩, rfl⟩ => rfl
  | .remark ⟨⟨_, text, span⟩, rfl⟩ => rfl
  | .group opening inner closing =>
    rw [Element.tokens, List.forall_mem_cons, List.forall_mem_append,
      List.forall_mem_singleton] at hspelled
    rw [Element.alternations, List.forall_mem_append, List.forall_mem_singleton] at hfilled
    have hinner := Alternatives.map_trimmedSymbol_tokens inner hspelled.2.1 hfilled.1
    have hopening := trimmedSymbol_mark opening (c := '(') rfl hspelled.1
    have hclosing := trimmedSymbol_mark closing (c := ')') rfl hspelled.2.2
    have hchildren := railSymbolsAll_groupChildren inner.branches_ne_nil hfilled.2
    rw [Element.tokens, Element.tree, Node.railSymbols, hchildren, List.map_cons,
      List.map_append, List.map_singleton, hopening, hinner, hclosing]
  | .loop element plus =>
    rw [Element.tokens, List.forall_mem_append, List.forall_mem_singleton] at hspelled
    have helement := Element.map_trimmedSymbol_tokens element hspelled.1 hfilled
    have hplus := trimmedSymbol_mark plus (c := '+') rfl hspelled.2
    simp [Element.tokens, Element.tree, Node.railSymbols, Node.railSymbolsAll, helement, hplus]

/-- The tokens of a branch are those of the trees of its elements. -/
theorem Branch.map_trimmedSymbol_tokens (b : Branch) (hspelled : ∀ t ∈ b.tokens, t.Spelled)
    (hfilled : ∀ a ∈ b.alternations, Filled a.branches) :
    b.tokens.map Token.trimmedSymbol = (b.trees.map Node.railSymbols).flatten := by
  match b with
  | .empty => rfl
  | .snoc front element =>
    rw [Branch.tokens, List.forall_mem_append] at hspelled
    rw [Branch.alternations, List.forall_mem_append] at hfilled
    have hfront := Branch.map_trimmedSymbol_tokens front hspelled.1 hfilled.1
    have helement := Element.map_trimmedSymbol_tokens element hspelled.2 hfilled.2
    simp [Branch.tokens, Branch.trees, hfront, helement]

/-- The tokens of an alternation are those of its branches, with bars between them. -/
theorem Alternatives.map_trimmedSymbol_tokens (a : Alternatives)
    (hspelled : ∀ t ∈ a.tokens, t.Spelled)
    (hfilled : ∀ x ∈ a.innerAlternations, Filled x.branches) :
    a.tokens.map Token.trimmedSymbol =
      [Token.barSymbol].intercalate (a.branches.map branchSymbols) := by
  match a with
  | .single branch =>
    have hbranch := Branch.map_trimmedSymbol_tokens branch hspelled hfilled
    rw [Alternatives.branches, List.map_singleton, List.intercalate_singleton,
      branchSymbols_branchTree]
    exact hbranch
  | .snoc front bar branch =>
    rw [Alternatives.tokens, List.forall_mem_append, List.forall_mem_cons] at hspelled
    rw [Alternatives.innerAlternations, List.forall_mem_append] at hfilled
    have hfront := Alternatives.map_trimmedSymbol_tokens front hspelled.1 hfilled.1
    have hbranch := Branch.map_trimmedSymbol_tokens branch hspelled.2.2 hfilled.2
    have hbar := trimmedSymbol_mark bar (c := '|') rfl hspelled.2.1
    rw [Alternatives.tokens, Alternatives.branches, List.map_append, List.map_append,
      List.map_singleton, intercalate_concat _ _ front.branches_map_ne_nil,
      branchSymbols_branchTree, hfront, List.map_cons, hbranch, hbar]
    rfl

end

/-- The tokens of a derivation without its semicolon are those of its rule. -/
theorem Sentence.map_trimmedSymbol_tokens (d : Sentence) (hspelled : ∀ t ∈ d.tokens, t.Spelled)
    (hfilled : d.Filled) :
    (d.name.val :: d.colon.val :: d.body.tokens).map Token.trimmedSymbol =
      d.rule.railSymbols := by
  rw [Sentence.tokens, List.forall_mem_cons, List.forall_mem_cons, List.forall_mem_append]
    at hspelled
  rw [Sentence.Filled, Sentence.alternations, List.forall_mem_append,
    List.forall_mem_singleton] at hfilled
  have hbody := d.body.map_trimmedSymbol_tokens hspelled.2.2.1 hfilled.1
  have hcolon := trimmedSymbol_mark d.colon (c := ':') rfl hspelled.2.1
  rw [List.map_cons, List.map_cons, hbody, hcolon, trimmedSymbol_name, Rule.railSymbols,
    Sentence.rule, Alternatives.tree, railSymbols_alternationTree d.body.branches_ne_nil hfilled.2]

/-! ## From trees to derivations -/

/-- The tokens have a derivation as an alternation of filled branches, perhaps between
empty ones, that stands for the tree. -/
def DerivesOptional (left right : Bool) (ts : List Token) (node : Node) : Prop :=
  ∃ (a : Alternatives) (nodes : List Node), a.tokens = ts ∧ nodes ≠ [] ∧
    a.branches = optionalBranches left right nodes ∧
    optionalTree left right (choiceTree nodes) = node ∧
    ∀ x ∈ a.innerAlternations, Filled x.branches

/-- The tokens have a derivation that stands for the tree, of the form that belongs to
the layer and without forbidden empty branches. -/
def Derives : Node.Layer → List Token → Node → Prop
  | .element, ts, node =>
    ∃ e : Element, e.tokens = ts ∧ e.tree = node ∧ ∀ a ∈ e.alternations, Filled a.branches
  | .branch, ts, node =>
    ∃ b : Branch, b.tokens = ts ∧ branchTree b.trees = some node ∧
      ∀ a ∈ b.alternations, Filled a.branches
  | .choice, ts, node => DerivesOptional false false ts node
  | .optional, ts, node => ∃ right, DerivesOptional false right ts node
  | .body, ts, node => ∃ left right, DerivesOptional left right ts node

/-- Tokens that the tree stands for have a derivation that stands for the tree. -/
def Derivable (layer : Node.Layer) (node : Node) : Prop :=
  ∀ ts : List Token, ts.map Token.symbol = node.railSymbols → Derives layer ts node

/-- The first symbol of some tokens belongs to their first token. -/
theorem exists_of_map_symbol_eq_cons {ts : List Token} {kind : Token.Kind} {text : String}
    {ss : List (Token.Kind × String)} (h : ts.map Token.symbol = (kind, text) :: ss) :
    ∃ (t : Token.OfKind kind) (ts' : List Token), ts = t.val :: ts' ∧ t.val.text = text ∧
      ts'.map Token.symbol = ss := by
  rw [List.map_eq_cons_iff] at h
  rcases h with ⟨t, ts', rfl, ht, rfl⟩
  rw [Token.symbol, Prod.mk.injEq] at ht
  exact ⟨⟨t, ht.1⟩, ts', rfl, ht.2, rfl⟩

/-- A single symbol belongs to a single token. -/
theorem exists_of_map_symbol_eq {ts : List Token} {kind : Token.Kind} {text : String}
    (h : ts.map Token.symbol = [(kind, text)]) :
    ∃ t : Token.OfKind kind, ts = [t.val] ∧ t.val.text = text := by
  rcases exists_of_map_symbol_eq_cons h with ⟨t, ts', rfl, htext, hts⟩
  rw [List.map_eq_nil_iff] at hts
  rw [hts]
  exact ⟨t, rfl, htext⟩

/-- Elements in a row are derived as a branch. -/
theorem exists_branch {nodes : List Node} {ts : List Token}
    (hnodes : ∀ node ∈ nodes, Derivable .element node)
    (hts : ts.map Token.symbol = (nodes.map Node.railSymbols).flatten) :
    ∃ b : Branch, b.tokens = ts ∧ b.trees = nodes ∧ ∀ a ∈ b.alternations, Filled a.branches := by
  induction nodes using List.reverseRecOn generalizing ts with
  | nil =>
    rw [List.map_nil, List.flatten_nil, List.map_eq_nil_iff] at hts
    exact ⟨.empty, hts.symm, rfl, by simp [Branch.alternations]⟩
  | append_singleton front node ih =>
    rw [List.forall_mem_append, List.forall_mem_singleton] at hnodes
    rw [List.map_append, List.flatten_append, List.map_singleton, List.flatten_singleton,
      List.map_eq_append_iff] at hts
    rcases hts with ⟨ts, ts', rfl, hfront, hnode⟩
    rcases ih hnodes.1 hfront with ⟨b, rfl, rfl, hb⟩
    rcases hnodes.2 ts' hnode with ⟨e, rfl, rfl, he⟩
    refine ⟨b.snoc e, rfl, rfl, ?_⟩
    rw [Branch.alternations, List.forall_mem_append]
    exact ⟨hb, he⟩

/-- Branches with bars between them are derived as an alternation. -/
theorem exists_alternatives {nodes : List Node} {ts : List Token} (hne : nodes ≠ [])
    (hnodes : ∀ node ∈ nodes, Derivable .branch node)
    (hts : ts.map Token.symbol =
      [Token.barSymbol].intercalate (nodes.map Node.railSymbols)) :
    ∃ a : Alternatives, a.tokens = ts ∧ a.branches = nodes.map some ∧
      ∀ x ∈ a.innerAlternations, Filled x.branches := by
  induction nodes using List.reverseRecOn generalizing ts with
  | nil => exact absurd rfl hne
  | append_singleton front node ih =>
    rw [List.forall_mem_append, List.forall_mem_singleton] at hnodes
    by_cases hfront : front = []
    · rw [hfront, List.nil_append, List.map_singleton, List.intercalate_singleton] at hts
      rcases hnodes.2 ts hts with ⟨b, rfl, htree, hb⟩
      refine ⟨.single b, rfl, ?_, hb⟩
      rw [Alternatives.branches, htree, hfront]
      rfl
    · -- The last bar stands between the last branch and all others.
      have hmap : front.map Node.railSymbols ≠ [] := by simpa using hfront
      rw [List.map_append, List.map_singleton, intercalate_concat _ _ hmap,
        List.map_eq_append_iff] at hts
      rcases hts with ⟨ts, rest, rfl, hts, hrest⟩
      rw [List.map_eq_append_iff] at hrest
      rcases hrest with ⟨ts', ts'', rfl, hbar, hnode⟩
      rcases exists_of_map_symbol_eq hbar with ⟨bar, rfl, -⟩
      rcases ih hfront hnodes.1 hts with ⟨a, rfl, hbranches, ha⟩
      rcases hnodes.2 ts'' hnode with ⟨b, rfl, htree, hb⟩
      refine ⟨a.snoc bar b, rfl, ?_, ?_⟩
      · rw [Alternatives.branches, hbranches, htree, List.map_append]
        rfl
      · rw [Alternatives.innerAlternations, List.forall_mem_append]
        exact ⟨ha, hb⟩

/-- An alternation behind an empty branch and a bar. -/
def Alternatives.afterBar (bar : Token.OfKind .bar) : Alternatives → Alternatives
  | .single branch => .snoc (.single .empty) bar branch
  | .snoc front bar' branch => .snoc (front.afterBar bar) bar' branch

theorem Alternatives.tokens_afterBar (bar : Token.OfKind .bar) (a : Alternatives) :
    (a.afterBar bar).tokens = bar.val :: a.tokens := by
  fun_induction Alternatives.afterBar bar a with
  | case1 branch => rfl
  | case2 front bar' branch ih =>
    rw [Alternatives.tokens, ih, List.cons_append, Alternatives.tokens]

theorem Alternatives.branches_afterBar (bar : Token.OfKind .bar) (a : Alternatives) :
    (a.afterBar bar).branches = none :: a.branches := by
  fun_induction Alternatives.afterBar bar a with
  | case1 branch => rfl
  | case2 front bar' branch ih =>
    rw [Alternatives.branches, ih, List.cons_append, Alternatives.branches]

theorem Alternatives.innerAlternations_afterBar (bar : Token.OfKind .bar) (a : Alternatives) :
    (a.afterBar bar).innerAlternations = a.innerAlternations := by
  fun_induction Alternatives.afterBar bar a with
  | case1 branch => rfl
  | case2 front bar' branch ih =>
    rw [Alternatives.innerAlternations, ih, Alternatives.innerAlternations]

/-- An empty branch behind some others makes them optional from the right. -/
theorem DerivesOptional.right {ts : List Token} {node : Node} (bar : Token.OfKind .bar)
    (h : DerivesOptional false false ts node) :
    DerivesOptional false true (ts ++ [bar.val]) ⟨.choiceRight, "", [node]⟩ := by
  rcases h with ⟨a, nodes, rfl, hne, hbranches, rfl, ha⟩
  refine ⟨a.snoc bar .empty, nodes, rfl, hne, ?_, rfl, ?_⟩
  · rw [Alternatives.branches, hbranches]
    simp [optionalBranches, Branch.trees, branchTree]
  · rw [Alternatives.innerAlternations, Branch.alternations, List.append_nil]
    exact ha

/-- An empty branch in front of some others makes them optional from the left. -/
theorem DerivesOptional.left {right : Bool} {ts : List Token} {node : Node}
    (bar : Token.OfKind .bar) (h : DerivesOptional false right ts node) :
    DerivesOptional true right (bar.val :: ts) ⟨.choiceLeft, "", [node]⟩ := by
  rcases h with ⟨a, nodes, rfl, hne, hbranches, rfl, ha⟩
  refine ⟨a.afterBar bar, nodes, a.tokens_afterBar bar, hne, ?_, rfl, ?_⟩
  · rw [Alternatives.branches_afterBar, hbranches]
    rfl
  · rw [Alternatives.innerAlternations_afterBar]
    exact ha

/-- An alternation that is derived is filled, and it is more than one empty branch. -/
theorem DerivesOptional.exists_alternatives {left right : Bool} {ts : List Token} {node : Node}
    (h : DerivesOptional left right ts node) :
    ∃ a : Alternatives, a.tokens = ts ∧ a.branches ≠ [none] ∧ alternationTree a.branches = node ∧
      ∀ x ∈ a.innerAlternations ++ [a], Filled x.branches := by
  rcases h with ⟨a, nodes, rfl, hne, hbranches, rfl, ha⟩
  refine ⟨a, rfl, ?_, ?_, ?_⟩
  · intro hnone
    have hnodes := filterMap_optionalBranches left right nodes
    rw [← hbranches, hnone] at hnodes
    exact hne hnodes.symm
  · rw [hbranches, alternationTree_optionalBranches left right hne]
  · rw [List.forall_mem_append, List.forall_mem_singleton, hbranches]
    exact ⟨ha, filled_optionalBranches left right hne⟩

/-- The text of a remark without blanks around it, between brackets. -/
theorem remarkText_bracketed {value : String} (h : Text.trim value.toList = value.toList) :
    Body.remarkText ("[" ++ value ++ "]") = value := by
  have hinner : (("[" ++ value ++ "]").toList.drop 1).dropLast = value.toList := by
    simp
  rw [Body.remarkText, hinner, h, String.ofList_toList]

theorem derivable_name {value : String} : Derivable .element ⟨.nonTerminal, value, []⟩ := by
  intro ts hts
  rcases exists_of_map_symbol_eq hts with ⟨t, rfl, rfl⟩
  exact ⟨.name t, rfl, rfl, by simp [Element.alternations]⟩

theorem derivable_terminal {value : String} : Derivable .element ⟨.terminal, value, []⟩ := by
  intro ts hts
  rcases exists_of_map_symbol_eq hts with ⟨t, rfl, rfl⟩
  exact ⟨.terminal t, rfl, rfl, by simp [Element.alternations]⟩

/-- A remark is derived from a token in which no blanks get lost. -/
theorem derivable_remark {value : String} (htrim : Text.trim value.toList = value.toList) :
    Derivable .element ⟨.remark, value, []⟩ := by
  intro ts hts
  rcases exists_of_map_symbol_eq hts with ⟨t, rfl, htext⟩
  refine ⟨.remark t, rfl, ?_, by simp [Element.alternations]⟩
  rw [Element.tree, htext, remarkText_bracketed htrim]

/-- A group without children is derived from two parentheses. -/
theorem derivable_emptyGroup : Derivable .element ⟨.group, "", []⟩ := by
  intro ts hts
  change ts.map Token.symbol = [(.openParen, "("), (.closeParen, ")")] at hts
  rcases exists_of_map_symbol_eq_cons hts with ⟨opening, rest, rfl, -, hrest⟩
  rcases exists_of_map_symbol_eq hrest with ⟨closing, rfl, -⟩
  refine ⟨.group opening (.single .empty) closing, rfl, rfl, ?_⟩
  exact List.forall_mem_singleton.mpr (filled_singleton none)

/-- A group is derived from what is inside of it, between parentheses. -/
theorem Derivable.group {inner : Node} (h : Derivable .body inner) :
    Derivable .element ⟨.group, "", [inner]⟩ := by
  intro ts hts
  rw [Node.railSymbols, Node.railSymbolsAll_eq_map, List.map_singleton,
    List.flatten_singleton] at hts
  rcases exists_of_map_symbol_eq_cons hts with ⟨opening, rest, rfl, -, hrest⟩
  rw [List.map_eq_append_iff] at hrest
  rcases hrest with ⟨inside, last, rfl, hinside, hlast⟩
  rcases exists_of_map_symbol_eq hlast with ⟨closing, rfl, -⟩
  rcases h inside hinside with ⟨left, right, hbody⟩
  rcases hbody.exists_alternatives with ⟨a, rfl, hnone, htree, ha⟩
  refine ⟨.group opening a closing, rfl, ?_, ha⟩
  rw [Element.tree, groupChildren_eq hnone, htree]

/-- A loop is derived from what it repeats, in front of a plus. -/
theorem Derivable.loop {inner : Node} (h : Derivable .element inner) :
    Derivable .element ⟨.loop, "", [inner]⟩ := by
  intro ts hts
  rw [Node.railSymbols, Node.railSymbolsAll_eq_map, List.map_singleton,
    List.flatten_singleton, List.map_eq_append_iff] at hts
  rcases hts with ⟨front, last, rfl, hfront, hlast⟩
  rcases exists_of_map_symbol_eq hlast with ⟨plus, rfl, -⟩
  rcases h front hfront with ⟨e, rfl, rfl, he⟩
  exact ⟨.loop e plus, rfl, rfl, he⟩

/-- An element is derived as a branch of its own. -/
theorem Derivable.single {node : Node} (h : Derivable .element node) :
    Derivable .branch node := by
  intro ts hts
  rcases h ts hts with ⟨e, rfl, rfl, he⟩
  exact ⟨Branch.empty.snoc e, rfl, rfl, he⟩

/-- A sequence is derived as a branch. -/
theorem derivable_sequence {nodes : List Node} (hlength : 2 ≤ nodes.length)
    (h : ∀ node ∈ nodes, Derivable .element node) :
    Derivable .branch ⟨.sequence, "", nodes⟩ := by
  intro ts hts
  rw [Node.railSymbols, Node.railSymbolsAll_eq_map] at hts
  rcases exists_branch h hts with ⟨b, rfl, htrees, hb⟩
  refine ⟨b, rfl, ?_, hb⟩
  rw [htrees, branchTree_of_two_le hlength]

/-- A branch is derived as an alternation without bars. -/
theorem Derivable.only {node : Node} (h : Derivable .branch node) : Derivable .choice node := by
  intro ts hts
  rcases h ts hts with ⟨b, rfl, htree, hb⟩
  refine ⟨.single b, [_], rfl, List.cons_ne_nil _ _, ?_, rfl, hb⟩
  rw [Alternatives.branches, htree]
  rfl

/-- A choice is derived as an alternation. -/
theorem derivable_choice {nodes : List Node} (hlength : 2 ≤ nodes.length)
    (h : ∀ node ∈ nodes, Derivable .branch node) : Derivable .choice ⟨.choice, "", nodes⟩ := by
  intro ts hts
  rw [Node.railSymbols, Node.railSymbolsAll_eq_map] at hts
  have hne : nodes ≠ [] := by
    rintro rfl
    simp at hlength
  rcases exists_alternatives hne h hts with ⟨a, rfl, hbranches, ha⟩
  refine ⟨a, nodes, rfl, hne, ?_, ?_, ha⟩
  · simp [optionalBranches, hbranches]
  · exact choiceTree_of_two_le hlength

/-- What is optional from the right is derived with a bar behind it. -/
theorem Derivable.right {node : Node} (h : Derivable .choice node) :
    Derivable .optional ⟨.choiceRight, "", [node]⟩ := by
  intro ts hts
  rw [Node.railSymbols, Node.railSymbolsAll_eq_map, List.map_singleton,
    List.flatten_singleton, List.map_eq_append_iff] at hts
  rcases hts with ⟨front, last, rfl, hfront, hlast⟩
  rcases exists_of_map_symbol_eq hlast with ⟨bar, rfl, -⟩
  exact ⟨true, (h front hfront).right bar⟩

/-- What is optional from the left is derived with a bar in front of it. -/
theorem Derivable.left {node : Node} (h : Derivable .optional node) :
    Derivable .body ⟨.choiceLeft, "", [node]⟩ := by
  intro ts hts
  rw [Node.railSymbols, Node.railSymbolsAll_eq_map, List.map_singleton,
    List.flatten_singleton] at hts
  rcases exists_of_map_symbol_eq_cons hts with ⟨bar, rest, rfl, -, hrest⟩
  rcases h rest hrest with ⟨right, hright⟩
  exact ⟨true, right, hright.left bar⟩

/-- Trees in normal form are derivable. -/
theorem derivable_of_normal {layer : Node.Layer} {node : Node} (h : Normal layer node) :
    Derivable layer node := by
  induction h with
  | name hname => exact derivable_name
  | terminal hterminal => exact derivable_terminal
  | remark hbracket htrim => exact derivable_remark htrim
  | emptyGroup => exact derivable_emptyGroup
  | group hinner ih => exact ih.group
  | loop hinner ih => exact ih.loop
  | single hnode ih => exact ih.single
  | sequence hlength hnodes ih => exact derivable_sequence hlength ih
  | only hnode ih => exact ih.only
  | choice hlength hnodes ih => exact derivable_choice hlength ih
  | notRight hnode ih => exact fun ts hts => ⟨false, ih ts hts⟩
  | right hnode ih => exact ih.right
  | notLeft hnode ih => exact fun ts hts => ⟨false, ih ts hts⟩
  | left hnode ih => exact ih.left

/-- Tokens that a rule in normal form stands for have a derivation that stands for the
rule. -/
theorem Sentence.exists_of_normal {rule : Rule} {ts : List Token} (h : rule.Normal)
    (hts : ts.map Token.symbol = rule.railSymbols) :
    ∃ d : Sentence, d.tokens = ts ∧ d.Filled ∧ d.rule = rule := by
  rcases exists_of_map_symbol_eq_cons hts with ⟨name, rest, rfl, hname, hrest⟩
  rcases exists_of_map_symbol_eq_cons hrest with ⟨colon, body, rfl, -, hbody⟩
  have hderived : ∃ a : Alternatives, a.tokens = body ∧ alternationTree a.branches = rule.root ∧
      ∀ x ∈ a.innerAlternations ++ [a], Grammar.Filled x.branches := by
    rcases h.root with hempty | hnormal
    · rw [hempty] at hbody ⊢
      rw [List.map_eq_nil_iff.mp hbody]
      refine ⟨.single .empty, rfl, rfl, ?_⟩
      exact List.forall_mem_singleton.mpr (filled_singleton none)
    · rcases derivable_of_normal hnormal body hbody with ⟨left, right, hoptional⟩
      rcases hoptional.exists_alternatives with ⟨a, htokens, -, htree, ha⟩
      exact ⟨a, htokens, htree, ha⟩
  rcases hderived with ⟨a, rfl, htree, ha⟩
  refine ⟨⟨name, colon, a, none⟩, ?_, ha, ?_⟩
  · simp [Sentence.tokens]
  · rw [Sentence.rule, hname, Alternatives.tree, htree]

end Grammar

end Railroad
