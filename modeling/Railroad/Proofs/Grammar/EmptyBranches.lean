import Railroad.Proofs.Grammar.Limit
import Railroad.Proofs.Refusals
import Railroad.Proofs.Token.Cutting

/-!
# The first alternation with an empty branch

The grammar allows empty branches anywhere, but the reader does not.  When an alternation ends,
the reader looks for an empty branch between two bars, and then for any branch that is not empty.
The alternations of a rule end one after the other, inner ones before those around them, and the
first that is found faulty decides the outcome.

Main definitions:

- Definition {lit}`Grammar.Alternatives.bars`: the places of the bars of an alternation.
- Definition {lit}`Grammar.EmptyAt`: where an alternation has a forbidden empty branch.
- Definition {lit}`Grammar.Alternatives.check`: what the reader does at the end of an
  alternation.

Main results:

- Theorems {lit}`Grammar.Element.eval_eq_checks`, {lit}`Grammar.Branch.eval_eq_checks` and
  {lit}`Grammar.Alternatives.eval_eq_checks`: reading a piece is checking its alternations.
- Theorem {lit}`Grammar.Alternatives.emptyAt_of_check_eq_error`: what a check reports.
- Theorem {lit}`Rule.parse_empty_branches`: the outcome for every source whose tokens are derived
  and do not nest too deeply.
-/

namespace Railroad

/-! ## Empty branches by position -/

/-- Spans that neither start nor stop before those in front of them. -/
abbrev InOrder (spans : List Span) : Prop :=
  spans.Pairwise fun s t => s.start ≤ t.start ∧ s.stop ≤ t.stop

/-- Where an alternation with the given branches and the given bars between them has a forbidden
empty branch: from bar to bar around the first empty one between two bars, or at its only bar if
there is nothing on either side. -/
inductive Grammar.EmptyAt (branches : List (Option Node)) (bars : List Span) : Span → Prop
  | between {i : Nat} {before behind : Span} (hempty : branches[i + 1]? = some none)
      (hfirst : ∀ j < i, branches[j + 1]? ≠ some none) (hbefore : bars[i]? = some before)
      (hbehind : bars[i + 1]? = some behind) : EmptyAt branches bars ⟨before.start, behind.stop⟩
  | lone {bar : Span} (hbranches : branches = [none, none]) (hbars : bars = [bar]) :
      EmptyAt branches bars bar

open Grammar

/-- The range from one place to a later one. -/
theorem Span.merge_of_le {s t : Span} (hstart : s.start ≤ t.start) (hstop : s.stop ≤ t.stop) :
    s.merge t = ⟨s.start, t.stop⟩ := by
  rw [merge, Nat.min_eq_left hstart, Nat.max_eq_right hstop]

/-- Of two neighbours in order, neither end of the second one lies before that of the first. -/
theorem InOrder.le_of_getElem? {spans : List Span} (h : InOrder spans) {i : Nat} {s t : Span}
    (hs : spans[i]? = some s) (ht : spans[i + 1]? = some t) :
    s.start ≤ t.start ∧ s.stop ≤ t.stop := by
  obtain ⟨hi, rfl⟩ := List.getElem?_eq_some_iff.mp hs
  obtain ⟨hi', rfl⟩ := List.getElem?_eq_some_iff.mp ht
  exact List.pairwise_iff_getElem.mp h i (i + 1) hi hi' (Nat.lt_succ_self i)

namespace Alternation

/-- The first empty branch between two bars, by its position. -/
theorem exists_of_emptyInner?_eq_some {closed : List (Option Node × Span)} {span : Span}
    (h : emptyInner? closed = some span) :
    ∃ i before behind, (closed.map Prod.fst)[i + 1]? = some none ∧
      (∀ j < i, (closed.map Prod.fst)[j + 1]? ≠ some none) ∧
      (closed.map Prod.snd)[i]? = some before ∧ (closed.map Prod.snd)[i + 1]? = some behind ∧
      span = before.merge behind := by
  fun_induction emptyInner? closed with
  | case1 first before behind rest =>
    cases h
    exact ⟨0, before, behind, rfl, by simp, rfl, rfl, rfl⟩
  | case2 pair rest hnext ih =>
    obtain ⟨i, before, behind, hempty, hfirst, hbefore, hbehind, hspan⟩ := ih h
    refine ⟨i + 1, before, behind, hempty, ?_, hbefore, hbehind, hspan⟩
    intro j hj
    cases j with
    | succ j => exact hfirst j (Nat.lt_of_succ_lt_succ hj)
    | zero =>
      match rest with
      | [] => simp
      | (some node, bar) :: rest => simp
      | (none, bar) :: rest => exact absurd rfl (hnext _ _ bar rest rfl)
  | case3 => cases h

/-- Where a faulty alternation is empty. -/
theorem emptyAt_of_treeOf_eq_error {closed : List (Option Node × Span)} {last : Option Node}
    {e : Rule.Error} (h : treeOf closed last = .error e) (hbars : InOrder (closed.map Prod.snd)) :
    ∃ span, e = .emptyAlternative span ∧
      EmptyAt (closed.map Prod.fst ++ [last]) (closed.map Prod.snd) span := by
  match closed with
  | [] => cases h
  | (first, bar) :: rest =>
    rw [treeOf] at h
    cases hinner : emptyInner? ((first, bar) :: rest) with
    | some span =>
      rw [hinner] at h
      cases h
      obtain ⟨i, before, behind, hempty, hfirst, hbefore, hbehind, rfl⟩ :=
        exists_of_emptyInner?_eq_some hinner
      have hfront {j : Nat} (hj : j ≤ i) :
          (((first, bar) :: rest).map Prod.fst ++ [last])[j + 1]? =
            (((first, bar) :: rest).map Prod.fst)[j + 1]? := by
        obtain ⟨hlength, -⟩ := List.getElem?_eq_some_iff.mp hempty
        exact List.getElem?_append_left (by omega)
      obtain ⟨hstart, hstop⟩ := hbars.le_of_getElem? hbefore hbehind
      refine ⟨_, rfl, ?_⟩
      rw [Span.merge_of_le hstart hstop]
      refine .between ?_ ?_ hbefore hbehind
      · rw [hfront (Nat.le_refl i)]
        exact hempty
      · intro j hj
        rw [hfront (Nat.le_of_lt hj)]
        exact hfirst j hj
    | none =>
      rw [hinner] at h
      rw [emptyInner?_eq_none_iff] at hinner
      cases hjoin : joinBranches? (((first, bar) :: rest).filterMap Prod.fst ++ last.toList) with
      | some node =>
        rw [hjoin] at h
        cases h
      | none =>
        rw [hjoin] at h
        cases h
        rw [joinBranches?_eq_none_iff, List.append_eq_nil_iff, List.filterMap_eq_nil_iff] at hjoin
        obtain ⟨hclosed, hlast⟩ := hjoin
        rw [List.forall_mem_cons] at hclosed
        obtain ⟨hfirst, hrest⟩ := hclosed
        -- Any further bar would have an empty branch in front of it, between two bars.
        obtain rfl : rest = [] := by
          rw [List.eq_nil_iff_forall_not_mem]
          intro pair hmem
          exact hinner pair.1 (List.mem_map_of_mem hmem) (hrest pair hmem)
        obtain rfl : first = none := hfirst
        obtain rfl : last = none := by simpa using hlast
        exact ⟨bar, rfl, .lone rfl rfl⟩

end Alternation

namespace Grammar

/-! ## Checks of alternations -/

/-- The places of the bars of an alternation, in order. -/
def Alternatives.bars : Alternatives → List Span
  | .single _ => []
  | .snoc front bar _ => front.bars ++ [bar.val.span]

/-- The bars that were met while reading are those of the alternation. -/
theorem Alternatives.bars_read (a : Alternatives) :
    a.read.closed.reverse.map Prod.snd = a.bars := by
  induction a using Alternatives.bars.induct with
  | case1 branch => rfl
  | case2 front bar branch ih =>
    rw [Alternatives.read, Alternation.bar, List.reverse_cons, List.map_append, ih,
      Alternatives.bars]
    rfl

/-- What the reader does at the end of an alternation: it looks for forbidden empty branches. -/
def Alternatives.check (a : Alternatives) : Except Rule.Error Unit :=
  a.read.tree.map fun _ => ()

/-- Nothing is found exactly if the alternation is filled. -/
theorem Alternatives.check_eq_ok_iff {a : Alternatives} :
    a.check = .ok () ↔ Filled a.branches := by
  have hkind := kind_of_branches_eq a.branches_read
  have hiff (node : Node) := a.read.tree_eq_ok_iff node fun n hn => (hkind n hn).1
  rw [Alternatives.branches_read] at hiff
  rw [Alternatives.check]
  constructor
  · intro h
    cases htree : a.read.tree with
    | ok node => exact ((hiff node).mp htree).1
    | error e =>
      rw [htree] at h
      cases h
  · intro hfilled
    rw [Alternatives.tree_read hfilled]
    rfl

/-- An alternation has the tree of the grammar if it passes its check. -/
theorem Alternatives.tree_read_eq (a : Alternatives) :
    a.read.tree = a.check >>= fun _ => .ok a.tree := by
  cases hcheck : a.check with
  | ok _ =>
    rw [Alternatives.tree_read (Alternatives.check_eq_ok_iff.mp hcheck)]
    rfl
  | error e =>
    rw [Alternatives.check] at hcheck
    cases htree : a.read.tree with
    | ok node =>
      rw [htree] at hcheck
      cases hcheck
    | error e' =>
      rw [htree] at hcheck
      cases hcheck
      rfl

/-- The check of an alternation reports where it is empty. -/
theorem Alternatives.emptyAt_of_check_eq_error {a : Alternatives} {e : Rule.Error}
    (h : a.check = .error e) (hbars : InOrder a.bars) :
    ∃ span, e = .emptyAlternative span ∧ EmptyAt a.branches a.bars span := by
  have htree : a.read.tree = .error e := by
    rw [Alternatives.tree_read_eq, h]
    rfl
  rw [← Alternatives.bars_read] at hbars ⊢
  rw [← Alternatives.branches_read, Alternation.branches]
  exact Alternation.emptyAt_of_treeOf_eq_error htree hbars

/-! ## Evaluation by checks -/

mutual

/-- Reading an element that does not nest too deeply is checking the alternations inside. -/
theorem Element.eval_eq_checks {e : Element} {depth : Nat}
    (h : depth + e.tree.nesting ≤ maxNesting) :
    e.eval depth = forM e.alternations Alternatives.check >>= fun _ => .ok e.tree := by
  match e with
  | .name t | .terminal t | .remark t => rfl
  | .group opening inner closing =>
    have hinner := nesting_branches_of_group h
    have hdepth : depth + 1 ≤ maxNesting := by
      rw [Element.tree, Node.nesting_eq] at h
      simp only [Kind.nests, if_true] at h
      omega
    have hdeep : inner.tree.nesting ≤ maxNesting - (depth + 1) := by
      rw [Alternatives.tree, nesting_alternationTree_le_iff]
      intro node hnode
      have hnesting := hinner node hnode
      omega
    have hclosing : (inner.read.tree >>= fun node => Body.groupOf opening.val.span node) =
        inner.check >>= fun _ => .ok (Element.group opening inner closing).tree := by
      rw [Alternatives.tree_read_eq, bind_assoc]
      simp only [ok_bind, Body.groupOf_tree, Element.tree]
      rw [if_neg (by omega)]
    rw [Element.eval, if_neg (by omega), Alternatives.eval_eq_checks hinner, Element.alternations,
      List.forM_append, List.forM_cons, List.forM_nil]
    simp only [bind_assoc, ok_bind, pure_bind, hclosing]
  | .loop element plus =>
    rw [Element.tree, Node.nesting_singleton_of_nests rfl] at h
    have helement : element.eval depth =
        forM element.alternations Alternatives.check >>= fun _ => .ok element.tree :=
      Element.eval_eq_checks (by omega)
    have hplus : ¬element.tree.nesting + 1 > maxNesting := by omega
    rw [Element.eval, helement, bind_assoc, Element.alternations]
    simp only [ok_bind, if_neg hplus, Node.wrap_eq .loop _ rfl, Element.tree]

/-- Reading a branch that does not nest too deeply is checking the alternations inside. -/
theorem Branch.eval_eq_checks {b : Branch} {depth : Nat}
    (h : ∀ node ∈ b.trees, depth + node.nesting ≤ maxNesting) :
    b.eval depth = forM b.alternations Alternatives.check >>= fun _ => .ok b.trees.reverse := by
  match b with
  | .empty => rfl
  | .snoc front element =>
    rw [Branch.trees, List.forall_mem_append] at h
    have helement : element.eval depth =
        forM element.alternations Alternatives.check >>= fun _ => .ok element.tree :=
      Element.eval_eq_checks (h.2 element.tree (List.mem_singleton_self _))
    rw [Branch.eval, Branch.eval_eq_checks h.1, helement, Branch.alternations, List.forM_append,
      Branch.trees, List.reverse_append, List.reverse_singleton, List.singleton_append]
    simp only [bind_assoc, ok_bind]

/-- Reading branches that do not nest too deeply is checking the alternations inside. -/
theorem Alternatives.eval_eq_checks {a : Alternatives} {depth : Nat}
    (h : ∀ node, some node ∈ a.branches → depth + node.nesting ≤ maxNesting) :
    a.eval depth = forM a.innerAlternations Alternatives.check >>= fun _ => .ok a.read := by
  match a with
  | .single branch =>
    have hbranch : ∀ node ∈ branch.trees, depth + node.nesting ≤ maxNesting := by
      apply add_nesting_le_of_branchTree
      intro tree htree
      exact h tree (by simp [Alternatives.branches, htree])
    rw [Alternatives.eval, Branch.eval_eq_checks hbranch, Alternatives.innerAlternations,
      Alternatives.read]
    simp only [bind_assoc, ok_bind]
  | .snoc front bar branch =>
    rw [Alternatives.branches] at h
    have hfront : ∀ node, some node ∈ front.branches → depth + node.nesting ≤ maxNesting :=
      fun node hnode => h node (List.mem_append_left _ hnode)
    have hbranch : ∀ node ∈ branch.trees, depth + node.nesting ≤ maxNesting := by
      apply add_nesting_le_of_branchTree
      intro tree htree
      exact h tree (List.mem_append_right _ (by simp [htree]))
    rw [Alternatives.eval, Alternatives.eval_eq_checks hfront, Branch.eval_eq_checks hbranch,
      Alternatives.innerAlternations, List.forM_append, Alternatives.read]
    simp only [bind_assoc, ok_bind]

end

/-- Reading a derivation that does not nest too deeply is checking its alternations. -/
theorem Sentence.eval_eq_checks {d : Sentence} (h : d.rule.root.Shallow) :
    d.eval = forM d.alternations Alternatives.check >>= fun _ => .ok d.rule := by
  have hbody : ∀ node, some node ∈ d.body.branches → 0 + node.nesting ≤ maxNesting := by
    rw [Node.shallow_iff, Sentence.rule, Alternatives.tree, nesting_alternationTree_le_iff] at h
    simpa using h
  rw [Sentence.eval, Alternatives.eval_eq_checks hbody, Sentence.alternations, List.forM_append,
    List.forM_cons, List.forM_nil]
  simp only [bind_assoc, ok_bind, pure_bind, Alternatives.tree_read_eq, Sentence.rule]

/-! ## Bars in order -/

mutual

/-- The tokens of an alternation inside of an element are some of those of the element. -/
theorem Element.tokens_sublist {e : Element} {x : Alternatives} (h : x ∈ e.alternations) :
    x.tokens.Sublist e.tokens := by
  match e with
  | .name t | .terminal t | .remark t => cases h
  | .group opening inner closing =>
    rw [Element.alternations, List.mem_append, List.mem_singleton] at h
    have hinner : x.tokens.Sublist inner.tokens := by
      rcases h with h | rfl
      · exact Alternatives.tokens_sublist h
      · exact List.Sublist.refl _
    rw [Element.tokens]
    exact (hinner.trans (List.sublist_append_left _ _)).cons _
  | .loop element plus =>
    have helement : x.tokens.Sublist element.tokens := Element.tokens_sublist h
    rw [Element.tokens]
    exact helement.trans (List.sublist_append_left _ _)

theorem Branch.tokens_sublist {b : Branch} {x : Alternatives} (h : x ∈ b.alternations) :
    x.tokens.Sublist b.tokens := by
  match b with
  | .empty => cases h
  | .snoc front element =>
    rw [Branch.alternations, List.mem_append] at h
    rw [Branch.tokens]
    rcases h with h | h
    · exact (Branch.tokens_sublist h).trans (List.sublist_append_left _ _)
    · exact (Element.tokens_sublist h).trans (List.sublist_append_right _ _)

theorem Alternatives.tokens_sublist {a x : Alternatives} (h : x ∈ a.innerAlternations) :
    x.tokens.Sublist a.tokens := by
  match a with
  | .single branch =>
    rw [Alternatives.tokens]
    exact Branch.tokens_sublist h
  | .snoc front bar branch =>
    rw [Alternatives.innerAlternations, List.mem_append] at h
    rw [Alternatives.tokens]
    rcases h with h | h
    · exact (Alternatives.tokens_sublist h).trans (List.sublist_append_left _ _)
    · have hbranch : x.tokens.Sublist (bar.val :: branch.tokens) :=
        (Branch.tokens_sublist h).cons _
      exact hbranch.trans (List.sublist_append_right _ _)

end

/-- The tokens of each alternation are some of those of the rule. -/
theorem Sentence.tokens_sublist {d : Sentence} {a : Alternatives} (h : a ∈ d.alternations) :
    a.tokens.Sublist d.tokens := by
  have hbody : a.tokens.Sublist d.body.tokens := by
    rw [Sentence.alternations, List.mem_append, List.mem_singleton] at h
    rcases h with h | rfl
    · exact Alternatives.tokens_sublist h
    · exact List.Sublist.refl _
  rw [Sentence.tokens]
  exact ((hbody.trans (List.sublist_append_left _ _)).cons _).cons _

theorem Alternatives.bars_sublist (a : Alternatives) :
    a.bars.Sublist (a.tokens.map Token.span) := by
  induction a using Alternatives.bars.induct with
  | case1 branch => exact List.nil_sublist _
  | case2 front bar branch ih =>
    rw [Alternatives.bars, Alternatives.tokens, List.map_append, List.map_cons]
    apply ih.append
    exact List.singleton_sublist.mpr List.mem_cons_self

/-- The bars of each alternation of a source are in order. -/
theorem Sentence.inOrder_bars {d : Sentence} {source : String}
    (htokens : d.tokens = Token.ofSource source) {a : Alternatives} (h : a ∈ d.alternations) :
    InOrder a.bars := by
  have hcuts := Token.cuts_ofSource source
  have hsource : InOrder ((Token.ofSource source).map Token.span) := by
    rw [InOrder, List.pairwise_map]
    refine hcuts.pairwise.imp_of_mem ?_
    intro t u ht hu hapart
    have hbounds := hcuts.span_bounds ht
    have hbounds' := hcuts.span_bounds hu
    omega
  have hsublist : a.bars.Sublist ((Token.ofSource source).map Token.span) := by
    rw [← htokens]
    exact a.bars_sublist.trans ((Sentence.tokens_sublist h).map Token.span)
  exact hsource.sublist hsublist

end Grammar

namespace Rule

open Grammar

/-- A source whose tokens are derived, with empty branches anywhere and at most 256 groups and
loops on each path, has a fault exactly if some alternation has a bar and an empty branch between
two bars or only empty ones.  The fault is that of the first such alternation to end, and spans
its first empty branch between two bars together with both bars, or its only bar. -/
theorem parse_empty_branches {source : String} (d : Sentence)
    (htokens : d.tokens = Token.ofSource source) (hshallow : d.rule.root.Shallow) :
    ((∃ e, parse source = .error e) ↔ ∃ a ∈ d.alternations, ¬Filled a.branches) ∧
      ∀ e, parse source = .error e → ∃ before a after span,
        d.alternations = before ++ a :: after ∧ (∀ x ∈ before, Filled x.branches) ∧
          ¬Filled a.branches ∧ EmptyAt a.branches a.bars span ∧ e = .emptyAlternative span := by
  have hparse : parse source =
      forM d.alternations Alternatives.check >>= fun _ => .ok (some d.rule) := by
    rw [parse_eq_outcome, ← htokens, Sentence.outcome_tokens, Sentence.eval_eq_checks hshallow,
      map_bind]
    rfl
  have hfault {e : Error} : parse source = .error e ↔
      forM d.alternations Alternatives.check = .error e := by
    rw [hparse]
    cases forM d.alternations Alternatives.check <;> simp
  constructor
  · constructor
    · rintro ⟨e, he⟩
      obtain ⟨before, a, after, halternations, -, ha⟩ := forM_eq_error (hfault.mp he)
      refine ⟨a, by simp [halternations], ?_⟩
      intro hfilled
      rw [Alternatives.check_eq_ok_iff.mpr hfilled] at ha
      cases ha
    · rintro ⟨a, hmem, hempty⟩
      cases hchecks : forM d.alternations Alternatives.check with
      | error e => exact ⟨e, hfault.mpr hchecks⟩
      | ok _ =>
        have hall := forM_eq_ok_iff.mp hchecks a hmem
        exact absurd (Alternatives.check_eq_ok_iff.mp hall) hempty
  · intro e he
    obtain ⟨before, a, after, halternations, hbefore, ha⟩ := forM_eq_error (hfault.mp he)
    have hbars : InOrder a.bars := Sentence.inOrder_bars htokens (by simp [halternations])
    obtain ⟨span, hspan, hplace⟩ := Alternatives.emptyAt_of_check_eq_error ha hbars
    refine ⟨before, a, after, span, halternations, ?_, ?_, hplace, hspan⟩
    · intro x hx
      exact Alternatives.check_eq_ok_iff.mp (hbefore x hx)
    · intro hfilled
      rw [Alternatives.check_eq_ok_iff.mpr hfilled] at ha
      cases ha

/-- A group with an empty branch between two bars, in a body with another one. -/
def emptyTwice : Sentence where
  name := ⟨⟨.identifier, "no", ⟨0, 2⟩⟩, rfl⟩
  colon := ⟨⟨.colon, ":", ⟨2, 3⟩⟩, rfl⟩
  body :=
    let a : Element := .name ⟨⟨.identifier, "a", ⟨5, 6⟩⟩, rfl⟩
    let inner : Alternatives := .snoc (.snoc (.snoc (.single .empty)
      ⟨⟨.bar, "|", ⟨4, 5⟩⟩, rfl⟩ (.snoc .empty a))
      ⟨⟨.bar, "|", ⟨6, 7⟩⟩, rfl⟩ .empty)
      ⟨⟨.bar, "|", ⟨7, 8⟩⟩, rfl⟩ .empty
    let group : Element := .group ⟨⟨.openParen, "(", ⟨3, 4⟩⟩, rfl⟩ inner
      ⟨⟨.closeParen, ")", ⟨8, 9⟩⟩, rfl⟩
    .snoc (.snoc (.single (.snoc .empty group))
      ⟨⟨.bar, "|", ⟨9, 10⟩⟩, rfl⟩ .empty)
      ⟨⟨.bar, "|", ⟨10, 11⟩⟩, rfl⟩ .empty
  semicolon := none

/-- The group ends first, and the empty branch in front of its first bar is none of its faults. -/
theorem parse_empty_branches_twice :
    emptyTwice.tokens = Token.ofSource "no:(|a||)||" ∧ emptyTwice.rule.root.Shallow ∧
      parse "no:(|a||)||" = .error (.emptyAlternative ⟨6, 8⟩) ∧
      ∃ before a after, emptyTwice.alternations = before ++ a :: after ∧
        (∀ x ∈ before, Filled x.branches) ∧ ¬Filled a.branches ∧
          EmptyAt a.branches a.bars ⟨6, 8⟩ := by
  have htokens : emptyTwice.tokens = Token.ofSource "no:(|a||)||" := by decide +kernel
  have hshallow : emptyTwice.rule.root.Shallow := by
    rw [Node.shallow_iff]
    decide
  have hparse : parse "no:(|a||)||" = .error (.emptyAlternative ⟨6, 8⟩) := by decide +kernel
  obtain ⟨before, a, after, span, halternations, hbefore, hempty, hplace, hspan⟩ :=
    (parse_empty_branches emptyTwice htokens hshallow).2 _ hparse
  cases hspan
  exact ⟨htokens, hshallow, hparse, before, a, after, halternations, hbefore, hempty, hplace⟩

end Rule

end Railroad
