import Mathlib.Control.Monad.Basic
import Railroad.Proofs.Grammar.Recognition

/-!
# The first token beyond the limit on the nesting

The grammar knows no limit on the nesting.  The reader does, and it minds the limit
at three kinds of tokens: at an opening parenthesis it counts the groups that are
open, at a plus sign the groups and loops of the operand, and at a closing
parenthesis those of what stands inside.  This module marks each token of a derivation
with what is found there.  The first token at which too much is found decides the
outcome, and there is such a token exactly if the tree nests too deeply.

Main definitions:

- Definition {lit}`Grammar.Mark`: a token with what is found at it.
- Definition {lit}`Grammar.Sentence.marks`: the marked tokens of a derivation.
- Definition {lit}`Grammar.verdict`: the outcome of the first token at which too much
  is found.

Main results:

- Theorems {lit}`Grammar.Element.eval_eq_verdict`,
  {lit}`Grammar.Branch.eval_eq_verdict` and {lit}`Grammar.Alternatives.eval_eq_verdict`:
  the marks of a piece decide the outcome of reading it.
- Theorem {lit}`Grammar.Sentence.forall_mark_iff`: nothing is found at any token exactly
  if no path of the tree carries too many groups and loops.
- Theorem {lit}`Rule.parse_of_tokens_eq`: the outcome for every source whose tokens are
  derived without forbidden empty branches.
-/

namespace Railroad

namespace Grammar

/-! ## Marked tokens -/

/-- A token, with the place to be reported if too many groups and loops are found at
it. -/
structure Mark where
  token : Token
  tooDeep : Option Span

namespace Mark

/-- A token at which nothing is counted. -/
def plain (token : Token) : Mark :=
  ⟨token, none⟩

/-- A token at which `count` groups and loops are found, to which it would add one.
They are too many when they reach the limit. -/
def counted (token : Token) (count : Nat) (span : Span) : Mark :=
  ⟨token, if count ≥ maxNesting then some span else none⟩

end Mark

mutual

/-- The tokens of an element inside of `depth` open groups.  The opening parenthesis
counts these groups, the plus sign the groups and loops of its operand, and the
closing parenthesis those of the alternation inside, but for the latter it is the
opening one that is reported. -/
def Element.marks (depth : Nat) : Element → List Mark
  | .name t => [.plain t.val]
  | .terminal t => [.plain t.val]
  | .remark t => [.plain t.val]
  | .group opening inner closing =>
    .counted opening.val depth opening.val.span ::
      (inner.marks (depth + 1) ++ [.counted closing.val inner.tree.nesting opening.val.span])
  | .loop element plus =>
    element.marks depth ++ [.counted plus.val element.tree.nesting plus.val.span]

/-- The tokens of a branch inside of `depth` open groups. -/
def Branch.marks (depth : Nat) : Branch → List Mark
  | .empty => []
  | .snoc front element => front.marks depth ++ element.marks depth

/-- The tokens of an alternation inside of `depth` open groups. -/
def Alternatives.marks (depth : Nat) : Alternatives → List Mark
  | .single branch => branch.marks depth
  | .snoc front bar branch => front.marks depth ++ .plain bar.val :: branch.marks depth

end

/-- The tokens of a rule. -/
def Sentence.marks (d : Sentence) : List Mark :=
  .plain d.name.val :: .plain d.colon.val ::
    (d.body.marks 0 ++ (d.semicolon.map fun t => Mark.plain t.val).toList)

mutual

/-- Marking the tokens of an element leaves out none and adds none. -/
theorem Element.map_token_marks (e : Element) (depth : Nat) :
    (e.marks depth).map Mark.token = e.tokens := by
  match e with
  | .name t | .terminal t | .remark t => rfl
  | .group opening inner closing =>
    rw [Element.marks, List.map_cons, List.map_append, Alternatives.map_token_marks inner,
      Element.tokens]
    rfl
  | .loop element plus =>
    rw [Element.marks, List.map_append, Element.map_token_marks element, Element.tokens]
    rfl

theorem Branch.map_token_marks (b : Branch) (depth : Nat) :
    (b.marks depth).map Mark.token = b.tokens := by
  match b with
  | .empty => rfl
  | .snoc front element =>
    rw [Branch.marks, List.map_append, Branch.map_token_marks front,
      Element.map_token_marks element, Branch.tokens]

theorem Alternatives.map_token_marks (a : Alternatives) (depth : Nat) :
    (a.marks depth).map Mark.token = a.tokens := by
  match a with
  | .single branch => exact Branch.map_token_marks branch depth
  | .snoc front bar branch =>
    rw [Alternatives.marks, List.map_append, List.map_cons, Alternatives.map_token_marks front,
      Branch.map_token_marks branch, Alternatives.tokens]
    rfl

end

/-- Marking the tokens of a rule leaves out none and adds none. -/
theorem Sentence.map_token_marks (d : Sentence) : d.marks.map Mark.token = d.tokens := by
  rw [Sentence.marks, List.map_cons, List.map_cons, List.map_append,
    Alternatives.map_token_marks, Sentence.tokens]
  cases d.semicolon with
  | none => rfl
  | some semicolon => rfl

/-! ## The first mark -/

section Verdict

variable {α β : Type}

/-- The outcome of reading marked tokens that stand for `a`. -/
def verdict (marks : List Mark) (a : α) : Except Rule.Error α :=
  match marks.findSome? Mark.tooDeep with
  | none => .ok a
  | some span => .error (.tooDeep maxNesting span)

@[simp] theorem verdict_nil (a : α) : verdict [] a = .ok a := rfl

@[simp] theorem verdict_plain (t : Token) (marks : List Mark) (a : α) :
    verdict (.plain t :: marks) a = verdict marks a := rfl

/-- A token at which too much is counted decides, and otherwise the tokens behind it do. -/
theorem verdict_counted (t : Token) (count : Nat) (span : Span) (marks : List Mark) (a : α) :
    verdict (.counted t count span :: marks) a =
      if count ≥ maxNesting then .error (.tooDeep maxNesting span) else verdict marks a := by
  unfold verdict
  rw [List.findSome?_cons, Mark.counted]
  by_cases hdeep : count ≥ maxNesting
  · rw [if_pos hdeep, if_pos hdeep]
  · rw [if_neg hdeep, if_neg hdeep]

/-- The marks of two steps decide as those of the first and then those of the second. -/
theorem verdict_bind {marks rest : List Mark} {a : α} {b : β} {f : α → Except Rule.Error β}
    (h : f a = verdict rest b) : (verdict marks a >>= f) = verdict (marks ++ rest) b := by
  unfold verdict at h ⊢
  rw [List.findSome?_append]
  cases marks.findSome? Mark.tooDeep with
  | none => exact h
  | some span => rfl

/-- A second step that cannot fail adds no mark. -/
theorem verdict_bind_ok (marks : List Mark) (a : α) (f : α → β) :
    (verdict marks a >>= fun x => .ok (f x)) = verdict marks (f a) := by
  unfold verdict
  cases marks.findSome? Mark.tooDeep with
  | none => rfl
  | some span => rfl

/-- Reading succeeds if nothing is found at any token. -/
theorem verdict_eq_ok_iff {marks : List Mark} {a b : α} :
    verdict marks a = .ok b ↔ a = b ∧ ∀ mark ∈ marks, mark.tooDeep = none := by
  rw [← List.findSome?_eq_none_iff]
  unfold verdict
  cases marks.findSome? Mark.tooDeep with
  | none => simp
  | some span => simp

/-- Reading fails with the first token at which too much is found. -/
theorem verdict_eq_error_iff {marks : List Mark} {a : α} {e : Rule.Error} :
    verdict marks a = .error e ↔ ∃ before mark after span, marks = before ++ mark :: after ∧
      (∀ m ∈ before, m.tooDeep = none) ∧ mark.tooDeep = some span ∧
        e = .tooDeep maxNesting span := by
  have hfirst : ∀ span, marks.findSome? Mark.tooDeep = some span ↔
      ∃ before mark after, marks = before ++ mark :: after ∧
        mark.tooDeep = some span ∧ ∀ m ∈ before, m.tooDeep = none :=
    fun span => List.findSome?_eq_some_iff
  constructor
  · intro h
    unfold verdict at h
    cases hfind : marks.findSome? Mark.tooDeep with
    | none =>
      rw [hfind] at h
      cases h
    | some span =>
      rw [hfind] at h
      cases h
      obtain ⟨before, mark, after, hmarks, hmark, hbefore⟩ := (hfirst span).mp hfind
      exact ⟨before, mark, after, span, hmarks, hbefore, hmark, rfl⟩
  · rintro ⟨before, mark, after, span, hmarks, hbefore, hmark, rfl⟩
    unfold verdict
    rw [(hfirst span).mpr ⟨before, mark, after, hmarks, hmark, hbefore⟩]

end Verdict

/-! ## Alternations without a fault -/

/-- What has been read of an alternation when nothing has been too deep. -/
def Alternatives.read : Alternatives → Alternation
  | .single branch => ⟨[], branch.trees.reverse⟩
  | .snoc front bar branch =>
    { front.read.bar bar.val.span with elements := branch.trees.reverse }

/-- No element of a branch is a sequence, so each of them is a child of its tree. -/
theorem Branch.branchOf_trees (b : Branch) :
    Alternation.branchOf b.trees = branchTree b.trees :=
  Alternation.branchOf_eq b.trees fun _ hnode => (Branch.kind_of_mem_trees hnode).1

@[simp] theorem Alternatives.branches_read (a : Alternatives) :
    a.read.branches = a.branches := by
  match a with
  | .single branch =>
    rw [Alternatives.read, Alternation.branches_mk_nil, List.reverse_reverse,
      Branch.branchOf_trees, Alternatives.branches]
  | .snoc front bar branch =>
    rw [Alternatives.read, Alternation.branches_bar, List.reverse_reverse,
      Branch.branchOf_trees, Alternatives.branches_read front, Alternatives.branches]

/-- An alternation that is filled has the tree of the grammar. -/
theorem Alternatives.tree_read {a : Alternatives} (h : Filled a.branches) :
    a.read.tree = .ok a.tree := by
  have hkind := kind_of_branches_eq a.branches_read
  rw [a.read.tree_eq_ok_iff _ fun node hnode => (hkind node hnode).1, branches_read]
  exact ⟨h, rfl⟩

end Grammar

/-- A group around an alternation is built unless that nests too deeply already. -/
theorem Body.groupOf_tree (span : Span) (a : Grammar.Alternatives) :
    groupOf span a.tree =
      if a.tree.nesting ≥ maxNesting then .error (.tooDeep maxNesting span)
      else .ok ⟨.group, "", Grammar.groupChildren a.branches⟩ := by
  have hblank := Grammar.alternationTree_blank_iff
    fun node (hnode : some node ∈ a.branches) => (Grammar.Alternatives.kind_of_mem_branches hnode).2
  rw [Grammar.Alternatives.tree, groupOf]
  by_cases hnone : a.branches = [none]
  · rw [if_pos (hblank.mpr hnone), hnone]
    rfl
  · rw [if_neg (hblank.not.mpr hnone), Node.wrap_eq .group _ rfl, Grammar.groupChildren_eq hnone]

namespace Grammar

/-! ## Evaluation by the first mark -/

mutual

/-- The first mark of a filled element decides the outcome of reading it. -/
theorem Element.eval_eq_verdict {e : Element} (depth : Nat)
    (h : ∀ a ∈ e.alternations, Filled a.branches) :
    e.eval depth = verdict (e.marks depth) e.tree := by
  match e with
  | .name t | .terminal t | .remark t => rfl
  | .group opening inner closing =>
    rw [Element.alternations, List.forall_mem_append] at h
    have htree : inner.read.tree = .ok inner.tree :=
      Alternatives.tree_read (h.2 inner (List.mem_singleton_self inner))
    have hclosing : (do
        let node ← inner.read.tree
        Body.groupOf opening.val.span node) =
        verdict [.counted closing.val inner.tree.nesting opening.val.span]
          (Element.group opening inner closing).tree := by
      rw [htree, ok_bind, Body.groupOf_tree, verdict_counted, verdict_nil, Element.tree]
    rw [Element.eval, Element.marks, verdict_counted]
    refine if_congr Iff.rfl rfl ?_
    rw [Alternatives.eval_eq_verdict (depth + 1) h.1]
    exact verdict_bind hclosing
  | .loop element plus =>
    have hplus : (if element.tree.nesting + 1 > maxNesting
          then .error (.tooDeep maxNesting plus.val.span) else .ok (Node.wrap .loop element.tree)) =
        verdict [.counted plus.val element.tree.nesting plus.val.span]
          (Element.loop element plus).tree := by
      rw [verdict_counted, verdict_nil, Node.wrap_eq .loop _ rfl, Element.tree]
      exact if_congr Nat.lt_succ_iff rfl rfl
    have helement : element.eval depth = verdict (element.marks depth) element.tree :=
      Element.eval_eq_verdict depth h
    rw [Element.eval, Element.marks, helement]
    exact verdict_bind hplus

/-- The first mark of a filled branch decides the outcome of reading it. -/
theorem Branch.eval_eq_verdict {b : Branch} (depth : Nat)
    (h : ∀ a ∈ b.alternations, Filled a.branches) :
    b.eval depth = verdict (b.marks depth) b.trees.reverse := by
  match b with
  | .empty => rfl
  | .snoc front element =>
    rw [Branch.alternations, List.forall_mem_append] at h
    rw [Branch.eval, Branch.marks, Branch.eval_eq_verdict depth h.1]
    apply verdict_bind
    rw [Element.eval_eq_verdict depth h.2, verdict_bind_ok, Branch.trees, List.reverse_append,
      List.reverse_singleton, List.singleton_append]

/-- The first mark of an alternation with filled pieces decides the outcome of reading
it. -/
theorem Alternatives.eval_eq_verdict {a : Alternatives} (depth : Nat)
    (h : ∀ x ∈ a.innerAlternations, Filled x.branches) :
    a.eval depth = verdict (a.marks depth) a.read := by
  match a with
  | .single branch =>
    rw [Alternatives.eval, Alternatives.marks, Branch.eval_eq_verdict depth h, verdict_bind_ok,
      Alternatives.read]
  | .snoc front bar branch =>
    rw [Alternatives.innerAlternations, List.forall_mem_append] at h
    rw [Alternatives.eval, Alternatives.marks, Alternatives.eval_eq_verdict depth h.1]
    apply verdict_bind
    rw [verdict_plain, Branch.eval_eq_verdict depth h.2, verdict_bind_ok, Alternatives.read]

end

/-- The first mark of a filled derivation decides the outcome of reading it. -/
theorem Sentence.eval_eq_verdict {d : Sentence} (h : d.Filled) :
    d.eval = verdict d.marks d.rule := by
  rw [Sentence.Filled, Sentence.alternations, List.forall_mem_append] at h
  rw [Sentence.eval, Sentence.marks, verdict_plain, verdict_plain,
    Alternatives.eval_eq_verdict 0 h.1]
  apply verdict_bind
  rw [Alternatives.tree_read (h.2 d.body (List.mem_singleton_self d.body)), ok_bind, Sentence.rule]
  cases d.semicolon with
  | none => rfl
  | some semicolon => rfl

/-- Nothing is found at any token of a filled derivation exactly if no path of its tree
carries too many groups and loops. -/
theorem Sentence.forall_mark_iff {d : Sentence} (h : d.Filled) :
    (∀ mark ∈ d.marks, mark.tooDeep = none) ↔ d.rule.root.Shallow := by
  have hok := d.eval_eq_ok_iff d.rule
  rw [Sentence.eval_eq_verdict h, verdict_eq_ok_iff] at hok
  rw [Node.shallow_iff]
  constructor
  · intro hmarks
    exact (hok.mp ⟨rfl, hmarks⟩).2.2
  · intro hnesting
    exact (hok.mpr ⟨h, rfl, hnesting⟩).2

end Grammar

namespace Rule

open Grammar

/-- A source whose tokens are derived without forbidden empty branches has the rule of
the derivation if no path of its tree carries too many groups and loops.  Otherwise
the first token at which too many are found is reported. -/
theorem parse_of_tokens_eq {source : String} (d : Sentence)
    (htokens : d.tokens = Token.ofSource source) (hfilled : d.Filled) :
    d.marks.map Mark.token = Token.ofSource source ∧
      (d.rule.root.Shallow → parse source = .ok (some d.rule)) ∧
      (¬d.rule.root.Shallow → ∃ before mark after span,
        d.marks = before ++ mark :: after ∧ (∀ m ∈ before, m.tooDeep = none) ∧
          mark.tooDeep = some span ∧ parse source = .error (.tooDeep maxNesting span)) := by
  refine ⟨?_, parse_eq_of_tokens_eq d htokens hfilled, ?_⟩
  · rw [Sentence.map_token_marks, htokens]
  · intro hdeep
    rw [← Sentence.forall_mark_iff hfilled] at hdeep
    have hparse : parse source = some <$> verdict d.marks d.rule := by
      rw [parse_eq_outcome, ← htokens, Sentence.outcome_tokens, Sentence.eval_eq_verdict hfilled]
    cases hverdict : verdict d.marks d.rule with
    | ok rule => exact absurd (verdict_eq_ok_iff.mp hverdict).2 hdeep
    | error e =>
      obtain ⟨before, mark, after, span, hmarks, hbefore, hmark, rfl⟩ :=
        verdict_eq_error_iff.mp hverdict
      refine ⟨before, mark, after, span, hmarks, hbefore, hmark, ?_⟩
      rw [hparse, hverdict]
      rfl

/-- A name with `n` plus signs behind it, at the third byte of a source. -/
def repeated : Nat → Element
  | 0 => .name ⟨⟨.identifier, "a", ⟨2, 3⟩⟩, rfl⟩
  | n + 1 => .loop (repeated n) ⟨⟨.plus, "+", ⟨n + 3, n + 4⟩⟩, rfl⟩

/-- The rule that has such a name for its body. -/
def repeatedRule (n : Nat) : Sentence where
  name := ⟨⟨.identifier, "r", ⟨0, 1⟩⟩, rfl⟩
  colon := ⟨⟨.colon, ":", ⟨1, 2⟩⟩, rfl⟩
  body := .single (.snoc .empty (repeated n))
  semicolon := none

/-- There is no empty branch in the rule. -/
theorem filled_repeatedRule (n : Nat) : (repeatedRule n).Filled := by
  have hinner : (repeated n).alternations = [] := by
    induction n with
    | zero => rfl
    | succ n ih => rw [repeated, Element.alternations, ih]
  intro a ha
  obtain rfl : a = (repeatedRule n).body := by
    simpa [Sentence.alternations, repeatedRule, Alternatives.innerAlternations,
      Branch.alternations, hinner] using ha
  exact filled_singleton _

/-- Its tree is nested as deeply as there are plus signs. -/
theorem nesting_repeatedRule (n : Nat) : (repeatedRule n).rule.root.nesting = n := by
  have htree : (repeatedRule n).rule.root = (repeated n).tree := rfl
  rw [htree]
  induction n with
  | zero => rfl
  | succ n ih =>
    rw [repeated, Element.tree, Node.nesting_singleton_of_nests rfl, ih rfl]

/-- Of 257 plus signs behind a name, the last one is one more than there may be. -/
theorem parse_of_tokens_eq_repeated :
    (repeatedRule 257).tokens =
        Token.ofSource (String.ofList ("r:a".toList ++ List.replicate 257 '+')) ∧
      (repeatedRule 257).Filled ∧ ¬(repeatedRule 257).rule.root.Shallow ∧
      (∃ before mark after, (repeatedRule 257).marks = before ++ mark :: after ∧
        (∀ m ∈ before, m.tooDeep = none) ∧ mark.tooDeep = some ⟨259, 260⟩) ∧
      parse (String.ofList ("r:a".toList ++ List.replicate 257 '+')) =
        .error (.tooDeep 256 ⟨259, 260⟩) := by
  have htokens : (repeatedRule 257).tokens =
      Token.ofSource (String.ofList ("r:a".toList ++ List.replicate 257 '+')) := by
    rw [Token.ofSource, String.toList_ofList]
    decide +kernel
  have hfilled := filled_repeatedRule 257
  have hdeep : ¬(repeatedRule 257).rule.root.Shallow := by
    rw [Node.shallow_iff, nesting_repeatedRule]
    decide
  have hparse : parse (String.ofList ("r:a".toList ++ List.replicate 257 '+')) =
      .error (.tooDeep 256 ⟨259, 260⟩) := by
    decide +kernel
  obtain ⟨before, mark, after, span, hmarks, hbefore, hmark, hfault⟩ :=
    (parse_of_tokens_eq (repeatedRule 257) htokens hfilled).2.2 hdeep
  rw [hparse] at hfault
  cases hfault
  exact ⟨htokens, hfilled, hdeep, ⟨before, mark, after, hmarks, hbefore, hmark⟩, hparse⟩

end Rule

end Railroad
