import Railroad.Proofs.Grammar.Evaluation

/-!
# Reading the tokens of a derivation

A rule is read by a machine with a stack of open groups.  When it is given the
tokens of a derivation, it does what evaluating the derivation says: the outcome
of the whole run is that of the pieces, one after the other.

Main results:

- Theorems {lit}`Grammar.Element.outcome_tokens`,
  {lit}`Grammar.Branch.outcome_tokens` and
  {lit}`Grammar.Alternatives.outcome_tokens`: the tokens of a piece have the effect of
  its evaluation, whatever follows them.
- Theorem {lit}`Grammar.Sentence.outcome_tokens`: reading the tokens of a derivation
  has the outcome of its evaluation.
-/

namespace Railroad

namespace Grammar

open Reading

variable {size : Nat} {name : String}

mutual

/-- The tokens of an element have the effect of its evaluation. -/
theorem Element.outcome_tokens (e : Element) (groups : List OpenGroup) (a : Alternation)
    (ts : List Token) :
    (body name ⟨groups, a⟩).outcome size (e.tokens ++ ts) = (do
      let node ← e.eval groups.length
      (body name ⟨groups, a.push node⟩).outcome size ts) := by
  match e with
  | .name t =>
    have hstep : Body.step ⟨groups, a⟩ t.val =
        .ok ⟨groups, a.push (Node.nonTerminal t.val.text)⟩ := by
      rw [Body.step, t.property]
      rfl
    exact outcome_of_body_step_eq_ok hstep (by simp [t.property]) (by simp [t.property]) ts
  | .terminal t =>
    have hstep : Body.step ⟨groups, a⟩ t.val =
        .ok ⟨groups, a.push (Node.terminal t.val.text)⟩ := by
      rw [Body.step, t.property]
      rfl
    exact outcome_of_body_step_eq_ok hstep (by simp [t.property]) (by simp [t.property]) ts
  | .remark t =>
    have hstep : Body.step ⟨groups, a⟩ t.val =
        .ok ⟨groups, a.push (Node.remark (Body.remarkText t.val.text))⟩ := by
      rw [Body.step, t.property]
      rfl
    exact outcome_of_body_step_eq_ok hstep (by simp [t.property]) (by simp [t.property]) ts
  | .group opening inner closing =>
    rw [Element.tokens, List.cons_append, outcome_openParen opening.property, Element.eval]
    split
    · rfl
    · rw [List.append_assoc, Alternatives.outcome_tokens inner]
      simp only [bind_assoc, List.singleton_append, outcome_closeParen closing.property,
        List.length_cons]
  | .loop element plus =>
    rw [Element.tokens, List.append_assoc, Element.outcome_tokens element, Element.eval, bind_assoc]
    refine bind_congr ?_
    intro node
    rw [List.singleton_append, outcome_plus plus.property]
    split <;> rfl

/-- The tokens of a branch have the effect of its evaluation. -/
theorem Branch.outcome_tokens (b : Branch) (groups : List OpenGroup)
    (closed : List (Option Node × Span)) (ts : List Token) :
    (body name ⟨groups, ⟨closed, []⟩⟩).outcome size (b.tokens ++ ts) = (do
      let nodes ← b.eval groups.length
      (body name ⟨groups, ⟨closed, nodes⟩⟩).outcome size ts) := by
  match b with
  | .empty => rfl
  | .snoc front element =>
    rw [Branch.tokens, List.append_assoc, Branch.outcome_tokens front, Branch.eval, bind_assoc]
    refine bind_congr ?_
    intro nodes
    rw [Element.outcome_tokens element, bind_assoc]
    rfl

/-- The tokens of an alternation have the effect of its evaluation. -/
theorem Alternatives.outcome_tokens (x : Alternatives) (groups : List OpenGroup)
    (ts : List Token) :
    (body name ⟨groups, .empty⟩).outcome size (x.tokens ++ ts) = (do
      let a ← x.eval groups.length
      (body name ⟨groups, a⟩).outcome size ts) := by
  match x with
  | .single branch =>
    rw [Alternatives.tokens, Alternatives.eval, bind_assoc]
    exact Branch.outcome_tokens branch groups [] ts
  | .snoc front bar branch =>
    rw [Alternatives.tokens, List.append_assoc, Alternatives.outcome_tokens front,
      Alternatives.eval, bind_assoc]
    refine bind_congr ?_
    intro a
    rw [List.cons_append, outcome_bar bar.property, bind_assoc]
    exact Branch.outcome_tokens branch groups _ ts

end

/-- Reading the tokens of a derivation has the outcome of its evaluation. -/
theorem Sentence.outcome_tokens (d : Sentence) :
    start.outcome size d.tokens = some <$> d.eval := by
  rw [Sentence.tokens, outcome_name d.name.property, outcome_colon d.colon.property, Body.empty,
    Alternatives.outcome_tokens d.body, Sentence.eval, map_bind]
  refine bind_congr ?_
  intro a
  cases d.semicolon with
  | none =>
    rw [Option.map_none, Option.toList_none, outcome_nil, finish, map_bind]
    rfl
  | some semicolon =>
    rw [Option.map_some, Option.toList_some, outcome_semicolon semicolon.property, map_bind]
    rfl

end Grammar

end Railroad
