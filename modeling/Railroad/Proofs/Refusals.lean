import Railroad.Proofs.Reading

/-!
# Refused tokens

A token that is refused ends the reading of a rule with a fault.  This module lists the
refusals that are possible inside of the body of a rule, each with what has led to it.

Main definitions:

- Definition {lit}`Token.Kind.IsFaulty`: the kinds of tokens that no rule has.
- Definition {lit}`Body.Refuses`: the refusals that are possible in a body.

Main results:

- Theorem {lit}`Alternation.exists_of_tree_eq_error`: the fault of an alternation is an
  empty branch.
- Theorem {lit}`Body.refuses_of_step_eq_error`: there are no other refusals.
-/

namespace Railroad

/-- The kinds of tokens that stand only in faulty texts. -/
def Token.Kind.IsFaulty : Token.Kind → Prop
  | .openBracket | .singleQuote | .doubleQuote | .malformed => True
  | _ => False

namespace Alternation

/-- An alternation is faulty because of an empty branch, which lies between two bars or
ends at the first bar. -/
theorem exists_of_tree_eq_error {a : Alternation} {e : Rule.Error} (h : a.tree = .error e) :
    ∃ span, e = .emptyAlternative span ∧
      (emptyInner? a.closed.reverse = some span ∨
        ∃ first rest, a.closed.reverse = (first, span) :: rest) := by
  rw [tree, treeOf.eq_def] at h
  split at h
  · cases h
  · next first bar rest hclosed =>
    split at h
    · next span hinner =>
      cases h
      exact ⟨span, rfl, .inl hinner⟩
    · split at h
      · cases h
        exact ⟨bar, rfl, .inr ⟨first, rest, hclosed⟩⟩
      · cases h

end Alternation

namespace Body

/-- The refusals of a token from inside of the body of a rule. -/
inductive Refuses (b : Body) (t : Token) : Reading.Refusal → Prop where
  /-- The token ends an alternation that is faulty. -/
  | emptyBranch {e : Rule.Error} (hkind : t.kind = .closeParen ∨ t.kind = .semicolon)
      (htree : b.current.tree = .error e) : Refuses b t ⟨e, false⟩
  /-- The token closes a group, but none is open. -/
  | notOpened (hkind : t.kind = .closeParen) (hgroups : b.groups = []) :
      Refuses b t ⟨.unexpectedToken "end of rule" t.kind.text t.span, true⟩
  /-- The token ends the body, but a group is open. -/
  | notClosed (hkind : t.kind = .semicolon) (hgroups : b.groups ≠ []) :
      Refuses b t ⟨.unexpectedToken "')'" t.kind.text t.span, true⟩
  /-- The token closes a group around a tree that nests as deep as a rule may. -/
  | deepGroup {group : OpenGroup} {groups : List OpenGroup} {inner : Node}
      (hkind : t.kind = .closeParen) (hgroups : b.groups = group :: groups)
      (htree : b.current.tree = .ok inner) (hnesting : maxNesting ≤ inner.nesting) :
      Refuses b t ⟨.tooDeep maxNesting group.bracket, true⟩
  /-- The token opens a group inside of as many as a rule may have. -/
  | deepOpening (hkind : t.kind = .openParen) (hdepth : maxNesting ≤ b.groups.length) :
      Refuses b t ⟨.tooDeep maxNesting t.span, true⟩
  /-- The token repeats an element that nests as deep as a rule may. -/
  | deepLoop {node : Node} {nodes : List Node} (hkind : t.kind = .plus)
      (helements : b.current.elements = node :: nodes) (hnesting : maxNesting ≤ node.nesting) :
      Refuses b t ⟨.tooDeep maxNesting t.span, true⟩
  /-- The token should repeat an element, but there is none in front of it. -/
  | noElement (hkind : t.kind = .plus) (helements : b.current.elements = []) :
      Refuses b t ⟨.unexpectedToken "element" t.kind.text t.span, true⟩
  | colon (hkind : t.kind = .colon) :
      Refuses b t ⟨.unexpectedToken "element" t.kind.text t.span, true⟩
  | faulty (hkind : t.kind.IsFaulty) : Refuses b t ⟨faultOf t, true⟩

variable {b : Body} {t : Token} {name : String} {refusal : Reading.Refusal}

/-- Where an alternation ends, only an empty branch is refused. -/
theorem refuses_of_complete_eq_error (hkind : t.kind = .closeParen ∨ t.kind = .semicolon)
    (h : Reading.complete b.current = .error refusal) : b.Refuses t refusal := by
  rw [Reading.complete] at h
  cases htree : b.current.tree with
  | ok node =>
    rw [htree] at h
    cases h
  | error e =>
    rw [htree] at h
    cases h
    exact .emptyBranch hkind htree

/-- A complete alternation has its tree. -/
theorem tree_of_complete_eq_ok {a : Alternation} {node : Node}
    (h : Reading.complete a = .ok node) : a.tree = .ok node := by
  rw [Reading.complete] at h
  cases htree : a.tree with
  | ok node' =>
    rw [htree] at h
    cases h
    rfl
  | error e =>
    rw [htree] at h
    cases h

/-- A group is refused only if it nests too deeply. -/
theorem of_groupOf_eq_error {span : Span} {inner : Node} {e : Rule.Error}
    (h : groupOf span inner = .error e) :
    e = .tooDeep maxNesting span ∧ maxNesting ≤ inner.nesting := by
  rw [groupOf] at h
  split at h
  · cases h
  · split at h
    · next hnesting =>
      cases h
      exact ⟨rfl, hnesting⟩
    · cases h

/-- All reasons for which a closing parenthesis is refused. -/
theorem refuses_of_closeGroup_eq_error (hkind : t.kind = .closeParen)
    (h : Reading.closeGroup name b t = .error refusal) : b.Refuses t refusal := by
  rw [Reading.closeGroup] at h
  cases hcomplete : Reading.complete b.current with
  | error refusal' =>
    rw [hcomplete] at h
    cases h
    exact refuses_of_complete_eq_error (.inl hkind) hcomplete
  | ok inner =>
    rw [hcomplete, ok_bind] at h
    cases hgroups : b.groups with
    | nil =>
      rw [hgroups] at h
      cases h
      exact .notOpened hkind hgroups
    | cons group groups =>
      simp only [hgroups] at h
      cases hgroup : groupOf group.bracket inner with
      | ok node =>
        rw [hgroup] at h
        cases h
      | error e =>
        rw [hgroup] at h
        cases h
        obtain ⟨rfl, hnesting⟩ := of_groupOf_eq_error hgroup
        exact .deepGroup hkind hgroups (tree_of_complete_eq_ok hcomplete) hnesting

/-- All reasons for which a semicolon is refused. -/
theorem refuses_of_closeBody_eq_error (hkind : t.kind = .semicolon)
    (h : Reading.closeBody name b t = .error refusal) : b.Refuses t refusal := by
  rw [Reading.closeBody] at h
  cases hcomplete : Reading.complete b.current with
  | error refusal' =>
    rw [hcomplete] at h
    cases h
    exact refuses_of_complete_eq_error (.inr hkind) hcomplete
  | ok inner =>
    rw [hcomplete, ok_bind] at h
    cases hgroups : b.groups with
    | nil =>
      rw [hgroups] at h
      cases h
    | cons group groups =>
      rw [hgroups] at h
      cases h
      exact .notClosed hkind (by simp [hgroups])

/-- The fault of any other token. -/
theorem refuses_of_body_step_eq_error {e : Rule.Error} (hclose : t.kind ≠ .closeParen)
    (hend : t.kind ≠ .semicolon) (h : b.step t = .error e) : b.Refuses t ⟨e, true⟩ := by
  rw [step] at h
  cases hkind : t.kind <;> simp only [hkind] at h
  case closeParen => contradiction
  case semicolon => contradiction
  case openParen =>
    rw [openGroup] at h
    split at h
    · next hdepth =>
      cases h
      exact .deepOpening hkind hdepth
    · cases h
  case plus =>
    rw [repeatLast] at h
    split at h
    · next helements =>
      cases h
      exact .noElement hkind helements
    · next node nodes helements =>
      split at h
      · cases h
        exact .deepLoop hkind helements (by omega)
      · cases h
  case colon =>
    rw [← hkind] at h
    cases h
    exact .colon hkind
  case identifier | terminal | remark | bar => cases h
  case openBracket | singleQuote | doubleQuote | malformed =>
    cases h
    refine .faulty ?_
    rw [hkind]
    trivial

/-- Every refusal from inside of the body of a rule is one of those. -/
theorem refuses_of_step_eq_error (h : (Reading.body name b).step t = .error refusal) :
    b.Refuses t refusal := by
  rw [Reading.step] at h
  split at h
  · exact refuses_of_closeGroup_eq_error ‹_› h
  · exact refuses_of_closeBody_eq_error ‹_› h
  · cases hstep : b.step t with
    | ok b' =>
      rw [hstep] at h
      cases h
    | error e =>
      rw [hstep] at h
      cases h
      exact refuses_of_body_step_eq_error ‹_› ‹_› hstep

end Body

end Railroad
