import Railroad.Proofs.Failing
import Railroad.Rule.Reading

/-!
# Steps of reading a rule

Each kind of token has one effect on what has been read.  This module states these
effects twice: as equations for the outcome of a whole run, and as the list of all
steps that are possible inside of the body of a rule.

Main definitions:

- Definition {lit}`Reading.outcome`: the rule or the fault that reading ends with.
- Definition {lit}`Reading.Move`: the steps that are possible in a body.

Main results:

- Theorem {lit}`Reading.move_of_step_eq_ok`: there are no other steps.
-/

namespace Railroad

/-! ## The effect of each token -/

namespace Reading

/-- The rule or the fault that reading some tokens ends with. -/
def outcome (size : Nat) (r : Reading) (ts : List Token) : Except Rule.Error (Option Rule) :=
  (r.run size ts).1

variable {size : Nat} {name : String} {groups : List OpenGroup} {a : Alternation} {t : Token}

theorem outcome_nil (r : Reading) : r.outcome size [] = r.finish size := rfl

/-- A run goes on behind a token that has an effect. -/
theorem run_of_step_eq_ok {r r' : Reading} (h : r.step t = .ok r') (ts : List Token) :
    r.run size (t :: ts) = r'.run size ts := by
  rw [run, h]

/-- A run ends at a token that is refused, which may be left for the next run. -/
theorem run_of_step_eq_error {r : Reading} {refusal : Refusal} (h : r.step t = .error refusal)
    (ts : List Token) :
    r.run size (t :: ts) = (.error refusal.error, if refusal.tokenRead then ts else t :: ts) := by
  rw [run, h]

/-- The outcome is that of the reading behind the token. -/
theorem outcome_of_step_eq_ok {r r' : Reading} (h : r.step t = .ok r') (ts : List Token) :
    r.outcome size (t :: ts) = r'.outcome size ts :=
  congrArg Prod.fst (run_of_step_eq_ok h ts)

/-- The outcome is the error with which the token is refused. -/
theorem outcome_of_step_eq_error {r : Reading} {refusal : Refusal}
    (h : r.step t = .error refusal) (ts : List Token) :
    r.outcome size (t :: ts) = .error refusal.error :=
  congrArg Prod.fst (run_of_step_eq_error h ts)

theorem step_start (h : t.kind = .identifier) : start.step t = .ok (named t.text) := by
  rw [step, if_pos h]

/-- A rule begins with nothing but an identifier. -/
theorem step_start_of_ne (h : t.kind ≠ .identifier) :
    start.step t = .error ⟨.unexpectedToken "rule name" t.kind.text t.span, true⟩ := by
  rw [step, if_neg h]
  rfl

theorem step_named (h : t.kind = .colon) : (named name).step t = .ok (body name .empty) := by
  rw [step, if_pos h]

/-- Behind the name of a rule there is nothing but a colon. -/
theorem step_named_of_ne (h : t.kind ≠ .colon) :
    (named name).step t = .error ⟨.unexpectedToken "':'" t.kind.text t.span, true⟩ := by
  rw [step, if_neg h]
  rfl

theorem outcome_name (h : t.kind = .identifier) (ts : List Token) :
    start.outcome size (t :: ts) = (named t.text).outcome size ts :=
  outcome_of_step_eq_ok (step_start h) ts

theorem outcome_colon (h : t.kind = .colon) (ts : List Token) :
    (named name).outcome size (t :: ts) = (body name .empty).outcome size ts :=
  outcome_of_step_eq_ok (step_named h) ts

/-- A token that has an effect inside of the innermost alternation. -/
theorem step_of_body_step_eq_ok {b b' : Body} (h : b.step t = .ok b')
    (hclose : t.kind ≠ .closeParen) (hend : t.kind ≠ .semicolon) :
    (body name b).step t = .ok (body name b') := by
  rw [step]
  split
  · contradiction
  · contradiction
  · rw [h]
    rfl

/-- A token that is refused inside of the innermost alternation. -/
theorem step_of_body_step_eq_error {b : Body} {e : Rule.Error} (h : b.step t = .error e)
    (hclose : t.kind ≠ .closeParen) (hend : t.kind ≠ .semicolon) :
    (body name b).step t = .error ⟨e, true⟩ := by
  rw [step]
  split
  · contradiction
  · contradiction
  · rw [h]
    rfl

/-- The outcome behind a token that has an effect inside of the innermost alternation. -/
theorem outcome_of_body_step_eq_ok {b b' : Body} (h : b.step t = .ok b')
    (hclose : t.kind ≠ .closeParen) (hend : t.kind ≠ .semicolon) (ts : List Token) :
    (body name b).outcome size (t :: ts) = (body name b').outcome size ts :=
  outcome_of_step_eq_ok (step_of_body_step_eq_ok h hclose hend) ts

/-- The outcome at a token that is refused inside of the innermost alternation. -/
theorem outcome_of_body_step_eq_error {b : Body} {e : Rule.Error} (h : b.step t = .error e)
    (hclose : t.kind ≠ .closeParen) (hend : t.kind ≠ .semicolon) (ts : List Token) :
    (body name b).outcome size (t :: ts) = .error e :=
  outcome_of_step_eq_error (step_of_body_step_eq_error h hclose hend) ts

/-- A token that has its effect unless something nests too deeply. -/
theorem outcome_of_body_step_eq_ite {b b' : Body} {e : Rule.Error} {deep : Prop} [Decidable deep]
    (h : b.step t = if deep then .error e else .ok b') (hclose : t.kind ≠ .closeParen)
    (hend : t.kind ≠ .semicolon) (ts : List Token) :
    (body name b).outcome size (t :: ts) =
      if deep then .error e else (body name b').outcome size ts := by
  by_cases hdeep : deep
  · rw [if_pos hdeep] at h ⊢
    exact outcome_of_body_step_eq_error h hclose hend ts
  · rw [if_neg hdeep] at h ⊢
    exact outcome_of_body_step_eq_ok h hclose hend ts

/-- A parenthesis opens a group, unless the groups nest too deeply. -/
theorem body_step_openParen (h : t.kind = .openParen) :
    Body.step ⟨groups, a⟩ t =
      if groups.length ≥ maxNesting then .error (.tooDeep maxNesting t.span)
      else .ok ⟨⟨t.span, a⟩ :: groups, .empty⟩ := by
  rw [Body.step, h]
  rfl

/-- A plus puts the last element into a loop, unless this nests too deeply. -/
theorem body_step_plus (h : t.kind = .plus) (node : Node) :
    Body.step ⟨groups, a.push node⟩ t =
      if node.nesting + 1 > maxNesting then .error (.tooDeep maxNesting t.span)
      else .ok ⟨groups, a.push (Node.wrap .loop node)⟩ := by
  rw [Body.step, h]
  rfl

/-- Behind a parenthesis a new alternation is read, which the groups around wait for. -/
theorem outcome_openParen (h : t.kind = .openParen) (ts : List Token) :
    (body name ⟨groups, a⟩).outcome size (t :: ts) =
      if groups.length ≥ maxNesting then .error (.tooDeep maxNesting t.span)
      else (body name ⟨⟨t.span, a⟩ :: groups, .empty⟩).outcome size ts :=
  outcome_of_body_step_eq_ite (body_step_openParen h) (by simp [h]) (by simp [h]) ts

/-- A bar ends the branch that is being read. -/
theorem outcome_bar (h : t.kind = .bar) (ts : List Token) :
    (body name ⟨groups, a⟩).outcome size (t :: ts) =
      (body name ⟨groups, a.bar t.span⟩).outcome size ts :=
  outcome_of_body_step_eq_ok (by rw [Body.step, h]) (by simp [h]) (by simp [h]) ts

/-- Behind a plus the last element of the branch stands in a loop. -/
theorem outcome_plus (h : t.kind = .plus) (node : Node) (ts : List Token) :
    (body name ⟨groups, a.push node⟩).outcome size (t :: ts) =
      if node.nesting + 1 > maxNesting then .error (.tooDeep maxNesting t.span)
      else (body name ⟨groups, a.push (Node.wrap .loop node)⟩).outcome size ts :=
  outcome_of_body_step_eq_ite (body_step_plus h node) (by simp [h]) (by simp [h]) ts

/-- A parenthesis closes the innermost group, whose tree becomes an element of the branch
around. -/
theorem outcome_closeParen (h : t.kind = .closeParen) (group : OpenGroup) (ts : List Token) :
    (body name ⟨group :: groups, a⟩).outcome size (t :: ts) = (do
      let inner ← a.tree
      let node ← Body.groupOf group.bracket inner
      (body name ⟨groups, group.around.push node⟩).outcome size ts) := by
  have hstep : (body name ⟨group :: groups, a⟩).step t =
      closeGroup name ⟨group :: groups, a⟩ t := by
    rw [step, h]
  rw [closeGroup, complete] at hstep
  cases htree : a.tree with
  | error e =>
    rw [htree] at hstep
    exact outcome_of_step_eq_error hstep ts
  | ok inner =>
    rw [htree] at hstep
    cases hgroup : Body.groupOf group.bracket inner with
    | error e =>
      simp only [ok_bind, hgroup, ofRead, error_bind] at hstep ⊢
      exact outcome_of_step_eq_error hstep ts
    | ok node =>
      simp only [ok_bind, hgroup, ofRead] at hstep ⊢
      exact outcome_of_step_eq_ok hstep ts

/-- A semicolon ends the rule when no group is open. -/
theorem outcome_semicolon (h : t.kind = .semicolon) (ts : List Token) :
    (body name ⟨[], a⟩).outcome size (t :: ts) = (do
      let root ← a.tree
      (closed name root).outcome size ts) := by
  have hstep : (body name ⟨[], a⟩).step t = closeBody name ⟨[], a⟩ t := by
    rw [step, h]
  rw [closeBody, complete] at hstep
  cases htree : a.tree with
  | error e =>
    rw [htree] at hstep
    exact outcome_of_step_eq_error hstep ts
  | ok root =>
    rw [htree] at hstep
    exact outcome_of_step_eq_ok hstep ts

/-! ## All steps -/

/-- The steps that a token can take from inside of the body of a rule. -/
inductive Move (name : String) (b : Body) (t : Token) : Reading → Prop where
  | name (hkind : t.kind = .identifier) : Move name b t (body name (b.push (.nonTerminal t.text)))
  | terminal (hkind : t.kind = .terminal) : Move name b t (body name (b.push (.terminal t.text)))
  | remark (hkind : t.kind = .remark) :
      Move name b t (body name (b.push (.remark (Body.remarkText t.text))))
  | bar (hkind : t.kind = .bar) :
      Move name b t (body name { b with current := b.current.bar t.span })
  | openParen (hkind : t.kind = .openParen) (hdepth : b.groups.length < maxNesting) :
      Move name b t (body name ⟨⟨t.span, b.current⟩ :: b.groups, .empty⟩)
  | plus {node : Node} {nodes : List Node} (hkind : t.kind = .plus)
      (helements : b.current.elements = node :: nodes) (hnesting : node.nesting < maxNesting) :
      Move name b t (body name
        { b with current := { b.current with elements := Node.wrap .loop node :: nodes } })
  | closeParen {group : OpenGroup} {groups : List OpenGroup} {inner node : Node}
      (hkind : t.kind = .closeParen) (hgroups : b.groups = group :: groups)
      (htree : b.current.tree = .ok inner)
      (hgroup : Body.groupOf group.bracket inner = .ok node) :
      Move name b t (body name ⟨groups, group.around.push node⟩)
  | semicolon {root : Node} (hkind : t.kind = .semicolon) (hgroups : b.groups = [])
      (htree : b.current.tree = .ok root) : Move name b t (closed name root)

/-- A closing parenthesis that is read closes the innermost group. -/
theorem move_of_closeGroup_eq_ok {b : Body} {r : Reading} (hkind : t.kind = .closeParen)
    (h : closeGroup name b t = .ok r) : Move name b t r := by
  rw [closeGroup, complete] at h
  cases htree : b.current.tree with
  | error e =>
    rw [htree] at h
    cases h
  | ok inner =>
    rw [htree, ok_bind] at h
    cases hgroups : b.groups with
    | nil =>
      rw [hgroups] at h
      cases h
    | cons group groups =>
      rw [hgroups] at h
      cases hgroup : Body.groupOf group.bracket inner with
      | error e =>
        simp only [hgroup, ofRead, error_bind] at h
        cases h
      | ok node =>
        simp only [hgroup, ofRead, ok_bind] at h
        cases h
        exact .closeParen hkind hgroups htree hgroup

/-- A semicolon that is read ends a body without open groups. -/
theorem move_of_closeBody_eq_ok {b : Body} {r : Reading} (hkind : t.kind = .semicolon)
    (h : closeBody name b t = .ok r) : Move name b t r := by
  rw [closeBody, complete] at h
  cases htree : b.current.tree with
  | error e =>
    rw [htree] at h
    cases h
  | ok root =>
    rw [htree, ok_bind] at h
    cases hgroups : b.groups with
    | nil =>
      rw [hgroups] at h
      cases h
      exact .semicolon hkind hgroups htree
    | cons group groups =>
      rw [hgroups] at h
      cases h

/-- Any other token that is read has an effect inside of the innermost alternation. -/
theorem move_of_body_step_eq_ok {b b' : Body} (h : b.step t = .ok b') :
    Move name b t (body name b') := by
  rw [Body.step] at h
  cases hkind : t.kind <;> simp only [hkind] at h
  case identifier =>
    cases h
    exact .name hkind
  case terminal =>
    cases h
    exact .terminal hkind
  case remark =>
    cases h
    exact .remark hkind
  case bar =>
    cases h
    exact .bar hkind
  case openParen =>
    rw [Body.openGroup] at h
    by_cases hdepth : b.groups.length ≥ maxNesting
    · rw [if_pos hdepth] at h
      cases h
    · rw [if_neg hdepth] at h
      cases h
      exact .openParen hkind (by omega)
  case plus =>
    rw [Body.repeatLast] at h
    cases helements : b.current.elements with
    | nil =>
      rw [helements] at h
      cases h
    | cons node nodes =>
      simp only [helements] at h
      by_cases hdeep : node.nesting + 1 > maxNesting
      · rw [if_pos hdeep] at h
        cases h
      · rw [if_neg hdeep] at h
        cases h
        exact .plus hkind helements (by omega)
  all_goals cases h

/-- Every step from inside of the body of a rule is one of the moves. -/
theorem move_of_step_eq_ok {b : Body} {r : Reading} (h : (body name b).step t = .ok r) :
    Move name b t r := by
  rw [step] at h
  split at h
  · exact move_of_closeGroup_eq_ok ‹_› h
  · exact move_of_closeBody_eq_ok ‹_› h
  · cases hstep : b.step t with
    | error e =>
      rw [hstep] at h
      cases h
    | ok b' =>
      rw [hstep] at h
      cases h
      exact move_of_body_step_eq_ok hstep

end Reading

end Railroad
