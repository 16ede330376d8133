import Railroad.Proofs.Brackets
import Railroad.Proofs.Refusals

/-!
# Faults and the tokens that show them

While a rule is read, the brackets of open groups and the bars of branches are those of
tokens that have been read, and between an open bracket and the place that has been
reached, all groups are closed.  Every step keeps this invariant, and every fault can be
told from the tokens that it names.

Main definitions:

- Definition {lit}`Reading.ReadFrom`: what has been read, and from which tokens.
- Definition {lit}`Explained`: the tokens that a fault names.

Main results:

- Theorem {lit}`Reading.ReadFrom.step`: every step keeps the invariant.
- Theorem {lit}`Reading.ReadFrom.explained_of_step_eq_error`: a refusal is explained.
- Theorem {lit}`Reading.ReadFrom.explained`: so is the fault of a whole run.
-/

namespace Railroad

open Token (Balanced)

/-! ## What has been read from which tokens -/

/-- The branches that bars have closed, in order, and their tokens: those of each branch are
balanced, there are none if it is empty, and its bar follows them. -/
inductive Alternation.ClosedFrom : List (Option Node × Span) → List Token → Prop
  | nil : ClosedFrom [] []
  | cons {branch : Option Node} {bar : Token} {front ts : List Token}
      {closed : List (Option Node × Span)} (hbalanced : Balanced front)
      (hempty : branch = none → front = []) (hbar : bar.kind = .bar) (h : ClosedFrom closed ts) :
      ClosedFrom ((branch, bar.span) :: closed) (front ++ bar :: ts)

/-- An alternation has been read from some tokens: its closed branches, and the elements of
the branch behind them. -/
def Alternation.ReadFrom (a : Alternation) (ts : List Token) : Prop :=
  ∃ front last, ts = front ++ last ∧ ClosedFrom a.closed.reverse front ∧ Balanced last ∧
    (a.elements = [] → last = [])

/-- The open groups, innermost first, have been read from some tokens, of which the last is
the bracket of the innermost group. -/
inductive OpenGroup.AllFrom : List OpenGroup → List Token → Prop
  | nil : AllFrom [] []
  | cons {groups : List OpenGroup} {around : Alternation} {opening : Token}
      {before ts : List Token} (h : AllFrom groups before) (haround : around.ReadFrom ts)
      (hopening : opening.kind = .openParen) :
      AllFrom (⟨opening.span, around⟩ :: groups) (before ++ ts ++ [opening])

/-- A body has been read from some tokens. -/
def Body.ReadFrom (b : Body) (ts : List Token) : Prop :=
  ∃ before inner, ts = before ++ inner ∧ OpenGroup.AllFrom b.groups before ∧
    b.current.ReadFrom inner

/-- What has been read of a rule, and the tokens from which it has been read. -/
inductive Reading.ReadFrom : Reading → List Token → Prop
  | start : ReadFrom .start []
  | named {t : Token} (name : String) (hkind : t.kind = .identifier) : ReadFrom (.named name) [t]
  | body {b : Body} {ts : List Token} (name : String) (heading : List Token)
      (h : b.ReadFrom ts) : ReadFrom (.body name b) (heading ++ ts)
  | closed (name : String) (root : Node) (ts : List Token) : ReadFrom (.closed name root) ts

/-! ## Faults of tokens -/

/-- The tokens that a fault names, among all tokens of a text of `size` bytes, where `rest`
are those that have not been read. -/
inductive Explained (size : Nat) (all rest : List Token) : Rule.Error → Prop
  | unexpected {t : Token} (what : String) (ht : t ∈ all) :
      Explained size all rest (.unexpectedToken what t.kind.text t.span)
  | onlyName {t : Token} (hall : all = [t]) (hkind : t.kind = .identifier) :
      Explained size all rest (.unexpectedEnd "':'" (.atEnd size))
  | faulty {t : Token} (ht : t ∈ all) (hkind : t.kind.IsFaulty) :
      Explained size all rest (Body.faultOf t)
  | tooDeep {t : Token} (ht : t ∈ all) (hkind : t.kind = .openParen ∨ t.kind = .plus) :
      Explained size all rest (.tooDeep maxNesting t.span)
  | betweenBars {before after : List Token} {bar bar' : Token}
      (hall : all = before ++ bar :: bar' :: after) (hbar : bar.kind = .bar)
      (hbar' : bar'.kind = .bar) :
      Explained size all rest (.emptyAlternative (bar.span.merge bar'.span))
  | aroundBar {bar : Token} (hmem : bar ∈ all) (hbar : bar.kind = .bar) :
      Explained size all rest (.emptyAlternative bar.span)
  | unclosed {before after : List Token} {opening : Token}
      (hall : all = before ++ opening :: after) (hopening : opening.kind = .openParen)
      (hafter : Balanced after) (hrest : rest = []) :
      Explained size all rest (.unclosedDelimiter '(' opening.span)

/-! ## Alternations -/

namespace Alternation

variable {a : Alternation} {ts : List Token}

/-- Branches and the bars behind them close all groups that they open. -/
theorem ClosedFrom.balanced {closed : List (Option Node × Span)} (h : ClosedFrom closed ts) :
    Balanced ts := by
  induction h with
  | nil => exact Token.balanced_nil
  | @cons branch bar front ts closed hbalanced hempty hbar h ih =>
    have hsingle : Balanced [bar] := Token.balanced_singleton (by simp [hbar]) (by simp [hbar])
    exact hbalanced.append (hsingle.append ih)

/-- One more branch with its bar. -/
theorem ClosedFrom.snoc {closed : List (Option Node × Span)} {branch : Option Node}
    {front : List Token} {bar : Token} (h : ClosedFrom closed ts) (hbalanced : Balanced front)
    (hempty : branch = none → front = []) (hbar : bar.kind = .bar) :
    ClosedFrom (closed ++ [(branch, bar.span)]) (ts ++ (front ++ [bar])) := by
  induction h with
  | nil => exact .cons hbalanced hempty hbar .nil
  | cons hbalanced' hempty' hbar' h ih =>
    have hcons := ClosedFrom.cons hbalanced' hempty' hbar' ih
    simpa using hcons

/-- All that has been read of an alternation closes the groups that it opens. -/
theorem ReadFrom.balanced (h : a.ReadFrom ts) : Balanced ts := by
  rcases h with ⟨front, last, rfl, hclosed, hlast, -⟩
  exact hclosed.balanced.append hlast

theorem readFrom_empty : empty.ReadFrom [] :=
  ⟨[], [], rfl, .nil, Token.balanced_nil, fun _ => rfl⟩

/-- More balanced tokens for the last branch. -/
theorem ReadFrom.extend {us : List Token} {node : Node} {nodes : List Node} (h : a.ReadFrom ts)
    (hus : Balanced us) : ReadFrom { a with elements := node :: nodes } (ts ++ us) := by
  rcases h with ⟨front, last, rfl, hclosed, hlast, -⟩
  refine ⟨front, last ++ us, by simp, hclosed, hlast.append hus, ?_⟩
  intro hnil
  cases hnil

/-- A branch is empty exactly if it has no elements. -/
theorem branchOf_eq_none_iff (nodes : List Node) : branchOf nodes = none ↔ nodes = [] := by
  match nodes with
  | [] => simp [branchOf]
  | [node] => simp [branchOf]
  | first :: second :: nodes => simp [branchOf]

/-- A bar closes the last branch. -/
theorem ReadFrom.bar {t : Token} (h : a.ReadFrom ts) (ht : t.kind = .bar) :
    (a.bar t.span).ReadFrom (ts ++ [t]) := by
  rcases h with ⟨front, last, rfl, hclosed, hlast, hempty⟩
  refine ⟨front ++ (last ++ [t]), [], by simp, ?_, Token.balanced_nil, fun _ => rfl⟩
  rw [Alternation.bar, List.reverse_cons]
  refine hclosed.snoc hlast ?_ ht
  intro hnone
  apply hempty
  simpa [branch, branchOf_eq_none_iff] using hnone

/-- Two neighbouring bars, if a branch between bars is empty. -/
theorem ClosedFrom.exists_of_emptyInner? {closed : List (Option Node × Span)} {span : Span}
    (h : ClosedFrom closed ts) (hinner : emptyInner? closed = some span) :
    ∃ before bar bar' after, ts = before ++ bar :: bar' :: after ∧ bar.kind = .bar ∧
      bar'.kind = .bar ∧ span = bar.span.merge bar'.span := by
  induction h with
  | nil => cases hinner
  | @cons branch bar front ts closed hbalanced hempty hbar h ih =>
    cases h with
    | nil => simp [emptyInner?] at hinner
    | @cons branch' bar' front' ts closed hbalanced' hempty' hbar' h =>
      cases branch' with
      | none =>
        obtain rfl : bar.span.merge bar'.span = span := by simpa [emptyInner?] using hinner
        refine ⟨front, bar, bar', ts, ?_, hbar, hbar', rfl⟩
        rw [hempty' rfl, List.nil_append]
      | some node =>
        rcases ih (by simpa [emptyInner?] using hinner) with
          ⟨before, first, second, after, hts, hbars⟩
        refine ⟨front ++ bar :: before, first, second, after, ?_, hbars⟩
        rw [hts]
        simp

/-- The fault of an alternation is explained by its bars. -/
theorem ReadFrom.explained {e : Rule.Error} (h : a.ReadFrom ts) (htree : a.tree = .error e)
    (size : Nat) (before after rest : List Token) :
    Explained size (before ++ (ts ++ after)) rest e := by
  rcases h with ⟨front, last, rfl, hclosed, -, -⟩
  rcases exists_of_tree_eq_error htree with ⟨span, rfl, hinner | ⟨first, behind, hfirst⟩⟩
  · rcases hclosed.exists_of_emptyInner? hinner with ⟨us, bar, bar', vs, rfl, hbar, hbar', rfl⟩
    have hall : before ++ ((us ++ bar :: bar' :: vs) ++ last ++ after) =
        (before ++ us) ++ bar :: bar' :: (vs ++ (last ++ after)) := by simp
    exact .betweenBars hall hbar hbar'
  · rw [hfirst] at hclosed
    cases hclosed with
    | @cons branch bar us ts closed hbalanced hempty hbar h =>
      refine .aroundBar ?_ hbar
      simp

end Alternation

/-! ## Steps -/

/-- The bracket of an open group is that of a token. -/
theorem OpenGroup.AllFrom.exists_bracket {group : OpenGroup} {groups : List OpenGroup}
    {ts : List Token} (h : AllFrom (group :: groups) ts) :
    ∃ before opening, ts = before ++ [opening] ∧ opening.kind = .openParen ∧
      opening.span = group.bracket := by
  cases h with
  | @cons _ around opening before ts h haround hopening =>
    exact ⟨before ++ ts, opening, rfl, hopening, rfl⟩

namespace Reading

variable {r : Reading} {read : List Token} {t : Token} {size : Nat}

/-- Every move inside of a body keeps the invariant. -/
theorem Move.readFrom {name : String} {b : Body} (hmove : Move name b t r)
    (h : b.ReadFrom read) (heading : List Token) : r.ReadFrom (heading ++ (read ++ [t])) := by
  rcases h with ⟨before, inner, rfl, hgroups, hinner⟩
  have hplain (hopen : t.kind ≠ .openParen) (hclose : t.kind ≠ .closeParen) : Balanced [t] :=
    Token.balanced_singleton hopen hclose
  cases hmove with
  | name hkind | terminal hkind | remark hkind =>
    have hsingle := hplain (by simp [hkind]) (by simp [hkind])
    refine .body name heading ⟨before, inner ++ [t], by simp, hgroups, hinner.extend hsingle⟩
  | plus hkind helements hnesting =>
    have hsingle := hplain (by simp [hkind]) (by simp [hkind])
    refine .body name heading ⟨before, inner ++ [t], by simp, hgroups, hinner.extend hsingle⟩
  | bar hkind =>
    exact .body name heading ⟨before, inner ++ [t], by simp, hgroups, hinner.bar hkind⟩
  | openParen hkind hdepth =>
    refine .body name heading ⟨before ++ inner ++ [t], [], by simp, ?_, ?_⟩
    · exact .cons hgroups hinner hkind
    · exact Alternation.readFrom_empty
  | closeParen hkind hnext htree hgroup =>
    rw [hnext] at hgroups
    cases hgroups with
    | @cons groups around opening outside ts hgroups haround hopening =>
      have hbracketed := hinner.balanced.group hopening hkind
      refine .body name heading ⟨outside, ts ++ (opening :: (inner ++ [t])), by simp, hgroups, ?_⟩
      exact haround.extend hbracketed
  | semicolon hkind hnext htree => exact .closed name _ _

/-- Every step keeps the invariant. -/
theorem ReadFrom.step {r' : Reading} (h : r.ReadFrom read) (hstep : r.step t = .ok r') :
    r'.ReadFrom (read ++ [t]) := by
  cases h with
  | start =>
    rw [Reading.step] at hstep
    by_cases hkind : t.kind = .identifier
    · rw [if_pos hkind] at hstep
      cases hstep
      exact .named t.text hkind
    · rw [if_neg hkind] at hstep
      cases hstep
  | @named first name hfirst =>
    rw [Reading.step] at hstep
    by_cases hkind : t.kind = .colon
    · rw [if_pos hkind] at hstep
      cases hstep
      exact .body name [first, t] ⟨[], [], rfl, .nil, Alternation.readFrom_empty⟩
    · rw [if_neg hkind] at hstep
      cases hstep
  | @body b ts name heading hbody =>
    rw [List.append_assoc]
    exact (move_of_step_eq_ok hstep).readFrom hbody heading
  | closed name root ts => cases hstep

/-- The fault of a token that is refused inside of a body is explained. -/
theorem explained_of_refuses {b : Body} {refusal : Refusal} (h : b.ReadFrom read)
    (hrefuses : b.Refuses t refusal) (heading after rest : List Token) :
    Explained size (heading ++ (read ++ t :: after)) rest refusal.error := by
  have ht : t ∈ heading ++ (read ++ t :: after) := by simp
  rcases h with ⟨before, inner, rfl, hgroups, hinner⟩
  cases hrefuses with
  | emptyBranch hkind htree =>
    have hexplained := hinner.explained htree size (heading ++ before) (t :: after) rest
    simpa using hexplained
  | notOpened hkind hnext => exact .unexpected _ ht
  | notClosed hkind hnext => exact .unexpected _ ht
  | deepGroup hkind hnext htree hnesting =>
    rw [hnext] at hgroups
    rcases hgroups.exists_bracket with ⟨outside, opening, rfl, hopening, hspan⟩
    rw [← hspan]
    exact .tooDeep (by simp) (.inl hopening)
  | deepOpening hkind hdepth => exact .tooDeep ht (.inl hkind)
  | deepLoop hkind helements hnesting => exact .tooDeep ht (.inr hkind)
  | noElement hkind helements => exact .unexpected _ ht
  | colon hkind => exact .unexpected _ ht
  | faulty hkind => exact .faulty ht hkind

/-- The fault of a token that is refused is explained. -/
theorem ReadFrom.explained_of_step_eq_error {refusal : Refusal} (h : r.ReadFrom read)
    (hstep : r.step t = .error refusal) (after rest : List Token) :
    Explained size (read ++ t :: after) rest refusal.error := by
  have ht : t ∈ read ++ t :: after := by simp
  cases h with
  | start =>
    rw [Reading.step] at hstep
    split at hstep
    · cases hstep
    · cases hstep
      exact .unexpected _ ht
  | named name hfirst =>
    rw [Reading.step] at hstep
    split at hstep
    · cases hstep
    · cases hstep
      exact .unexpected _ ht
  | @body b ts name heading hbody =>
    rw [List.append_assoc]
    exact explained_of_refuses hbody (Body.refuses_of_step_eq_error hstep) heading after rest
  | closed name root ts =>
    cases hstep
    exact .unexpected _ ht

/-- The fault of a text that ends too early is explained. -/
theorem ReadFrom.explained_of_finish_eq_error {e : Rule.Error} (h : r.ReadFrom read)
    (hfinish : r.finish size = .error e) : Explained size read [] e := by
  cases h with
  | start => cases hfinish
  | named name hkind =>
    cases hfinish
    exact .onlyName rfl hkind
  | @body b ts name heading hbody =>
    rcases hbody with ⟨before, inner, rfl, hgroups, hinner⟩
    rw [finish] at hfinish
    cases htree : b.current.tree with
    | error e' =>
      rw [htree] at hfinish
      cases hfinish
      have hexplained := hinner.explained htree size (heading ++ before) [] []
      simpa using hexplained
    | ok root =>
      rw [htree, ok_bind] at hfinish
      cases hnext : b.groups with
      | nil =>
        rw [hnext] at hfinish
        cases hfinish
      | cons group groups =>
        rw [hnext] at hfinish hgroups
        cases hfinish
        rcases hgroups.exists_bracket with ⟨outside, opening, rfl, hopening, hspan⟩
        have hall : heading ++ (outside ++ [opening] ++ inner) =
            (heading ++ outside) ++ opening :: inner := by simp
        rw [← hspan]
        exact .unclosed hall hopening hinner.balanced rfl
  | closed name root ts => cases hfinish

/-- The fault of a run is explained by the tokens that were read before it and those of the
run. -/
theorem ReadFrom.explained {e : Rule.Error} {ts : List Token} (h : r.ReadFrom read)
    (hrun : (r.run size ts).1 = .error e) :
    Explained size (read ++ ts) (r.run size ts).2 e := by
  induction ts generalizing r read with
  | nil =>
    rw [List.append_nil]
    exact h.explained_of_finish_eq_error hrun
  | cons t ts ih =>
    cases hstep : r.step t with
    | ok r' =>
      simp only [run, hstep] at hrun ⊢
      rw [List.append_cons]
      exact ih (h.step hstep) hrun
    | error refusal =>
      simp only [run, hstep] at hrun ⊢
      cases hrun
      exact h.explained_of_step_eq_error hstep ts _

end Reading

end Railroad
