import Railroad.Proofs.Grammar.Simulation
import Railroad.Rule.Parser

/-!
# The rules that are read are those of the grammar

While a rule is read, the tokens so far are the beginning of a derivation: some
alternations that are interrupted by an opening parenthesis, and the alternation
inside of the innermost one.  Every step keeps this invariant, so what is read to
the end is derived by the grammar.  The simulation of derivations gives the other
direction and the tree.

Main definitions:

- Definition {lit}`Grammar.Begun`: the tokens that have been read, as the beginning of
  a derivation.

Main results:

- Theorem {lit}`Grammar.Begun.step`: every step keeps the invariant.
- Theorem {lit}`Grammar.Begun.exists_sentence`: what is read to the end is derived.
- Theorem {lit}`Rule.parse_iff_derived`: the rules that are read are exactly those that
  the grammar derives, filled and within the limit on the nesting.
-/

namespace Railroad

namespace Grammar

open Reading

/-! ## Unfinished alternations -/

/-- An alternation with one more element at its end. -/
def Alternatives.push : Alternatives → Element → Alternatives
  | .single branch, element => .single (branch.snoc element)
  | .snoc front bar branch, element => .snoc front bar (branch.snoc element)

@[simp] theorem Alternatives.tokens_push (a : Alternatives) (e : Element) :
    (a.push e).tokens = a.tokens ++ e.tokens := by
  cases a <;> simp [Alternatives.push, Alternatives.tokens, Branch.tokens]

/-- The tokens in front of the innermost open group, with its bracket: each open group
interrupts an alternation. -/
inductive Opened : Nat → List Token → Prop where
  | nil : Opened 0 []
  | cons {depth : Nat} {ts : List Token} (h : Opened depth ts) (around : Alternatives)
      (opening : Token.OfKind .openParen) :
      Opened (depth + 1) (ts ++ around.tokens ++ [opening.val])

/-- The tokens of a body that has been read: those in front of the innermost group
and an alternation, which ends with an element if the body can repeat one. -/
def BegunBody (b : Body) (ts : List Token) : Prop :=
  ∃ before a, Opened b.groups.length before ∧ ts = before ++ Alternatives.tokens a ∧
    (b.current.elements ≠ [] → ∃ front e, a = Alternatives.push front e)

/-- The tokens that have been read are the beginning of a derivation. -/
inductive Begun : Reading → List Token → Prop where
  | start : Begun .start []
  | named (name : Token.OfKind .identifier) : Begun (.named name.val.text) [name.val]
  | body {b : Body} {ts : List Token} (name : Token.OfKind .identifier)
      (colon : Token.OfKind .colon) (h : BegunBody b ts) :
      Begun (.body name.val.text b) (name.val :: colon.val :: ts)
  | closed (d : Sentence) (root : Node) : Begun (.closed d.name.val.text root) d.tokens

theorem Opened.eq_nil {ts : List Token} (h : Opened 0 ts) : ts = [] := by
  cases h
  rfl

/-- An element at the end of what has been read may end the innermost alternation. -/
theorem BegunBody.of_push {b : Body} {before ts : List Token} (a : Alternatives) (e : Element)
    (hopened : Opened b.groups.length before) (hts : ts = before ++ (a.tokens ++ e.tokens)) :
    BegunBody b ts := by
  refine ⟨before, a.push e, hopened, ?_, fun _ => ⟨a, e, rfl⟩⟩
  rw [hts, Alternatives.tokens_push]

/-- Every move from inside of a body keeps the invariant. -/
theorem BegunBody.move {b : Body} {ts : List Token} {t : Token} {r : Reading}
    (name : Token.OfKind .identifier) (colon : Token.OfKind .colon) (h : BegunBody b ts)
    (hmove : Move name.val.text b t r) : Begun r (name.val :: colon.val :: (ts ++ [t])) := by
  rcases h with ⟨before, a, hopened, rfl, helements⟩
  cases hmove with
  | name hkind =>
    refine .body name colon (BegunBody.of_push a (.name ⟨t, hkind⟩) hopened ?_)
    rw [List.append_assoc, Element.tokens]
  | terminal hkind =>
    refine .body name colon (BegunBody.of_push a (.terminal ⟨t, hkind⟩) hopened ?_)
    rw [List.append_assoc, Element.tokens]
  | remark hkind =>
    refine .body name colon (BegunBody.of_push a (.remark ⟨t, hkind⟩) hopened ?_)
    rw [List.append_assoc, Element.tokens]
  | bar hkind =>
    refine .body name colon ⟨before, a.snoc ⟨t, hkind⟩ .empty, hopened, ?_, ?_⟩
    · rw [List.append_assoc, Alternatives.tokens, Branch.tokens]
    · intro hne
      exact absurd rfl hne
  | openParen hkind hdepth =>
    have hcons := hopened.cons a ⟨t, hkind⟩
    refine .body name colon ⟨_, .single .empty, hcons, ?_, ?_⟩
    · rw [Alternatives.tokens, Branch.tokens, List.append_nil]
    · intro hne
      exact absurd rfl hne
  | plus hkind hnodes hnesting =>
    have hne : b.current.elements ≠ [] := by
      rw [hnodes]
      exact List.cons_ne_nil _ _
    rcases helements hne with ⟨front, e, rfl⟩
    refine .body name colon (BegunBody.of_push front (.loop e ⟨t, hkind⟩) hopened ?_)
    rw [Alternatives.tokens_push, Element.tokens, List.append_assoc, List.append_assoc]
  | closeParen hkind hgroups htree hgroup =>
    rw [hgroups] at hopened
    -- The innermost alternation becomes an element of the one that waits around it.
    cases hopened with
    | cons hbefore around opening =>
      refine .body name colon
        (BegunBody.of_push around (.group opening a ⟨t, hkind⟩) hbefore ?_)
      simp [Element.tokens]
  | semicolon hkind hgroups htree =>
    rw [hgroups] at hopened
    cases hopened.eq_nil
    rw [List.nil_append]
    exact .closed ⟨name, colon, a, some ⟨t, hkind⟩⟩ _

/-- Every step keeps the invariant. -/
theorem Begun.step {r r' : Reading} {ts : List Token} {t : Token} (h : Begun r ts)
    (hstep : r.step t = .ok r') : Begun r' (ts ++ [t]) := by
  cases h with
  | start =>
    rw [Reading.step] at hstep
    by_cases hkind : t.kind = .identifier
    · rw [if_pos hkind] at hstep
      cases hstep
      exact .named ⟨t, hkind⟩
    · rw [if_neg hkind] at hstep
      cases hstep
  | named name =>
    rw [Reading.step] at hstep
    by_cases hkind : t.kind = .colon
    · rw [if_pos hkind] at hstep
      cases hstep
      refine .body name ⟨t, hkind⟩ ⟨[], .single .empty, .nil, rfl, ?_⟩
      intro hne
      exact absurd rfl hne
    · rw [if_neg hkind] at hstep
      cases hstep
  | body name colon hbody => exact hbody.move name colon (move_of_step_eq_ok hstep)
  | closed d root => cases hstep

/-- What has been read to the end is nothing at all, or all of a derivation. -/
theorem Begun.exists_sentence_of_finish {r : Reading} {ts : List Token} {size : Nat}
    {result : Option Rule} (h : Begun r ts) (hfinish : r.finish size = .ok result) :
    (result = none ∧ ts = []) ∨ (result ≠ none ∧ ∃ d : Sentence, d.tokens = ts) := by
  cases h with
  | start =>
    cases hfinish
    exact .inl ⟨rfl, rfl⟩
  | named name => cases hfinish
  | @body b ts name colon hbody =>
    rcases hbody with ⟨before, a, hopened, rfl, -⟩
    rw [Reading.finish, bind_eq_ok_iff] at hfinish
    rcases hfinish with ⟨root, -, hfinish⟩
    cases hgroups : b.groups with
    | nil =>
      rw [hgroups] at hfinish hopened
      cases hopened.eq_nil
      cases hfinish
      refine .inr ⟨Option.some_ne_none _, ⟨name, colon, a, none⟩, ?_⟩
      simp [Sentence.tokens]
    | cons group groups =>
      rw [hgroups] at hfinish
      cases hfinish
  | closed d root =>
    cases hfinish
    exact .inr ⟨Option.some_ne_none _, d, rfl⟩

/-- A run that ends without a fault has read nothing at all, or all of a derivation. -/
theorem Begun.exists_sentence {r : Reading} {ts us : List Token} {size : Nat}
    {result : Option Rule} (h : Begun r ts) (houtcome : r.outcome size us = .ok result) :
    (result = none ∧ ts ++ us = []) ∨ (result ≠ none ∧ ∃ d : Sentence, d.tokens = ts ++ us) := by
  induction us generalizing r ts with
  | nil =>
    rw [List.append_nil]
    exact h.exists_sentence_of_finish houtcome
  | cons u us ih =>
    cases hstep : r.step u with
    | error refusal =>
      rw [outcome_of_step_eq_error hstep] at houtcome
      cases houtcome
    | ok r' =>
      rw [outcome_of_step_eq_ok hstep] at houtcome
      rw [List.append_cons]
      exact ih (h.step hstep) houtcome

end Grammar

/-! ## Parsing -/

namespace Rule

open Grammar

/-- A source is read from its tokens, and of its text only the length matters besides. -/
theorem parse_eq_outcome (source : String) :
    parse source =
      Reading.start.outcome (Text.byteLength source.toList) (Token.ofSource source) := rfl

/-- A source whose tokens are derived without forbidden empty branches has the rule
of the derivation, if that does not nest too deeply. -/
theorem parse_eq_of_tokens_eq {source : String} (d : Sentence)
    (htokens : d.tokens = Token.ofSource source) (hfilled : d.Filled)
    (hshallow : d.rule.root.Shallow) : parse source = .ok (some d.rule) := by
  have heval : d.eval = .ok d.rule :=
    (d.eval_eq_ok_iff d.rule).mpr ⟨hfilled, rfl, (Node.shallow_iff _).mp hshallow⟩
  rw [parse_eq_outcome, ← htokens, Sentence.outcome_tokens, heval]
  rfl

/-- The tokens of a source that has a rule are derived. -/
theorem exists_sentence_of_parse_eq {source : String} {rule : Rule}
    (h : parse source = .ok (some rule)) :
    ∃ d : Sentence, d.tokens = Token.ofSource source ∧ d.Filled ∧ d.rule = rule ∧
      rule.root.Shallow := by
  rw [parse_eq_outcome] at h
  rcases Begun.start.exists_sentence h with ⟨hnone, -⟩ | ⟨-, d, htokens⟩
  · cases hnone
  · rw [List.nil_append] at htokens
    rw [← htokens, Sentence.outcome_tokens] at h
    cases heval : d.eval with
    | error e =>
      rw [heval] at h
      cases h
    | ok rule' =>
      rw [heval] at h
      cases h
      rcases (d.eval_eq_ok_iff rule).mp heval with ⟨hfilled, rfl, hnesting⟩
      exact ⟨d, htokens, hfilled, rfl, (Node.shallow_iff _).mpr hnesting⟩

/-- A source has no rule exactly if it has no tokens. -/
theorem parse_eq_none_iff (source : String) :
    parse source = .ok none ↔ Token.ofSource source = [] := by
  constructor
  · intro h
    rw [parse_eq_outcome] at h
    rcases Begun.start.exists_sentence h with ⟨-, htokens⟩ | ⟨hne, -⟩
    · rwa [List.nil_append] at htokens
    · exact absurd rfl hne
  · intro htokens
    rw [parse_eq_outcome, htokens]
    rfl

/-- A source has no rule exactly if it has no tokens, and it has a rule exactly if
its tokens have a derivation that stands for the rule, without forbidden empty
branches, where no path of the tree carries too many groups and loops. -/
theorem parse_iff_derived (source : String) :
    (parse source = .ok none ↔ Token.ofSource source = []) ∧
      ∀ rule, parse source = .ok (some rule) ↔
        ∃ d : Sentence, d.tokens = Token.ofSource source ∧ d.Filled ∧ d.rule = rule ∧
          rule.root.Shallow := by
  refine ⟨parse_eq_none_iff source, ?_⟩
  intro rule
  constructor
  · exact exists_sentence_of_parse_eq
  · rintro ⟨d, htokens, hfilled, rfl, hshallow⟩
    exact parse_eq_of_tokens_eq d htokens hfilled hshallow

end Rule

end Railroad
