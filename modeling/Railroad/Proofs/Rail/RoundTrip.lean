import Railroad.Proofs.Grammar.Recognition
import Railroad.Proofs.Rail.Derivations

/-!
# Rail text is read back

The rules that sources have are exactly those in normal form, and the rail text of
such a rule is a source of the same rule.  It has the tokens of the source that the
rule was read from, but for the semicolon and the blanks around remarks.

Main definitions:

- Definition {lit}`Token.withoutSemicolon`: some tokens without a semicolon at their end.

Main results:

- Theorem {lit}`Rule.parse_rail`: reading the rail text of a rule that was read yields
  the rule again.
- Theorem {lit}`Rule.map_symbol_rail`: no token gets lost between a source and the rail
  text of its rule.
- Theorem {lit}`Rule.exists_parse_iff_normal`: the rules of sources are those in normal
  form.
-/

namespace Railroad

/-! ## Semicolons -/

/-- Some tokens without the semicolon at their end, if there is one. -/
def Token.withoutSemicolon (ts : List Token) : List Token :=
  if ts.getLast?.any (fun t => t.kind = .semicolon) then ts.dropLast else ts

namespace Grammar

mutual

/-- No token of an element is a semicolon. -/
theorem Element.kind_ne_semicolon (e : Element) : ∀ t ∈ e.tokens, t.kind ≠ .semicolon := by
  match e with
  | .name t => simp [Element.tokens, t.property]
  | .terminal t => simp [Element.tokens, t.property]
  | .remark t => simp [Element.tokens, t.property]
  | .group opening inner closing =>
    rw [Element.tokens, List.forall_mem_cons, List.forall_mem_append, List.forall_mem_singleton]
    refine ⟨?_, Alternatives.kind_ne_semicolon inner, ?_⟩
    · simp [opening.property]
    · simp [closing.property]
  | .loop element plus =>
    rw [Element.tokens, List.forall_mem_append, List.forall_mem_singleton]
    refine ⟨Element.kind_ne_semicolon element, ?_⟩
    simp [plus.property]

theorem Branch.kind_ne_semicolon (b : Branch) : ∀ t ∈ b.tokens, t.kind ≠ .semicolon := by
  match b with
  | .empty => simp [Branch.tokens]
  | .snoc front element =>
    rw [Branch.tokens, List.forall_mem_append]
    exact ⟨Branch.kind_ne_semicolon front, Element.kind_ne_semicolon element⟩

theorem Alternatives.kind_ne_semicolon (a : Alternatives) :
    ∀ t ∈ a.tokens, t.kind ≠ .semicolon := by
  match a with
  | .single branch => exact Branch.kind_ne_semicolon branch
  | .snoc front bar branch =>
    rw [Alternatives.tokens, List.forall_mem_append, List.forall_mem_cons]
    refine ⟨Alternatives.kind_ne_semicolon front, ?_, Branch.kind_ne_semicolon branch⟩
    simp [bar.property]

end

/-- Only the optional semicolon of a derivation is one. -/
theorem Sentence.withoutSemicolon_tokens (d : Sentence) :
    Token.withoutSemicolon d.tokens = d.name.val :: d.colon.val :: d.body.tokens := by
  rcases d with ⟨name, colon, body, semicolon⟩
  cases semicolon with
  | some semicolon =>
    have htokens : Sentence.tokens ⟨name, colon, body, some semicolon⟩ =
        (name.val :: colon.val :: body.tokens) ++ [semicolon.val] := rfl
    rw [htokens, Token.withoutSemicolon, List.getLast?_concat, List.dropLast_concat]
    simp [semicolon.property]
  | none =>
    have htokens : Sentence.tokens ⟨name, colon, body, none⟩ =
        name.val :: colon.val :: body.tokens := by
      simp [Sentence.tokens]
    have hkind : ∀ t ∈ name.val :: colon.val :: body.tokens, t.kind ≠ .semicolon := by
      rw [List.forall_mem_cons, List.forall_mem_cons]
      refine ⟨?_, ?_, body.kind_ne_semicolon⟩
      · simp [name.property]
      · simp [colon.property]
    rw [htokens, Token.withoutSemicolon, if_neg]
    intro hany
    rw [Option.any_eq_true] at hany
    rcases hany with ⟨t, hlast, ht⟩
    exact hkind t (List.mem_of_getLast? hlast) (of_decide_eq_true ht)

end Grammar

namespace Rule

open Grammar

/-! ## Rules that are read -/

/-- A rule that is read is in normal form. -/
theorem normal_of_parse_eq {source : String} {rule : Rule}
    (h : parse source = .ok (some rule)) : rule.Normal := by
  rcases exists_sentence_of_parse_eq h with ⟨d, htokens, hfilled, rfl, hshallow⟩
  refine d.normal_rule ?_ hfilled hshallow
  rw [htokens]
  intro t ht
  exact Token.spelled_of_mem_ofText ht

/-- The rail text of a rule in normal form is a source of the rule. -/
theorem parse_rail_of_normal {rule : Rule} (h : rule.Normal) :
    parse rule.rail.text = .ok (some rule) := by
  rcases Sentence.exists_of_normal h h.symbols_rail with ⟨d, htokens, hfilled, rfl⟩
  exact parse_eq_of_tokens_eq d htokens hfilled h.shallow

/-- Reading the rail text of a rule that was read yields the same rule. -/
theorem parse_rail {source : String} {rule : Rule} (h : parse source = .ok (some rule)) :
    parse rule.rail.text = .ok (some rule) := by
  apply parse_rail_of_normal
  exact normal_of_parse_eq h

/-- A choice that is optional on both sides, with a terminal that holds a semicolon, a
remark over two lines that looks like a comment, two loops around a group that is
optional itself, and an empty group. -/
def optionalChoice : Rule :=
  ⟨"r", ⟨.choiceLeft, "", [⟨.choiceRight, "", [⟨.choice, "", [
    ⟨.sequence, "", [.nonTerminal "a", .terminal "'x;'", .remark "n\n// \"q\""]⟩,
    ⟨.sequence, "", [
      ⟨.loop, "", [⟨.loop, "", [⟨.group, "", [⟨.choiceRight, "", [.nonTerminal "b"]⟩]⟩]⟩]⟩,
      ⟨.group, "", []⟩]⟩]⟩]⟩]⟩⟩

/-- The rail text of that rule is read as the rule again. -/
theorem parse_rail_optional_choice :
    parse "r : | a 'x;' [ n\n// \"q\" ] | (b | )++ () | ;" = .ok (some optionalChoice) ∧
      parse optionalChoice.rail.text = .ok (some optionalChoice) := by
  have h : parse "r : | a 'x;' [ n\n// \"q\" ] | (b | )++ () | ;" = .ok (some optionalChoice) := by
    decide +kernel
  exact ⟨h, parse_rail h⟩

/-- The rail text of a rule has the tokens of the source that the rule was read from,
apart from the semicolon at the end and the blanks around the texts of remarks. -/
theorem map_symbol_rail {source : String} {rule : Rule} (h : parse source = .ok (some rule)) :
    (Token.ofSource rule.rail.text).map Token.symbol =
      (Token.withoutSemicolon (Token.ofSource source)).map Token.trimmedSymbol := by
  have hrail := (normal_of_parse_eq h).symbols_rail
  rcases exists_sentence_of_parse_eq h with ⟨d, htokens, hfilled, rfl, -⟩
  have hspelled : ∀ t ∈ d.tokens, t.Spelled := by
    rw [htokens]
    intro t ht
    exact Token.spelled_of_mem_ofText ht
  rw [← htokens, d.withoutSemicolon_tokens, d.map_trimmedSymbol_tokens hspelled hfilled]
  exact hrail

/-- A remark in front of a loop around a group, all of it optional. -/
def remarkedLoop : Rule :=
  ⟨"r", ⟨.choiceRight, "", [⟨.sequence, "", [.remark "to do",
    ⟨.loop, "", [⟨.group, "", [⟨.choice, "", [.nonTerminal "a", .terminal "'b'"]⟩]⟩]⟩]⟩]⟩⟩

/-- The source of that rule has blanks around the text of the remark, and a semicolon. -/
theorem map_symbol_rail_remark :
    parse "r : [ to do ] (a | 'b')+ | ;" = .ok (some remarkedLoop) ∧
      (Token.ofSource remarkedLoop.rail.text).map Token.symbol =
        [(.identifier, "r"), (.colon, ":"), (.remark, "[to do]"), (.openParen, "("),
          (.identifier, "a"), (.bar, "|"), (.terminal, "'b'"), (.closeParen, ")"),
          (.plus, "+"), (.bar, "|")] := by
  have h : parse "r : [ to do ] (a | 'b')+ | ;" = .ok (some remarkedLoop) := by
    decide +kernel
  refine ⟨h, ?_⟩
  rw [map_symbol_rail h]
  decide +kernel

/-- The rules of sources are exactly those in normal form. -/
theorem exists_parse_iff_normal (rule : Rule) :
    (∃ source, parse source = .ok (some rule)) ↔ rule.Normal := by
  constructor
  · rintro ⟨source, h⟩
    exact normal_of_parse_eq h
  · intro h
    exact ⟨rule.rail.text, parse_rail_of_normal h⟩

end Rule

end Railroad
