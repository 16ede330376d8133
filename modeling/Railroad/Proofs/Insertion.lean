import Railroad.Proofs.Relocation
import Railroad.Proofs.Token.Inserting
import Railroad.Rule.Parser

/-!
# Rules with more blanks and comments

A source that holds a rule may be laid out in any way: blanks and comments between its tokens
change neither the rule nor that it is one.

Main results:

- Theorem {lit}`Reading.not_isFaulty_of_run_eq_ok`: a rule has no faulty tokens.
- Theorem {lit}`Rule.parse_insert`: the rule stays the same when blanks and comments are put
  between its tokens.
-/

namespace Railroad

/-- A faulty token is refused wherever it stands. -/
theorem Reading.not_isFaulty_of_step_eq_ok {r r' : Reading} {t : Token} (h : r.step t = .ok r') :
    ¬t.kind.IsFaulty := by
  intro hfaulty
  cases r with
  | start =>
    rw [step] at h
    split at h
    · next hkind =>
      rw [hkind] at hfaulty
      exact hfaulty
    · cases h
  | named name =>
    rw [step] at h
    split at h
    · next hkind =>
      rw [hkind] at hfaulty
      exact hfaulty
    · cases h
  | body name b =>
    cases move_of_step_eq_ok h with
    | name hkind | terminal hkind | remark hkind | bar hkind | openParen hkind | plus hkind
    | closeParen hkind | semicolon hkind =>
      rw [hkind] at hfaulty
      exact hfaulty
  | closed name root => cases h

/-- A run without a fault meets no faulty token. -/
theorem Reading.not_isFaulty_of_run_eq_ok {size : Nat} {r : Reading} {ts : List Token}
    {found : Option Rule} (h : (r.run size ts).1 = .ok found) : ∀ t ∈ ts, ¬t.kind.IsFaulty := by
  induction ts generalizing r with
  | nil => simp
  | cons t ts ih =>
    cases hstep : r.step t with
    | ok r' =>
      rw [run_of_step_eq_ok hstep] at h
      rw [List.forall_mem_cons]
      exact ⟨not_isFaulty_of_step_eq_ok hstep, ih h⟩
    | error refusal =>
      rw [run_of_step_eq_error hstep] at h
      cases h

namespace Rule

/-- Blanks and comments that are inserted at the beginning or the end of the text of a rule,
or where a token starts or stops, change nothing about the rule. -/
theorem parse_insert {source : String} {rule : Rule} {k : Nat} {w : List Char}
    (h : parse source = .ok (some rule)) (hk : Token.IsEdge source k) (hw : Filler w) :
    ∃ text, Text.insertAt? k w source.toList = some text ∧
      parse (String.ofList text) = .ok (some rule) := by
  have hsound := Reading.not_isFaulty_of_run_eq_ok h
  obtain ⟨text, htext, hsymbols⟩ := Token.exists_insertAt?_eq hsound hk hw
  refine ⟨text, htext, Reading.run_eq_ok_of_map_symbol_eq ?_ h⟩
  have htokens : (Token.ofSource (String.ofList text)).map Token.symbol = Token.symbols text := by
    rw [Token.ofSource, String.toList_ofList, Token.symbols]
  exact (htokens.trans hsymbols).symm

/-- A comment that holds a quote, inside of a comment that nothing ends. -/
theorem parse_insert_comment :
    Text.insertAt? 9 " // it's\n".toList "a: b // c".toList =
        some "a: b // c // it's\n".toList ∧
      parse "a: b // c" = .ok (some ⟨"a", .nonTerminal "b"⟩) ∧
      parse "a: b // c // it's\n" = .ok (some ⟨"a", .nonTerminal "b"⟩) := by
  have hfiller : Filler " // it's\n".toList :=
    .blank rfl (@Filler.comment " it's".toList [] (by decide) .nil)
  have hrule : parse "a: b // c" = .ok (some ⟨"a", .nonTerminal "b"⟩) := by decide +kernel
  have hedge : Token.IsEdge "a: b // c" 9 := .inr (.inl (by decide))
  have hinsert : Text.insertAt? 9 " // it's\n".toList "a: b // c".toList =
      some "a: b // c // it's\n".toList := by decide
  obtain ⟨text, htext, hparse⟩ := parse_insert hrule hedge hfiller
  rw [hinsert] at htext
  obtain rfl := Option.some.inj htext
  rw [String.ofList_toList] at hparse
  exact ⟨hinsert, hrule, hparse⟩

end Rule

end Railroad
