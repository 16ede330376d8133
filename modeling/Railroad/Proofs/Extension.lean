import Railroad.Proofs.Refusals
import Railroad.Proofs.Token.Extending
import Railroad.Rule.Parser

/-!
# Faults inside of a text

A fault that a token of a text shows is there whatever lines follow the text.  Other faults may
be mended: an end may come too early, a group may be closed further down, and an empty branch may
get elements.

Main definitions:

- Definition {lit}`Rule.Error.IsInside`: the faults that a token shows.

Main results:

- Theorem {lit}`Reading.outcome_append`: tokens behind a fault.
- Theorem {lit}`Rule.parse_append_line`: lines behind a fault.
-/

namespace Railroad

/-- The faults that a token shows and no text behind it can mend. -/
def Rule.Error.IsInside : Rule.Error → Prop
  | unexpectedToken _ _ _ => True
  | invalidToken _ _ => True
  | tooDeep _ _ => True
  | unclosedDelimiter delimiter _ => delimiter = '\'' ∨ delimiter = '"'
  | unexpectedEnd _ _ => False
  | emptyAlternative _ => False

namespace Reading

variable {size size' : Nat} {r : Reading} {e : Rule.Error}

/-- The end of a text shows other faults. -/
theorem not_isInside_of_finish_eq_error (h : r.finish size = .error e) : ¬ e.IsInside := by
  cases r with
  | start => cases h
  | named name =>
    cases h
    exact id
  | body name b =>
    rw [finish] at h
    cases htree : b.current.tree with
    | error e' =>
      obtain ⟨span, rfl, -⟩ := Alternation.exists_of_tree_eq_error htree
      rw [htree] at h
      cases h
      exact id
    | ok root =>
      rw [htree, ok_bind] at h
      cases hgroups : b.groups with
      | nil =>
        rw [hgroups] at h
        cases h
      | cons group groups =>
        rw [hgroups] at h
        cases h
        simp [Rule.Error.IsInside]
  | closed name root => cases h

/-- A fault that some tokens show is also shown by more tokens, and in a longer text. -/
theorem outcome_append {ts : List Token} (h : r.outcome size ts = .error e) (he : e.IsInside)
    (more : List Token) : r.outcome size' (ts ++ more) = .error e := by
  induction ts generalizing r with
  | nil =>
    rw [outcome_nil] at h
    exact absurd he (not_isInside_of_finish_eq_error h)
  | cons t ts ih =>
    cases hstep : r.step t with
    | ok r' =>
      rw [outcome_of_step_eq_ok hstep] at h
      rw [List.cons_append, outcome_of_step_eq_ok hstep]
      exact ih h
    | error refusal =>
      rw [outcome_of_step_eq_error hstep] at h
      rw [List.cons_append, outcome_of_step_eq_error hstep]
      exact h

end Reading

namespace Rule

/-- If a token of a text shows a fault and no bracket of the text is without a partner, then the
text shows the very same fault with any lines behind it. -/
theorem parse_append_line {source : String} {e : Error}
    (hclosed : ∀ t ∈ Token.ofSource source, t.IsClosed) (h : parse source = .error e)
    (he : e.IsInside) (more : String) : parse (source ++ "\n" ++ more) = .error e := by
  have hsource : (source ++ "\n" ++ more).toList = source.toList ++ '\n' :: more.toList := by
    simp
  have htokens : Token.ofSource (source ++ "\n" ++ more) = Token.ofSource source ++
      Token.ofText (0 + Text.byteLength source.toList) ('\n' :: more.toList) := by
    rw [Token.ofSource, hsource]
    exact Token.ofText_append_line hclosed more.toList
  change Reading.start.outcome _ (Token.ofSource (source ++ "\n" ++ more)) = .error e
  rw [htokens]
  exact Reading.outcome_append h he _

/-- A quote that its line does not close, in a group that the next line closes. -/
theorem parse_append_line_quote :
    parse "r: (a | [x] 'b" = .error (.unclosedDelimiter '\'' ⟨12, 14⟩) ∧
      parse "r: (a | [x] 'b\n c');" = .error (.unclosedDelimiter '\'' ⟨12, 14⟩) := by
  have h : parse "r: (a | [x] 'b" = .error (.unclosedDelimiter '\'' ⟨12, 14⟩) := by
    decide +kernel
  have hclosed : ∀ t ∈ Token.ofSource "r: (a | [x] 'b", t.IsClosed := by decide +kernel
  exact ⟨h, parse_append_line hclosed h (.inl rfl) " c');"⟩

/-- A bracket that is not closed goes on behind the text, and is another token there. -/
example : parse "r [b" = .error (.unexpectedToken "':'" "error" ⟨2, 4⟩) ∧
    parse "r [b\n]" = .error (.unexpectedToken "':'" "annotation" ⟨2, 6⟩) := by
  decide +kernel

end Rule

end Railroad
