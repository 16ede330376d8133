import Railroad.Proofs.Token.Lookahead

/-!
# Cutting a text from the middle

The tokens behind some point of a text can be found without the text in front of it, if the
point is the stop of a token or the start of one.  They are the same tokens, only their
places count from that point.

Main results:

- Theorem {lit}`Scanner.exists_gap_of_find?_eq_some`: what a search passes over.
- Theorem {lit}`Token.exists_split_of_ofText_eq_append`: cutting from behind a token.
- Theorem {lit}`Token.exists_split_of_ofText_eq_cons`: cutting from the start of a token.
- Theorem {lit}`Token.ofText_eq_map_shift`: how the places count.
-/

namespace Railroad

/-- A search passes over some text, and finds the same token if it begins where the token
does. -/
theorem Scanner.exists_gap_of_find?_eq_some {start : Nat} {cs rest : List Char} {t : Token}
    (h : find? start cs = some (t, rest)) :
    ∃ gap, cs = gap ++ (t.text.toList ++ rest) ∧ t.span.start = start + Text.byteLength gap ∧
      t.span.stop = t.span.start + Text.byteLength t.text.toList ∧
      find? t.span.start (t.text.toList ++ rest) = some (t, rest) := by
  fun_induction find? start cs with
  | case1 => cases h
  | case2 start c cs stop kind hrole =>
    have hfound := h
    cases h
    rw [String.toList_ofList, Lexeme.first_append]
    refine ⟨[], rfl, rfl, rfl, ?_⟩
    rw [find?, hrole]
  | case3 start c cs stop hrole ih =>
    obtain ⟨gap, hrest, hstart, hstop, hfind⟩ := ih h
    refine ⟨(Lexeme.first c cs).1.text ++ gap, ?_, ?_, hstop, hfind⟩
    · rw [List.append_assoc, ← hrest, Lexeme.first_append]
    · rw [hstart, Text.byteLength_append, Nat.add_assoc]

namespace Token

/-- The stop of the last of some tokens, or `start` if there is none. -/
def lastStop (start : Nat) (ts : List Token) : Nat :=
  (ts.getLast?.map fun t => t.span.stop).getD start

/-- The end of the last token does not depend on where the others end. -/
theorem lastStop_cons (start : Nat) (t : Token) (ts : List Token) :
    lastStop start (t :: ts) = lastStop t.span.stop ts := by
  cases ts with
  | nil => rfl
  | cons u us =>
    rw [lastStop, lastStop, List.getLast?_cons_cons]
    cases hlast : (u :: us).getLast? with
    | none => simp at hlast
    | some last => rfl

/-- Behind some of the tokens of a text, the others can be found from the text that is left. -/
theorem exists_split_of_ofText_eq_append {start : Nat} {cs : List Char} {read left : List Token}
    (h : ofText start cs = read ++ left) :
    ∃ front rest, cs = front ++ rest ∧ lastStop start read = start + Text.byteLength front ∧
      ofText (lastStop start read) rest = left := by
  induction read generalizing start cs with
  | nil => exact ⟨[], cs, rfl, rfl, h⟩
  | cons t read ih =>
    rw [Scanner.ofText_eq] at h
    cases hfind : Scanner.find? start cs with
    | none =>
      rw [hfind] at h
      cases h
    | some found =>
      obtain ⟨u, rest⟩ := found
      simp only [hfind, List.cons_append, List.cons.injEq] at h
      obtain ⟨rfl, htokens⟩ := h
      obtain ⟨gap, hcs, hstart, hstop, -⟩ := Scanner.exists_gap_of_find?_eq_some hfind
      obtain ⟨front, rest', rfl, hlast, hleft⟩ := ih htokens
      refine ⟨gap ++ (u.text.toList ++ front), rest', ?_, ?_, ?_⟩
      · simp [hcs]
      · rw [lastStop_cons, hlast, hstop, hstart, Text.byteLength_append, Text.byteLength_append]
        omega
      · rw [lastStop_cons]
        exact hleft

/-- The first token of a text and all others can be found from where the first one starts. -/
theorem exists_split_of_ofText_eq_cons {start : Nat} {cs : List Char} {t : Token}
    {ts : List Token} (h : ofText start cs = t :: ts) :
    ∃ front rest, cs = front ++ rest ∧ t.span.start = start + Text.byteLength front ∧
      ofText t.span.start rest = t :: ts := by
  have htokens := h
  rw [Scanner.ofText_eq] at htokens
  cases hfind : Scanner.find? start cs with
  | none =>
    rw [hfind] at htokens
    cases htokens
  | some found =>
    obtain ⟨u, rest⟩ := found
    simp only [hfind, List.cons.injEq] at htokens
    obtain ⟨rfl, hrest⟩ := htokens
    obtain ⟨gap, hcs, hstart, -, hfind'⟩ := Scanner.exists_gap_of_find?_eq_some hfind
    refine ⟨gap, u.text.toList ++ rest, hcs, hstart, ?_⟩
    rw [Scanner.ofText_eq, hfind']
    exact congrArg (u :: ·) hrest

/-- Lexemes that start later give the same tokens at later places. -/
theorem ofLexemes_add (start k : Nat) (ls : List Lexeme) :
    ofLexemes (start + k) ls = (ofLexemes start ls).map (shift k) := by
  induction ls generalizing start with
  | nil => rfl
  | cons l ls ih =>
    have hstop : start + k + Text.byteLength l.text = start + Text.byteLength l.text + k := by
      omega
    rw [ofLexemes, ofLexemes, hstop]
    cases l.role with
    | blank | comment => exact ih _
    | token kind =>
      simp only [List.map_cons, ih, shift, Span.shift]

/-- The tokens of a text whose first byte has the offset `k`. -/
theorem ofText_eq_map_shift (k : Nat) (cs : List Char) :
    ofText k cs = (ofText 0 cs).map (shift k) := by
  have h := ofLexemes_add 0 k (Lexeme.all cs)
  rw [Nat.zero_add] at h
  exact h

end Token

end Railroad
