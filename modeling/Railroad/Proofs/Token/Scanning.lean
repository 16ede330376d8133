import Railroad.Proofs.Token.Cutting
import Railroad.Token.Scanner

/-!
# The tokens that a scanner gives

A scanner that is asked again and again gives the tokens of its source, one after the
other, and then none.  These tokens and what is skipped between them make up the source.

Main definitions:

- Definition {lit}`Scanner.taken`: what a scanner gives when it is asked some times.

Main results:

- Theorem {lit}`Scanner.ofText_eq`: the tokens of a text by the search for the first.
- Theorem {lit}`Scanner.taken_eq`: a scanner gives its tokens, and then none.
- Theorem {lit}`Scanner.tokens_cut_source`: how these tokens lie in the source.
-/

namespace Railroad.Scanner

/-- What a scanner gives when `n` tokens are taken from it, one after the other. -/
def taken : Nat → Scanner → List (Option Token)
  | 0, _ => []
  | n + 1, s => s.next.1 :: taken n s.next.2

/-- The tokens of a text are the one that a search finds, and those behind it. -/
theorem ofText_eq (start : Nat) (cs : List Char) :
    Token.ofText start cs =
      match find? start cs with
      | none => []
      | some (t, rest) => t :: Token.ofText t.span.stop rest := by
  fun_induction find? start cs with
  | case1 => rw [Token.ofText, Lexeme.all, Token.ofLexemes]
  | case2 start c cs stop kind hrole =>
    rw [Token.ofText, Lexeme.all, Token.ofLexemes, hrole]
    rfl
  | case3 start c cs stop hrole ih =>
    rw [← ih, Token.ofText, Lexeme.all, Token.ofLexemes]
    cases hlexeme : (Lexeme.first c cs).1.role with
    | token kind => exact absurd hlexeme (hrole kind)
    | blank => rfl
    | comment => rfl

variable {s : Scanner}

/-- A scanner in front of a token, where nobody has looked at it. -/
theorem next_of_ofText_eq_cons {t : Token} {ts : List Token} (hahead : s.ahead = none)
    (h : Token.ofText s.offset s.unread = t :: ts) :
    s.next.1 = some t ∧ s.next.2.ahead = none ∧
      Token.ofText s.next.2.offset s.next.2.unread = ts := by
  rw [ofText_eq] at h
  cases hfind : find? s.offset s.unread with
  | none => simp [hfind] at h
  | some found =>
    simp only [hfind, List.cons.injEq] at h
    simpa [next, hahead, hfind] using h

/-- A scanner behind the last token. -/
theorem next_of_ofText_eq_nil (hahead : s.ahead = none)
    (h : Token.ofText s.offset s.unread = []) :
    s.next.1 = none ∧ s.next.2.ahead = none ∧
      Token.ofText s.next.2.offset s.next.2.unread = [] := by
  rw [ofText_eq] at h
  cases hfind : find? s.offset s.unread with
  | none =>
    simp only [next, hahead, hfind, true_and]
    rw [Token.ofText, Lexeme.all, Token.ofLexemes]
  | some found => simp [hfind] at h

/-- A scanner gives the tokens that are left, and then none. -/
theorem taken_eq {ts : List Token} (hahead : s.ahead = none)
    (h : Token.ofText s.offset s.unread = ts) (n : Nat) :
    taken (ts.length + n) s = ts.map some ++ List.replicate n none := by
  induction ts generalizing s with
  | cons t ts ih =>
    obtain ⟨hnext, hahead', hrest⟩ := next_of_ofText_eq_cons hahead h
    rw [List.length_cons, Nat.add_right_comm, taken, hnext, ih hahead' hrest, List.map_cons,
      List.cons_append]
  | nil =>
    rw [List.length_nil, Nat.zero_add, List.map_nil, List.nil_append]
    induction n generalizing s with
    | zero => rfl
    | succ n ih =>
      obtain ⟨hnext, hahead', hrest⟩ := next_of_ofText_eq_nil hahead h
      rw [taken, hnext, ih hahead' hrest, List.replicate_succ]

/-- A scanner gives the tokens of its source and then none for ever.  The source falls
into these tokens and skipped text between them; each token covers some bytes of the
source, which are those of its text; and tokens stand one behind the other. -/
theorem tokens_cut_source (source : String) :
    (∀ n, taken ((Token.ofSource source).length + n) (ofSource source) =
        (Token.ofSource source).map some ++ List.replicate n none) ∧
      Token.Cuts 0 source.toList (Token.ofSource source) ∧
      (∀ t ∈ Token.ofSource source, t.span.start < t.span.stop ∧
        t.span.stop ≤ Text.byteLength source.toList ∧
        (ofSource source).slice? t.span = some t.text) ∧
      (Token.ofSource source).Pairwise fun t u => t.span.stop ≤ u.span.start := by
  have hcuts := Token.cuts_ofSource source
  refine ⟨taken_eq rfl rfl, hcuts, ?_, hcuts.pairwise⟩
  intro t ht
  obtain ⟨-, hpos, hstop⟩ := hcuts.span_bounds ht
  refine ⟨hpos, by simpa using hstop, ?_⟩
  have hslice : (ofSource source).slice? t.span =
      (Text.slice? source.toList t.span).map String.ofList := rfl
  rw [hslice, hcuts.slice?_eq ht, Option.map_some, String.ofList_toList]

/-- A bracket that is never closed, behind a terminal of several bytes and a comment. -/
theorem tokens_cut_source_bracket :
    ⟨.malformed, "[b", ⟨13, 15⟩⟩ ∈ Token.ofSource "a: 'é' // +\n[b" ∧
      (ofSource "a: 'é' // +\n[b").slice? ⟨13, 15⟩ = some "[b" := by
  have hmem : ⟨.malformed, "[b", ⟨13, 15⟩⟩ ∈ Token.ofSource "a: 'é' // +\n[b" := by
    decide +kernel
  have htokens := (tokens_cut_source "a: 'é' // +\n[b").2.2.1 _ hmem
  exact ⟨hmem, htokens.2.2⟩

end Railroad.Scanner
