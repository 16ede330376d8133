import Railroad.Proofs.Token.Scanning

/-!
# Looking ahead

A scanner that has looked at a token has passed its text already, but still gives the
token.  The tokens that it will give are therefore those of the text behind it, and in
front of them the one that it keeps.  Looking changes nothing about them, and taking
takes the first.

Main definitions:

- Definition {lit}`Scanner.left`: the tokens that a scanner will give.
- Definition {lit}`Scanner.Sound`: what holds of a scanner however it was used.

Main results:

- Theorems {lit}`Scanner.peek_eq` and {lit}`Scanner.left_peek`: looking.
- Theorems {lit}`Scanner.next_eq` and {lit}`Scanner.Sound.left_next`: taking.
- Theorems {lit}`Scanner.Sound.peek` and {lit}`Scanner.Sound.next`: both keep a scanner
  sound.
-/

namespace Railroad

/-- A text has at most as many tokens as characters. -/
theorem Token.length_ofText_le (start : Nat) (cs : List Char) :
    (ofText start cs).length ≤ cs.length := by
  induction cs using Lexeme.all.induct generalizing start with
  | case1 => simp [ofText, Lexeme.all, ofLexemes]
  | case2 c cs ih =>
    have hlt := Lexeme.length_first_lt c cs
    have hrest := ih (start + Text.byteLength (Lexeme.first c cs).1.text)
    rw [ofText] at hrest
    rw [ofText, Lexeme.all, ofLexemes]
    cases (Lexeme.first c cs).1.role with
    | token kind => exact Nat.lt_of_le_of_lt hrest hlt
    | blank | comment => exact hrest.trans hlt.le

namespace Scanner

/-- The tokens that a scanner will give. -/
def left (s : Scanner) : List Token :=
  match s.ahead with
  | none => Token.ofText s.offset s.unread
  | some none => []
  | some (some t) => t :: Token.ofText s.offset s.unread

/-- A scanner gives tokens of its source up to the last, and once it has met the end it
has no text left. -/
structure Sound (s : Scanner) : Prop where
  left_suffix : s.left <:+ Token.ofSource s.source
  ended : s.ahead = some none → Token.ofText s.offset s.unread = []

/-- A scanner in front of a source has all of its tokens left. -/
theorem sound_ofSource (source : String) : (ofSource source).Sound := by
  refine ⟨List.suffix_refl _, ?_⟩
  intro hahead
  cases hahead

/-- There are at most as many tokens left as characters, and one that has been looked
at. -/
theorem length_left_le (s : Scanner) : s.left.length ≤ s.unread.length + 1 := by
  have hle := Token.length_ofText_le s.offset s.unread
  rw [left]
  cases s.ahead with
  | none => exact hle.trans (Nat.le_succ _)
  | some token =>
    cases token with
    | none => exact Nat.zero_le _
    | some t => exact Nat.succ_le_succ hle

variable {s : Scanner}

/-! ## Scanners that have not looked -/

/-- Without a look before, the next token is searched for in the text. -/
theorem next_of_ahead_eq_none (hahead : s.ahead = none) :
    s.next.1 = s.left.head? ∧ s.next.2.ahead = none ∧
      Token.ofText s.next.2.offset s.next.2.unread = s.left.tail := by
  rw [left, hahead]
  cases htokens : Token.ofText s.offset s.unread with
  | nil => exact next_of_ofText_eq_nil hahead htokens
  | cons t ts => exact next_of_ofText_eq_cons hahead htokens

/-- A first look searches for the next token and keeps it. -/
theorem peek_of_ahead_eq_none (hahead : s.ahead = none) :
    s.peek = (s.next.1, { s.next.2 with ahead := some s.next.1 }) := by
  rw [peek, hahead]

/-- A second look shows what the first one did. -/
theorem peek_of_ahead_eq_some {token : Option Token} (hahead : s.ahead = some token) :
    s.peek = (token, s) := by
  rw [peek, hahead]

/-- What has been looked at is taken without another search. -/
theorem next_of_ahead_eq_some {token : Option Token} (hahead : s.ahead = some token) :
    s.next = (token, { s with ahead := none }) := by
  rw [next, hahead]

/-- What a scanner has looked at is the first of the tokens that are left. -/
theorem head?_left_of_ahead_eq_some {token : Option Token} (hahead : s.ahead = some token) :
    s.left.head? = token := by
  rw [left, hahead]
  cases token with
  | none => rfl
  | some t => rfl

/-! ## Taking -/

/-- The next token is the first of those that are left. -/
theorem next_eq (s : Scanner) : s.next.1 = s.left.head? := by
  cases hahead : s.ahead with
  | none => exact (next_of_ahead_eq_none hahead).1
  | some token => rw [next_of_ahead_eq_some hahead, head?_left_of_ahead_eq_some hahead]

/-- Nobody has looked at the token behind one that has been taken. -/
theorem ahead_next (s : Scanner) : s.next.2.ahead = none := by
  cases hahead : s.ahead with
  | none => exact (next_of_ahead_eq_none hahead).2.1
  | some token => rw [next_of_ahead_eq_some hahead]

theorem source_next (s : Scanner) : s.next.2.source = s.source := by
  rw [next]
  split
  · rfl
  · split <;> rfl

/-- Taking the next token leaves the others. -/
theorem Sound.left_next (h : s.Sound) : s.next.2.left = s.left.tail := by
  cases hahead : s.ahead with
  | none =>
    obtain ⟨-, hnext, hrest⟩ := next_of_ahead_eq_none hahead
    rw [left, hnext, hrest]
  | some token =>
    rw [next_of_ahead_eq_some hahead, left, left, hahead]
    cases token with
    | none => exact h.ended hahead
    | some t => rfl

/-- Taking a token keeps a scanner sound. -/
theorem Sound.next (h : s.Sound) : s.next.2.Sound := by
  refine ⟨?_, ?_⟩
  · rw [h.left_next, source_next]
    exact (List.tail_suffix s.left).trans h.left_suffix
  · rw [ahead_next]
    intro hahead
    cases hahead

/-! ## Looking -/

/-- A look shows the first of the tokens that are left. -/
theorem peek_eq (s : Scanner) : s.peek.1 = s.left.head? := by
  cases hahead : s.ahead with
  | none =>
    rw [peek_of_ahead_eq_none hahead]
    exact next_eq s
  | some token => rw [peek_of_ahead_eq_some hahead, head?_left_of_ahead_eq_some hahead]

/-- A look changes nothing about the tokens that are left. -/
theorem left_peek (s : Scanner) : s.peek.2.left = s.left := by
  cases hahead : s.ahead with
  | none =>
    obtain ⟨hnext, -, hrest⟩ := next_of_ahead_eq_none hahead
    rw [peek_of_ahead_eq_none hahead, left, hnext]
    cases hleft : s.left with
    | nil => rfl
    | cons t ts =>
      rw [hleft] at hrest
      exact congrArg (t :: ·) hrest
  | some token => rw [peek_of_ahead_eq_some hahead]

theorem source_peek (s : Scanner) : s.peek.2.source = s.source := by
  cases hahead : s.ahead with
  | none =>
    rw [peek_of_ahead_eq_none hahead]
    exact source_next s
  | some token => rw [peek_of_ahead_eq_some hahead]

/-- Looking keeps a scanner sound. -/
theorem Sound.peek (h : s.Sound) : s.peek.2.Sound := by
  refine ⟨?_, ?_⟩
  · rw [left_peek, source_peek]
    exact h.left_suffix
  · cases hahead : s.ahead with
    | none =>
      obtain ⟨hnext, -, hrest⟩ := next_of_ahead_eq_none hahead
      rw [peek_of_ahead_eq_none hahead]
      intro hended
      have hleft : s.left = [] := by
        rw [← List.head?_eq_none_iff, ← hnext]
        exact Option.some.inj hended
      rw [hrest, hleft, List.tail_nil]
    | some token =>
      rw [peek_of_ahead_eq_some hahead]
      exact h.ended

end Scanner

end Railroad
