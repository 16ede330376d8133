import Railroad.Proofs.Faults.Explained
import Railroad.Proofs.Grammar.Recognition
import Railroad.Proofs.Token.Cutting

/-!
# Faults are true of the text

A text that is no rule is refused with a fault, which says something about the text at the
place that it names.  What it says is true.

Main definitions:

- Definition {lit}`Rule.Error.TrueOf`: what a fault says about a text.

Main results:

- Theorem {lit}`Explained.trueOf`: a fault that is explained by the tokens of a text is
  true of it.
- Theorem {lit}`Rule.parse_error_true`: all faults of texts are true of them.
-/

namespace Railroad

namespace Rule

/-! ## What faults say -/

/-- At the span, a group is opened which is never closed, while all groups that are opened
behind it are closed, and nothing is left to be read. -/
def HasUnclosedGroup (source : String) (span : Span) : Prop :=
  ∃ before opening after, Token.ofSource source = before ++ opening :: after ∧
    opening.kind = .openParen ∧ opening.span = span ∧ ¬Token.ClosesGroup after ∧
    (∀ front inner rest, after = front ++ inner :: rest → inner.kind = .openParen →
      Token.ClosesGroup rest) ∧
    (Parser.ofSource source).next.2.tokens = []

/-- The span is that of a token that begins with `opener`, and the text behind the opener
has no partner for it. -/
def HasUnclosedOpener (source : String) (span : Span) (opener : Char)
    (partnerless : List Char → Prop) : Prop :=
  ∃ t ∈ Token.ofSource source, t.span = span ∧ t.text.toList.head? = some opener ∧
    ∃ front rest, source.toList = front ++ opener :: rest ∧
      span.start = Text.byteLength front ∧ partnerless rest

/-- The span goes from one bar to another, or covers a bar, and covers no other token. -/
def HasEmptyBranch (source : String) (span : Span) : Prop :=
  ∃ first ∈ Token.ofSource source, ∃ last ∈ Token.ofSource source,
    first.kind = .bar ∧ last.kind = .bar ∧
    span.start = first.span.start ∧ span.stop = last.span.stop ∧
    ∀ t ∈ Token.ofSource source, span.start ≤ t.span.start → t.span.stop ≤ span.stop →
      t = first ∨ t = last

/-- What a fault says about a text. -/
def Error.TrueOf (source : String) : Rule.Error → Prop
  | .unexpectedToken _ found span =>
    ∃ t ∈ Token.ofSource source, t.span = span ∧ t.kind.text = found
  | .unexpectedEnd expected span =>
    expected = "':'" ∧ span = .atEnd (Text.byteLength source.toList) ∧
      ∃ t, Token.ofSource source = [t] ∧ t.kind = .identifier
  | .unclosedDelimiter delimiter span =>
    (delimiter = '(' ∧ HasUnclosedGroup source span) ∨
      (delimiter = '[' ∧ HasUnclosedOpener source span '[' fun rest => ']' ∉ rest) ∨
      ((delimiter = '\'' ∨ delimiter = '"') ∧ HasUnclosedOpener source span delimiter
        fun rest => delimiter ∉ rest.takeWhile (· != '\n'))
  | .invalidToken value span =>
    ∃ c, value.toList = [c] ∧ Text.slice? source.toList span = some [c] ∧
      c ∉ ['(', '\'', '"', '[']
  | .emptyAlternative span => HasEmptyBranch source span
  | .tooDeep limit span =>
    limit = 256 ∧ ∃ t ∈ Token.ofSource source, t.span = span ∧
      (t.kind = .openParen ∨ t.kind = .plus)

/-! ## Faulty tokens -/

/-- A faulty token is a bracket or a quote without a partner, or a stray character. -/
theorem faulty_cases {kind : Token.Kind} {text rest : List Char} (h : kind.IsFaulty)
    (hspelled : kind.Spelled text) (hfollowed : kind.Followed text rest) :
    (∃ inner, text = '[' :: inner ∧ ']' ∉ inner ∧ rest = []) ∨
      (∃ quote inner, (quote = '\'' ∨ quote = '"') ∧ text = quote :: inner ∧
        (∀ c ∈ inner, c ≠ quote ∧ c ≠ '\n') ∧ AtLineEnd rest) ∨
      IsStray text rest := by
  cases kind with
  | openBracket => exact .inl ⟨[], hspelled, List.not_mem_nil, hfollowed⟩
  | singleQuote => exact .inr (.inl ⟨'\'', [], .inl rfl, hspelled, by simp, hfollowed⟩)
  | doubleQuote => exact .inr (.inl ⟨'"', [], .inr rfl, hspelled, by simp, hfollowed⟩)
  | malformed =>
    rcases hfollowed with (⟨inner, htext, -, hinner, hrest⟩ |
      ⟨quote, inner, hquote, htext, -, hinner, hrest⟩) | hstray
    · exact .inl ⟨inner, htext, hinner, hrest⟩
    · exact .inr (.inl ⟨quote, inner, hquote, htext, hinner, hrest⟩)
    · exact .inr (.inr hstray)
  | _ => cases h

/-- A bracket that is not closed is reported as such. -/
theorem faultOf_bracket {t : Token} {inner : List Char} (h : t.text.toList = '[' :: inner) :
    Body.faultOf t = .unclosedDelimiter '[' t.span := by
  rw [Body.faultOf, h]
  rfl

/-- So is a quote. -/
theorem faultOf_quote {t : Token} {quote : Char} {inner : List Char}
    (hquote : quote = '\'' ∨ quote = '"') (h : t.text.toList = quote :: inner) :
    Body.faultOf t = .unclosedDelimiter quote t.span := by
  rcases hquote with rfl | rfl
  · rw [Body.faultOf, h]
    rfl
  · rw [Body.faultOf, h]
    rfl

/-- Any other character that begins no token is reported as it stands. -/
theorem faultOf_stray {t : Token} {c : Char} (h : t.text.toList = [c])
    (hc : c ∉ ['\'', '"', '[']) : Body.faultOf t = .invalidToken t.text t.span := by
  rw [Body.faultOf, h]
  split
  · next heq => simp [(List.cons.inj heq).1] at hc
  · next heq => simp [(List.cons.inj heq).1] at hc
  · next heq => simp [(List.cons.inj heq).1] at hc
  · rfl

/-- A quote that is missing up to the end of the line is not found on the line. -/
theorem notMem_takeWhile_line {quote : Char} {inner rest : List Char}
    (hinner : ∀ c ∈ inner, c ≠ quote ∧ c ≠ '\n') (hrest : AtLineEnd rest) :
    quote ∉ (inner ++ rest).takeWhile (· != '\n') := by
  have hline : ∀ c ∈ inner, (c != '\n') = true := by
    intro c hc
    simpa using (hinner c hc).2
  have hbreak : ∀ c, rest.head? = some c → (c != '\n') = false := by
    intro c hc
    simpa using hrest c hc
  rw [(takeWhile_dropWhile_append hline hbreak).1]
  intro hmem
  exact (hinner quote hmem).1 rfl

variable {source : String}

/-- The fault of a faulty token is true. -/
theorem trueOf_faultOf {t : Token} (ht : t ∈ Token.ofSource source) (h : t.kind.IsFaulty) :
    (Body.faultOf t).TrueOf source := by
  have hcuts := Token.cuts_ofSource source
  rcases hcuts.exists_place ht with ⟨front, rest, hsource, hstart, -, hspelled, hfollowed⟩
  rw [Nat.zero_add] at hstart
  rcases faulty_cases h hspelled hfollowed with ⟨inner, htext, hinner, hrest⟩ |
    ⟨quote, inner, hquote, htext, hinner, hrest⟩ | ⟨c, htext, -, -, hmark, hc, -⟩
  · rw [faultOf_bracket htext]
    refine .inr (.inl ⟨rfl, t, ht, rfl, by rw [htext, List.head?_cons], front, inner, ?_, hstart,
      hinner⟩)
    rw [hsource, htext, hrest, List.append_nil]
  · rw [faultOf_quote hquote htext]
    refine .inr (.inr ⟨hquote, t, ht, rfl, by rw [htext, List.head?_cons], front, inner ++ rest,
      ?_, hstart, notMem_takeWhile_line hinner hrest⟩)
    rw [hsource, htext, List.cons_append]
  · rw [faultOf_stray htext hc]
    have hparen : c ≠ '(' := by
      rintro rfl
      cases hmark
    refine ⟨c, htext, ?_, by simpa [hparen] using hc⟩
    rw [hcuts.slice?_eq ht, htext]

/-! ## Empty branches -/

/-- No token lies between two neighbouring ones. -/
theorem hasEmptyBranch_of_bars {before after : List Token} {bar bar' : Token}
    (h : Token.ofSource source = before ++ bar :: bar' :: after) (hbar : bar.kind = .bar)
    (hbar' : bar'.kind = .bar) : HasEmptyBranch source (bar.span.merge bar'.span) := by
  have hcuts := Token.cuts_ofSource source
  have hbounds {t : Token} (ht : t ∈ Token.ofSource source) := (hcuts.span_bounds ht).2.1
  have hpair := hcuts.pairwise
  have hmem : bar ∈ Token.ofSource source := by simp [h]
  have hmem' : bar' ∈ Token.ofSource source := by simp [h]
  rw [h, List.pairwise_append, List.pairwise_cons, List.pairwise_cons] at hpair
  rcases hpair with ⟨-, ⟨hbehind, hbehind', -⟩, hbefore⟩
  have hpos := hbounds hmem
  have hpos' := hbounds hmem'
  have hnext := hbehind bar' List.mem_cons_self
  refine ⟨bar, hmem, bar', hmem', hbar, hbar', ?_, ?_, ?_⟩
  · rw [Span.start_merge]
    omega
  · rw [Span.stop_merge]
    omega
  · -- Tokens do not overlap, so only the bars themselves are within the range around them.
    intro t ht hstart hstop
    rw [Span.start_merge] at hstart
    rw [Span.stop_merge] at hstop
    have hpos'' := hbounds ht
    rw [h, List.mem_append, List.mem_cons, List.mem_cons] at ht
    rcases ht with ht | rfl | rfl | ht
    · have hfront := hbefore t ht bar List.mem_cons_self
      omega
    · exact .inl rfl
    · exact .inr rfl
    · have hback := hbehind' t ht
      omega

/-- The place of a bar covers that bar and no other token. -/
theorem hasEmptyBranch_of_bar {bar : Token} (h : bar ∈ Token.ofSource source)
    (hbar : bar.kind = .bar) : HasEmptyBranch source bar.span := by
  have hcuts := Token.cuts_ofSource source
  refine ⟨bar, h, bar, h, hbar, hbar, rfl, rfl, ?_⟩
  intro t ht hstart hstop
  have hpos := (hcuts.span_bounds h).2.1
  have hpos' := (hcuts.span_bounds ht).2.1
  rcases hcuts.eq_or_apart ht h with heq | happart
  · exact .inl heq
  · omega

end Rule

open Rule

/-! ## All faults -/

/-- A fault that the tokens of a text explain is true of the text. -/
theorem Explained.trueOf {source : String} {e : Rule.Error}
    (h : Explained (Text.byteLength source.toList) (Token.ofSource source)
      (Parser.ofSource source).next.2.tokens e) : e.TrueOf source := by
  cases h with
  | @unexpected t what ht => exact ⟨t, ht, rfl, rfl⟩
  | @onlyName t hall hkind => exact ⟨rfl, rfl, t, hall, hkind⟩
  | faulty ht hkind => exact trueOf_faultOf ht hkind
  | @tooDeep t ht hkind => exact ⟨rfl, t, ht, rfl, hkind⟩
  | betweenBars hall hbar hbar' => exact hasEmptyBranch_of_bars hall hbar hbar'
  | aroundBar hmem hbar => exact hasEmptyBranch_of_bar hmem hbar
  | @unclosed before after opening hall hopening hafter hrest =>
    refine .inl ⟨rfl, before, opening, after, hall, hopening, rfl, hafter.not_closesGroup, ?_,
      hrest⟩
    intro front inner rest hsplit hinner
    rw [hsplit] at hafter
    exact hafter.closesGroup hinner

namespace Rule

/-- The fault of a text is true of the text, and the text ends too early exactly if it has
nothing but a name. -/
theorem parse_error_true (source : String) :
    (∀ e, parse source = .error e → e.TrueOf source) ∧
      ((∃ expected span, parse source = .error (.unexpectedEnd expected span)) ↔
        ∃ t, Token.ofSource source = [t] ∧ t.kind = .identifier) := by
  have htrue : ∀ e, parse source = .error e → e.TrueOf source := by
    intro e h
    exact (Reading.ReadFrom.start.explained h).trueOf
  refine ⟨htrue, ?_⟩
  constructor
  · rintro ⟨expected, span, h⟩
    exact (htrue _ h).2.2
  · rintro ⟨t, htokens, hkind⟩
    refine ⟨"':'", .atEnd (Text.byteLength source.toList), ?_⟩
    rw [parse_eq_outcome, htokens, Reading.outcome_name hkind]
    rfl

/-- Of three groups, the outer one is not closed. -/
theorem parse_error_true_group :
    parse "r : ( a (b | ()) [c]" = .error (.unclosedDelimiter '(' ⟨4, 5⟩) ∧
      Error.TrueOf "r : ( a (b | ()) [c]" (.unclosedDelimiter '(' ⟨4, 5⟩) := by
  have h : parse "r : ( a (b | ()) [c]" = .error (.unclosedDelimiter '(' ⟨4, 5⟩) := by
    decide +kernel
  exact ⟨h, (parse_error_true _).1 _ h⟩

end Rule

end Railroad
