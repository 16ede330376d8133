import Railroad.Proofs.Token.Spelling

/-!
# Texts that write tokens

A text writes some tokens if cutting it yields them, whatever follows the text.
Texts that write tokens can be put together, which is how the tokens of a rendered
tree are found.  A name needs a character behind it that ends it; the other tokens
end by themselves.

Main definitions:

- Definition {lit}`Token.symbols`: the tokens of a text without their places.
- Definition {lit}`Token.Writes`: a text writes some tokens.

Main results:

- Theorem {lit}`Token.Writes.append`: texts in a row write their tokens in a row.
- Theorems {lit}`Token.writes_name`, {lit}`Token.writes_terminal`,
  {lit}`Token.writes_remark`, {lit}`Token.writes_mark` and {lit}`Token.writes_space`: the
  pieces of which a rule is made.
-/

namespace Railroad

namespace Lexeme

/-! ## First lexemes -/

/-- A run of spaces is one lexeme. -/
theorem first_space {c : Char} (hc : isSpace c) (cs : List Char) :
    first c cs = (⟨.blank, c :: cs.takeWhile isSpace⟩, cs.dropWhile isSpace) := by
  rw [first, if_pos hc, run]

/-- A name does not begin with a space. -/
theorem not_isSpace_of_isNameStart {c : Char} (h : isNameStart c) : isSpace c = false := by
  cases hspace : isSpace c with
  | false => rfl
  | true =>
    simp only [isSpace, Bool.or_eq_true, beq_iff_eq] at hspace
    rcases hspace with ((rfl | rfl) | rfl) | rfl <;> cases h

/-- A name is read up to a character that cannot continue it. -/
theorem first_name {c : Char} {part rest : List Char} (hc : isNameStart c)
    (hpart : ∀ d ∈ part, isNamePart d) (hrest : ∀ d, rest.head? = some d → isNamePart d = false) :
    first c (part ++ rest) = (⟨.token .identifier, c :: part⟩, rest) := by
  have hspace := not_isSpace_of_isNameStart hc
  rcases takeWhile_dropWhile_append hpart hrest with ⟨htake, hdrop⟩
  rw [first, if_neg (by simp [hspace]), if_pos hc, run, htake, hdrop]

/-- Text between quotes is a terminal, if it holds neither the quote nor a line feed. -/
theorem first_quoted {quote : Char} {inner : List Char} (hquote : quote = '\'' ∨ quote = '"')
    (hinner : ∀ c ∈ inner, c ≠ quote ∧ c ≠ '\n') (rest : List Char) :
    first quote (inner ++ quote :: rest) =
      (⟨.token .terminal, quote :: (inner ++ [quote])⟩, rest) := by
  have hclean : ∀ c ∈ inner, c ≠ quote ∧ (c == '\n') = false := by simpa using hinner
  rcases hquote with rfl | rfl
  · exact delimited_of_close rest hclean
  · exact delimited_of_close rest hclean

/-- Text between brackets is a remark, up to the first closing bracket. -/
theorem first_bracketed {inner : List Char} (hinner : ']' ∉ inner) (rest : List Char) :
    first '[' (inner ++ ']' :: rest) = (⟨.token .remark, '[' :: (inner ++ [']'])⟩, rest) := by
  have hclean : ∀ c ∈ inner, c ≠ ']' ∧ false = false := by
    intro c hc
    exact ⟨fun h => hinner (h ▸ hc), rfl⟩
  exact delimited_of_close rest hclean

/-- A mark is a lexeme of its own, whatever follows. -/
theorem first_mark {c : Char} {kind : Token.Kind} (h : mark? c = some kind) (cs : List Char) :
    first c cs = (⟨.token kind, [c]⟩, cs) := by
  unfold mark? at h
  split at h <;> cases h <;> rfl

end Lexeme

namespace Token

/-! ## First tokens -/

theorem ofText_nil (start : Nat) : ofText start [] = [] := by
  rw [ofText, Lexeme.all, ofLexemes]

/-- The tokens behind the first lexeme of a text, and that lexeme if it is a token. -/
theorem ofText_cons (start : Nat) (c : Char) (cs : List Char) :
    ofText start (c :: cs) =
      match (Lexeme.first c cs).1.role with
      | .token kind =>
        ⟨kind, String.ofList (Lexeme.first c cs).1.text,
            ⟨start, start + Text.byteLength (Lexeme.first c cs).1.text⟩⟩ ::
          ofText (start + Text.byteLength (Lexeme.first c cs).1.text) (Lexeme.first c cs).2
      | _ => ofText (start + Text.byteLength (Lexeme.first c cs).1.text) (Lexeme.first c cs).2 := by
  rw [ofText, Lexeme.all, ofLexemes]
  rfl

/-- The tokens behind a run of spaces are those of the text behind it. -/
theorem ofText_space_run {c : Char} (hc : Lexeme.isSpace c) (start : Nat) (cs : List Char) :
    ofText start (c :: cs) =
      ofText (start + c.utf8Size + Text.byteLength (cs.takeWhile Lexeme.isSpace))
        (cs.dropWhile Lexeme.isSpace) := by
  rw [ofText_cons, Lexeme.first_space hc, Text.byteLength_cons, Nat.add_assoc]

/-- The tokens behind a blank. -/
theorem ofText_space {c : Char} (hc : Lexeme.isSpace c) (start : Nat) (cs : List Char) :
    ofText start (c :: cs) = ofText (start + c.utf8Size) cs := by
  rw [ofText_space_run hc]
  cases cs with
  | nil => rfl
  | cons d cs =>
    -- The run of blanks goes on exactly if the next character is a blank.
    by_cases hd : Lexeme.isSpace d
    · rw [List.takeWhile_cons_of_pos hd, List.dropWhile_cons_of_pos hd, ofText_space_run hd,
        Text.byteLength_cons, Nat.add_assoc _ d.utf8Size]
    · rw [List.takeWhile_cons_of_neg hd, List.dropWhile_cons_of_neg hd]
      rfl

/-! ## Tokens without places -/

/-- The tokens of a text, without their places. -/
def symbols (cs : List Char) : List (Kind × String) :=
  (ofText 0 cs).map symbol

/-- Kinds and texts of tokens do not depend on the place where the text starts. -/
theorem map_symbol_ofLexemes (start start' : Nat) (ls : List Lexeme) :
    (ofLexemes start ls).map symbol = (ofLexemes start' ls).map symbol := by
  induction ls generalizing start start' with
  | nil => rfl
  | cons l ls ih =>
    rw [ofLexemes, ofLexemes]
    cases l.role with
    | blank => exact ih _ _
    | comment => exact ih _ _
    | token kind => simp only [List.map_cons, symbol, ih _ (start' + Text.byteLength l.text)]

/-- Where a text starts changes nothing but the places of its tokens. -/
theorem map_symbol_ofText (start : Nat) (cs : List Char) :
    (ofText start cs).map symbol = symbols cs :=
  map_symbol_ofLexemes start 0 (Lexeme.all cs)

@[simp] theorem symbols_nil : symbols [] = [] := by
  rw [symbols, ofText_nil, List.map_nil]

/-- A text that begins with a token. -/
theorem symbols_of_first_eq {c : Char} {cs text rest : List Char} {kind : Kind}
    (h : Lexeme.first c cs = (⟨.token kind, text⟩, rest)) :
    symbols (c :: cs) = (kind, String.ofList text) :: symbols rest := by
  rw [symbols, ofText_cons, h, List.map_cons, symbol, map_symbol_ofText]

/-- A blank in front of a text changes none of its tokens. -/
theorem symbols_space {c : Char} (hc : Lexeme.isSpace c) (cs : List Char) :
    symbols (c :: cs) = symbols cs := by
  rw [symbols, ofText_space hc, map_symbol_ofText]

/-! ## Writing -/

/-- The text writes the tokens: cutting it yields them, whatever follows the text. -/
def Writes (text : List Char) (symbols : List (Kind × String)) : Prop :=
  ∀ rest, Token.symbols (text ++ rest) = symbols ++ Token.symbols rest

theorem writes_nil : Writes [] [] :=
  fun _ => rfl

/-- Texts in a row write their tokens in a row. -/
theorem Writes.append {text text' : List Char} {ss ss' : List (Kind × String)}
    (h : Writes text ss) (h' : Writes text' ss') : Writes (text ++ text') (ss ++ ss') := by
  intro rest
  rw [List.append_assoc, h, h', List.append_assoc]

/-- A text that writes some tokens has these tokens when it stands alone. -/
theorem Writes.symbols_eq {text : List Char} {ss : List (Kind × String)} (h : Writes text ss) :
    symbols text = ss := by
  simpa using h []

theorem writes_space {c : Char} (hc : Lexeme.isSpace c) : Writes [c] [] :=
  fun rest => symbols_space hc rest

/-- A mark writes its own token. -/
theorem writes_mark {c : Char} {kind : Kind} (h : Lexeme.mark? c = some kind) :
    Writes [c] [(kind, String.ofList [c])] :=
  fun rest => symbols_of_first_eq (Lexeme.first_mark h rest)

/-- A terminal is written as its own text. -/
theorem writes_terminal {text : List Char} (h : IsQuoted text) :
    Writes text [(.terminal, String.ofList text)] := by
  intro rest
  rcases h with ⟨quote, inner, hquote, rfl, hinner⟩
  rw [List.cons_append, List.append_assoc, List.singleton_append]
  exact symbols_of_first_eq (Lexeme.first_quoted hquote hinner rest)

/-- A remark is written as its own text, with the brackets. -/
theorem writes_remark {text : List Char} (h : IsBracketed text) :
    Writes text [(.remark, String.ofList text)] := by
  intro rest
  rcases h with ⟨inner, rfl, hinner⟩
  rw [List.cons_append, List.append_assoc, List.singleton_append]
  exact symbols_of_first_eq (Lexeme.first_bracketed hinner rest)

/-- A name writes itself if a character follows that cannot continue it. -/
theorem writes_name {text : List Char} {c : Char} {ss : List (Kind × String)} {text' : List Char}
    (h : IsIdentifier text) (hc : Lexeme.isNamePart c = false) (h' : Writes (c :: text') ss) :
    Writes (text ++ c :: text') ((.identifier, String.ofList text) :: ss) := by
  intro rest
  rcases h with ⟨d, part, rfl, hd, hpart⟩
  have hfirst : Lexeme.first d (part ++ (c :: text' ++ rest)) =
      (⟨.token .identifier, d :: part⟩, c :: text' ++ rest) := by
    refine Lexeme.first_name hd hpart ?_
    intro e he
    cases he
    exact hc
  rw [List.append_assoc, List.cons_append, symbols_of_first_eq hfirst, h' rest, List.cons_append]

end Token

end Railroad
