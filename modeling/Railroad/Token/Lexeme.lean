import Railroad.Token

/-!
# Cutting a text into lexemes

Every text falls into lexemes: tokens, runs of blanks, and comments.  Nothing is
left out, so the lexemes put together give the text back, and the tokens are
what remains when blanks and comments are passed over.

Main results:

- Theorem {lit}`Lexeme.first_append`: a lexeme and the text behind it make up the
  text that was cut.
-/

namespace Railroad

/-- What a lexeme is: one of the two kinds of skipped text, or a token. -/
inductive Lexeme.Role where
  | blank
  | comment
  | token (kind : Token.Kind)
deriving DecidableEq, Repr, Inhabited

/-- A piece of a source text together with what it is. -/
structure Lexeme where
  role : Lexeme.Role
  text : List Char
deriving DecidableEq, Repr, Inhabited

namespace Lexeme

/-! ## Character classes -/

/-- The characters that separate tokens: space, tab, carriage return, line feed. -/
def isSpace (c : Char) : Bool :=
  c == ' ' || c == '\t' || c == '\r' || c == '\n'

/-- The characters that begin an identifier: ASCII letters and the underscore. -/
def isNameStart (c : Char) : Bool :=
  c.isAlpha || c == '_'

/-- The characters that continue an identifier: digits and the dash as well. -/
def isNamePart (c : Char) : Bool :=
  c.isAlphanum || c == '_' || c == '-'

/-- The punctuation mark that a character is, if it is one. -/
def mark? : Char → Option Token.Kind
  | ':' => some .colon
  | ';' => some .semicolon
  | '|' => some .bar
  | '+' => some .plus
  | '(' => some .openParen
  | ')' => some .closeParen
  | _ => none

/-! ## The first lexeme -/

/-- The run of characters in front that satisfy `p`, behind a first character,
and the text that follows the run. -/
def run (role : Role) (p : Char → Bool) (c : Char) (cs : List Char) : Lexeme × List Char :=
  (⟨role, c :: cs.takeWhile p⟩, cs.dropWhile p)

/-- The lexeme that an opener begins, where `cs` is the text behind the opener.

It runs to the first `close`, unless the text ends or a character with `cut`
comes before.  Without its `close` it is malformed, and if there is then nothing
behind the opener at all, it is the opener `alone`. -/
def delimited (whole alone : Token.Kind) (opener close : Char) (cut : Char → Bool)
    (cs : List Char) : Lexeme × List Char :=
  let inner := cs.takeWhile fun c => c != close && !cut c
  match cs.dropWhile fun c => c != close && !cut c with
  | [] => (unfinished inner, [])
  | c :: rest =>
    if c = close then (⟨.token whole, opener :: (inner ++ [c])⟩, rest)
    else (unfinished inner, c :: rest)
where
  /-- The lexeme of an opener whose `close` is missing. -/
  unfinished (inner : List Char) : Lexeme :=
    ⟨.token (if inner.isEmpty then alone else .malformed), opener :: inner⟩

/-- The first lexeme of the text `c :: cs`, and the text behind it. -/
def first (c : Char) (cs : List Char) : Lexeme × List Char :=
  if isSpace c then run .blank isSpace c cs
  else if isNameStart c then run (.token .identifier) isNamePart c cs
  else if c = '\'' then delimited .terminal .singleQuote c c (· == '\n') cs
  else if c = '"' then delimited .terminal .doubleQuote c c (· == '\n') cs
  else if c = '[' then delimited .remark .openBracket c ']' (fun _ => false) cs
  else if c = '/' ∧ cs.head? = some '/' then run .comment (· != '\n') c cs
  else (⟨.token ((mark? c).getD .malformed), [c]⟩, cs)

/-! ## Nothing is lost -/

/-- A run of characters and the text behind it make up the text. -/
theorem run_append (role : Role) (p : Char → Bool) (c : Char) (cs : List Char) :
    (run role p c cs).1.text ++ (run role p c cs).2 = c :: cs := by
  simp [run, List.takeWhile_append_dropWhile]

/-- So do delimited text, closed or not, and the text behind it. -/
theorem delimited_append (whole alone : Token.Kind) (opener close : Char) (cut : Char → Bool)
    (cs : List Char) :
    (delimited whole alone opener close cut cs).1.text ++
      (delimited whole alone opener close cut cs).2 = opener :: cs := by
  have h := List.takeWhile_append_dropWhile (p := fun c => c != close && !cut c) (l := cs)
  unfold delimited
  split
  · rename_i hrest
    rw [hrest] at h
    simpa [delimited.unfinished] using h
  · rename_i c rest hrest
    rw [hrest] at h
    split <;> simpa [delimited.unfinished] using h

/-- The first lexeme and the text behind it make up the whole text. -/
theorem first_append (c : Char) (cs : List Char) :
    (first c cs).1.text ++ (first c cs).2 = c :: cs := by
  unfold first
  split
  · exact run_append _ _ _ _
  split
  · exact run_append _ _ _ _
  split
  · exact delimited_append _ _ _ _ _ _
  split
  · exact delimited_append _ _ _ _ _ _
  split
  · exact delimited_append _ _ _ _ _ _
  split
  · exact run_append _ _ _ _
  · simp

/-- Delimited text begins with its opener. -/
theorem delimited_text (whole alone : Token.Kind) (opener close : Char) (cut : Char → Bool)
    (cs : List Char) :
    ∃ inner, (delimited whole alone opener close cut cs).1.text = opener :: inner := by
  unfold delimited
  split
  · exact ⟨_, rfl⟩
  · split
    · exact ⟨_, rfl⟩
    · exact ⟨_, rfl⟩

/-- The first lexeme begins with the first character of the text. -/
theorem text_first (c : Char) (cs : List Char) :
    ∃ inner, (first c cs).1.text = c :: inner := by
  unfold first
  split
  · exact ⟨_, rfl⟩
  split
  · exact ⟨_, rfl⟩
  split
  · exact delimited_text _ _ _ _ _ _
  split
  · exact delimited_text _ _ _ _ _ _
  split
  · exact delimited_text _ _ _ _ _ _
  split
  · exact ⟨_, rfl⟩
  · exact ⟨_, rfl⟩

/-- The text behind the first lexeme is shorter than the whole text. -/
theorem length_first_lt (c : Char) (cs : List Char) :
    (first c cs).2.length < (c :: cs).length := by
  obtain ⟨inner, htext⟩ := text_first c cs
  have happ := congrArg List.length (first_append c cs)
  simp only [htext, List.length_append, List.length_cons] at happ ⊢
  omega

/-! ## All lexemes -/

/-- The lexemes of a text, in order. -/
def all : List Char → List Lexeme
  | [] => []
  | c :: cs => (first c cs).1 :: all (first c cs).2
termination_by cs => cs.length
decreasing_by exact length_first_lt c cs

end Lexeme

namespace Token

/-- The tokens among lexemes of which the first starts at the byte `start`. -/
def ofLexemes (start : Nat) : List Lexeme → List Token
  | [] => []
  | l :: ls =>
    let stop := start + Text.byteLength l.text
    match l.role with
    | .token kind => ⟨kind, String.ofList l.text, ⟨start, stop⟩⟩ :: ofLexemes stop ls
    | _ => ofLexemes stop ls

/-- The tokens of a text whose first byte has the offset `start`. -/
def ofText (start : Nat) (cs : List Char) : List Token :=
  ofLexemes start (Lexeme.all cs)

/-- The tokens of a source, in order. -/
def ofSource (source : String) : List Token :=
  ofText 0 source.toList

end Token

end Railroad
