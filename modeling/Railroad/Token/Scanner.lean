import Railroad.Token.Lexeme

/-!
# Reading tokens one at a time

A scanner stands somewhere in a source text.  It can take the next token, or
look at it without taking it.  A token that was looked at is kept, since the
text behind it has then been passed already.

Main definitions:

- Definition {lit}`Scanner.next`: takes the next token.
- Definition {lit}`Scanner.peek`: looks at it.
-/

namespace Railroad

/-- A place in a source text.

`ahead` is the outcome of the last look: {lit}`none` when there was no look since
the last token was taken, {lit}`some none` when the look met the end. -/
structure Scanner where
  source : String
  unread : List Char
  offset : Nat
  ahead : Option (Option Token)
deriving DecidableEq, Repr, Inhabited

namespace Scanner

/-- The scanner in front of a source text. -/
def ofSource (source : String) : Scanner :=
  ⟨source, source.toList, 0, none⟩

/-- The first token of a text that starts at the byte `start`, and the text
behind it.  Blanks and comments in front of it are passed over. -/
def find? (start : Nat) : List Char → Option (Token × List Char)
  | [] => none
  | c :: cs =>
    let stop := start + Text.byteLength (Lexeme.first c cs).1.text
    match (Lexeme.first c cs).1.role with
    | .token kind =>
      some (⟨kind, String.ofList (Lexeme.first c cs).1.text, ⟨start, stop⟩⟩, (Lexeme.first c cs).2)
    | _ => find? stop (Lexeme.first c cs).2
termination_by cs => cs.length
decreasing_by exact Lexeme.length_first_lt c cs

/-- Takes the next token. -/
def next (s : Scanner) : Option Token × Scanner :=
  match s.ahead with
  | some token => (token, { s with ahead := none })
  | none =>
    match find? s.offset s.unread with
    | some (token, rest) => (some token, { s with unread := rest, offset := token.span.stop })
    | none => (none, { s with unread := [], offset := s.offset + Text.byteLength s.unread })

/-- Looks at the next token without taking it. -/
def peek (s : Scanner) : Option Token × Scanner :=
  match s.ahead with
  | some token => (token, s)
  | none => (s.next.1, { s.next.2 with ahead := some s.next.1 })

/-- The part of the source that a span names. -/
def slice? (s : Scanner) (span : Span) : Option String :=
  (Text.slice? s.source.toList span).map String.ofList

end Scanner

end Railroad
