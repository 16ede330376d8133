import Railroad.Text.Slice

/-!
# Tokens of the rule notation

A rule is written with names, quoted terminals, bracketed annotations and six
punctuation marks.  A delimiter that is opened and never closed is a token too,
so that the text of every token can be shown to the writer of the rule.

Main definitions:

- Definition {lit}`Token.Kind`: the kinds of tokens, with their names in messages.
- Definition {lit}`Token`: a kind with its text and its place in the source.
-/

namespace Railroad

/-- What a token is.  The last four kinds stand only in faulty texts: three lone
openers with nothing readable behind them, and everything else that is no token. -/
inductive Token.Kind where
  | identifier
  | terminal
  | remark
  | colon
  | semicolon
  | bar
  | plus
  | openParen
  | closeParen
  | openBracket
  | singleQuote
  | doubleQuote
  | malformed
deriving DecidableEq, Repr, Inhabited

/-- The name of a kind of token in messages. -/
def Token.Kind.text : Token.Kind → String
  | .identifier => "identifier"
  | .terminal => "terminal"
  | .remark => "annotation"
  | .colon => "':'"
  | .semicolon => "';'"
  | .bar => "'|'"
  | .plus => "'+'"
  | .openParen => "'('"
  | .closeParen => "')'"
  | .openBracket => "'['"
  | .singleQuote => "'''"
  | .doubleQuote => "'\"'"
  | .malformed => "error"

/-- A piece of a source text that means something in a rule: its kind, its
characters, and the bytes of the source that it covers. -/
structure Token where
  kind : Token.Kind
  text : String
  span : Span
deriving DecidableEq, Repr, Inhabited

/-- The same token in a text that stands `k` bytes further back. -/
def Token.shift (k : Nat) (t : Token) : Token :=
  { t with span := t.span.shift k }

end Railroad
