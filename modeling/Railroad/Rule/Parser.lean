import Railroad.Rule.Reading
import Railroad.Token.Lexeme

/-!
# Parsing rules

A source holds one rule.  A parser can nevertheless be asked again: it then goes
on with the tokens that it has not read.

Main definitions:

- Definition {lit}`Rule.Parser.next`: the rule in front of a parser.
- Definition {lit}`Rule.parse`: the rule of a source.
-/

namespace Railroad.Rule

/-- The tokens that are still to be read, and the byte length of the source. -/
structure Parser where
  size : Nat
  tokens : List Token
deriving DecidableEq, Repr, Inhabited

namespace Parser

/-- The parser in front of a source. -/
def ofSource (source : String) : Parser :=
  ⟨Text.byteLength source.toList, Token.ofSource source⟩

/-- Reads the rule that makes up everything that is left, and moves on. -/
def next (p : Parser) : Except Rule.Error (Option Rule) × Parser :=
  let (outcome, rest) := Reading.start.run p.size p.tokens
  (outcome, { p with tokens := rest })

/-- The outcomes of asking a parser `n` times. -/
def outcomes : Nat → Parser → List (Except Rule.Error (Option Rule))
  | 0, _ => []
  | n + 1, p => p.next.1 :: outcomes n p.next.2

end Parser

/-- The rule that makes up a source, or none if the source has no tokens. -/
def parse (source : String) : Except Rule.Error (Option Rule) :=
  (Parser.ofSource source).next.1

end Railroad.Rule
