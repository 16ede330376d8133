import Railroad.Token.Scanner

/-!
# Requests to a scanner

A scanner is asked for tokens, for its source and for parts of the source, in any order and
as often as one likes.

Main definitions:

- Definition {lit}`Scanner.Request`: what a scanner can be asked for.
- Definition {lit}`Scanner.answers`: the answers to requests, one after the other.
-/

namespace Railroad.Scanner

/-- What a scanner can be asked for. -/
inductive Request where
  /-- The next token, which is taken. -/
  | next
  /-- The next token, which is only looked at. -/
  | peek
  /-- The whole source. -/
  | source
  /-- The part of the source that a span names. -/
  | slice (span : Span)
deriving DecidableEq, Repr, Inhabited

/-- What a scanner answers. -/
inductive Answer where
  /-- A token, or none at the end of the source. -/
  | token (token : Option Token)
  | source (text : String)
  /-- A part of the source, unless the span names none. -/
  | slice (text : Option String)
deriving DecidableEq, Repr, Inhabited

/-- Answers a request, and moves on if a token is taken. -/
def answer (s : Scanner) : Request → Answer × Scanner
  | .next => (.token s.next.1, s.next.2)
  | .peek => (.token s.peek.1, s.peek.2)
  | .source => (.source s.source, s)
  | .slice span => (.slice (s.slice? span), s)

/-- Answers requests one after the other. -/
def answers (s : Scanner) : List Request → List Answer
  | [] => []
  | request :: requests => (s.answer request).1 :: answers (s.answer request).2 requests

end Railroad.Scanner
