import Railroad.Span

/-!
# What can be wrong with the text of a rule

Reading a rule stops at the first fault.  Each fault has a cause and a place.

Main definitions:

- Definition {lit}`Rule.Error`: the causes.
- Definition {lit}`Rule.Error.message`: the wording.
-/

namespace Railroad

/-- Why a text is not a rule. -/
inductive Rule.Error where
  /-- Another token stands where something was expected. -/
  | unexpectedToken (expected found : String) (span : Span)
  /-- The text ends where something was expected. -/
  | unexpectedEnd (expected : String) (span : Span)
  /-- The delimiter that the span covers is never closed. -/
  | unclosedDelimiter (delimiter : Char) (span : Span)
  /-- The characters are no token. -/
  | invalidToken (value : String) (span : Span)
  /-- An alternation has an empty branch where none may be. -/
  | emptyAlternative (span : Span)
  /-- More than `limit` groups and loops stand above each other. -/
  | tooDeep (limit : Nat) (span : Span)
deriving DecidableEq, Repr, Inhabited

namespace Rule.Error

/-- Where the fault is. -/
def span : Rule.Error → Span
  | unexpectedToken _ _ span => span
  | unexpectedEnd _ span => span
  | unclosedDelimiter _ span => span
  | invalidToken _ span => span
  | emptyAlternative span => span
  | tooDeep _ span => span

/-- The same fault in a text that stands `k` bytes further back. -/
def shift (k : Nat) : Rule.Error → Rule.Error
  | unexpectedToken expected found span => unexpectedToken expected found (span.shift k)
  | unexpectedEnd expected span => unexpectedEnd expected (span.shift k)
  | unclosedDelimiter delimiter span => unclosedDelimiter delimiter (span.shift k)
  | invalidToken value span => invalidToken value (span.shift k)
  | emptyAlternative span => emptyAlternative (span.shift k)
  | tooDeep limit span => tooDeep limit (span.shift k)

/-- The wording of a fault. -/
def message : Rule.Error → String
  | unexpectedToken expected found span =>
    "expected " ++ expected ++ ", found " ++ found ++ " at " ++ span.text
  | unexpectedEnd expected span =>
    "unexpected end of input at " ++ span.text ++ ", expected " ++ expected
  | unclosedDelimiter delimiter span =>
    "unclosed delimiter '" ++ delimiter.toString ++ "' opened at " ++ span.text
  | invalidToken value span =>
    "invalid token '" ++ value ++ "' at " ++ span.text
  | emptyAlternative span =>
    "empty alternative at " ++ span.text
  | tooDeep limit span =>
    "groups and loops nested deeper than " ++ toString limit ++ " at " ++ span.text

end Rule.Error

end Railroad
