import Railroad.FileTree
import Railroad.Rendering
import Railroad.Rule.Error
import Railroad.Text.Terminal

/-!
# Log records

What is told about a run beside its output.  Records have a level, and only those
up to some level are written.

Main definitions:

- Definition {lit}`Log.Record`: the records.
- Definition {lit}`Log.text`: the lines of the records up to a level.
-/

namespace Railroad

/-- Why a file gave no output. -/
inductive Failure where
  /-- It could not be read. -/
  | unreadable (path : String) (reason : ReadFailure)
  /-- It does not hold a rule. -/
  | rejected (path : String) (error : Rule.Error)
deriving DecidableEq, Repr, Inhabited

/-- The wording of a failure. -/
def Failure.message : Failure → String
  | unreadable path _ => "can't open file " ++ path
  | rejected path error => path ++ ": " ++ error.message

namespace Log

/-- How much a record matters. -/
inductive Level where
  | error
  | warning
  | detail
deriving DecidableEq, Repr, Inhabited

/-- The place of a level, from what matters most. -/
def Level.rank : Level → Nat
  | error => 0
  | warning => 1
  | detail => 2

/-- The written name of a level, set to five characters. -/
def Level.label : Level → String
  | error => "ERROR"
  | warning => " WARN"
  | detail => "DEBUG"

/-- Something that happened in a run. -/
inductive Record where
  /-- A file gave no output. -/
  | failed (failure : Failure)
  /-- A part of a tree was not rendered. -/
  | unrendered (diagnostic : Diagnostic)
  /-- A file had bytes that are no text. -/
  | repaired (path : String)
  /-- A rule was read from a file. -/
  | found (path rule : String)
  /-- A file holds no rule. -/
  | nothingFound (path : String)
  /-- All files have been dealt with. -/
  | finished (rendered skipped failures : Nat)
deriving DecidableEq, Repr, Inhabited

namespace Record

/-- The level of a record. -/
def level : Record → Level
  | failed _ => .error
  | unrendered _ => .error
  | repaired _ => .warning
  | found _ _ => .detail
  | nothingFound _ => .detail
  | finished _ _ _ => .detail

/-- The wording of a record.  What tells of an error is made harmless for terminals;
paths and names that only go with a record stay as they are. -/
def message : Record → String
  | failed failure => Text.harmless failure.message
  | unrendered diagnostic => Text.harmless diagnostic.message
  | repaired path => "input is not valid UTF-8, invalid bytes replaced path=" ++ path
  | found path rule => "translating path=" ++ path ++ " rule=" ++ rule
  | nothingFound path => "no rule found path=" ++ path
  | finished rendered skipped failures =>
    "done rendered=" ++ toString rendered ++ " skipped=" ++ toString skipped ++
      " failed=" ++ toString failures

/-- The line of a record. -/
def line (r : Record) : String :=
  r.level.label ++ " " ++ r.message ++ "\n"

end Record

/-- The records up to a level. -/
def upTo (level : Level) (records : List Record) : List Record :=
  records.filter fun r => r.level.rank ≤ level.rank

/-- The lines of the records up to a level. -/
def text (level : Level) (records : List Record) : String :=
  String.join ((upTo level records).map Record.line)

end Log

end Railroad
