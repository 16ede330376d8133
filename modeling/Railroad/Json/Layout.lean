/-!
# JSON text

How strings, lists and objects are written.  There are two layouts: all on one
line without blanks, or every member and element on a line of its own, indented
by two blanks for each list or object around it.

Main definitions:

- Definition {lit}`Json.quote`: a string as JSON text.
- Definitions {lit}`Json.list` and {lit}`Json.object`: written parts put together.
-/

namespace Railroad.Json

/-! ## Strings -/

/-- The hexadecimal digit, in lower case, of a number below sixteen. -/
def hexDigit (n : Nat) : Char :=
  Nat.digitChar n

/-- How a character is written inside of a JSON string.  Everything but quotes,
backslashes and control characters stands for itself. -/
def escape (c : Char) : List Char :=
  if c = '"' then ['\\', '"']
  else if c = '\\' then ['\\', '\\']
  else if c = '\n' then ['\\', 'n']
  else if c = '\r' then ['\\', 'r']
  else if c = '\t' then ['\\', 't']
  else if c = '\x08' then ['\\', 'b']
  else if c = '\x0c' then ['\\', 'f']
  else if c.toNat < 0x20 then
    ['\\', 'u', '0', '0', hexDigit (c.toNat / 16), hexDigit (c.toNat % 16)]
  else [c]

/-- A string as JSON text. -/
def quote (s : String) : List Char :=
  '"' :: (s.toList.flatMap escape ++ ['"'])

/-! ## Lists and objects -/

/-- How the parts of a list or an object are set apart. -/
inductive Layout where
  | compact
  | pretty
deriving DecidableEq, Repr, Inhabited

/-- What stands in front of a part that is inside of `level` lists and objects. -/
def Layout.lineBreak : Layout → (level : Nat) → List Char
  | compact, _ => []
  | pretty, level => '\n' :: List.replicate (2 * level) ' '

/-- What stands between the name of a member and its value. -/
def Layout.colon : Layout → List Char
  | compact => [':']
  | pretty => [':', ' ']

/-- Parts behind the first one, each with a comma in front of it. -/
def restOf (layout : Layout) (level : Nat) (parts : List (List Char)) : List Char :=
  parts.flatMap fun part => ',' :: (layout.lineBreak level ++ part)

/-- Parts between two brackets, where `level` lists and objects stand around. -/
def enclose (layout : Layout) (level : Nat) (opening closing : Char) :
    List (List Char) → List Char
  | [] => [opening, closing]
  | part :: parts =>
    opening :: (layout.lineBreak (level + 1) ++ part ++ restOf layout (level + 1) parts ++
      layout.lineBreak level ++ [closing])

/-- A list of written elements. -/
def list (layout : Layout) (level : Nat) (elements : List (List Char)) : List Char :=
  enclose layout level '[' ']' elements

/-- A member of an object. -/
def member (layout : Layout) (name : String) (value : List Char) : List Char :=
  quote name ++ layout.colon ++ value

/-- An object of written members. -/
def object (layout : Layout) (level : Nat) (members : List (List Char)) : List Char :=
  enclose layout level '\x7b' '\x7d' members

/-- A natural number as JSON text. -/
def number (n : Nat) : List Char :=
  Nat.toDigits 10 n

end Railroad.Json
