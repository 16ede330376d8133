import Railroad.Text.Printable

/-!
# Quoting for messages

A text is shown in a message between quotes, on one line, with every character
visible: what would not show is written as an escape.

Main definitions:

- Definition {lit}`Text.quoted`: a text as messages show it.
-/

namespace Railroad.Text

/-- A character by its number, in lower case hexadecimal digits between braces. -/
def numericEscape (c : Char) : List Char :=
  ['\\', 'u', '\x7b'] ++ Nat.toDigits 16 c.toNat ++ ['\x7d']

/-- How a quoted text shows a character. -/
def shown : Char → List Char
  | '\x00' => ['\\', '0']
  | '\t' => ['\\', 't']
  | '\r' => ['\\', 'r']
  | '\n' => ['\\', 'n']
  | '\\' => ['\\', '\\']
  | '"' => ['\\', '"']
  | c => if isVisible c then [c] else numericEscape c

/-- A text as messages show it. -/
def quoted (s : String) : String :=
  String.ofList ('"' :: (s.toList.flatMap shown ++ ['"']))

end Railroad.Text
