/-!
# Texts for a terminal

Some controls steer the terminal that shows a text: they ring, erase or begin a
command.  A text is made harmless by writing these as escapes.  Line ends and the
other controls stay.

Main definitions:

- Definition {lit}`Text.harmless`: a text without controls that steer a terminal.
-/

namespace Railroad.Text

/-- Whether a character is one of the controls above ASCII. -/
def isHighControl (c : Char) : Bool :=
  0x80 ≤ c.toNat && c.toNat ≤ 0x9f

/-- Whether a character steers a terminal: bell, backspace, form feed, escape,
delete, or a control above ASCII. -/
def isSteering (c : Char) : Bool :=
  c == '\x07' || c == '\x08' || c == '\x0c' || c == '\x1b' || c == '\x7f' || isHighControl c

/-- The hexadecimal digits of a number below 256, always two. -/
def twoDigits (n : Nat) : List Char :=
  [Nat.digitChar (n / 16), Nat.digitChar (n % 16)]

/-- A character by its number, above ASCII between braces. -/
def steeringEscape (c : Char) : List Char :=
  if isHighControl c then ['\\', 'u', '\x7b'] ++ twoDigits c.toNat ++ ['\x7d']
  else ['\\', 'x'] ++ twoDigits c.toNat

/-- A text in which escapes stand for the controls that steer a terminal. -/
def harmless (s : String) : String :=
  String.ofList (s.toList.flatMap fun c => if isSteering c then steeringEscape c else [c])

end Railroad.Text
