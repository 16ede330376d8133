/-!
# UTF-8

Texts as bytes, and bytes as texts.  Bytes that are no UTF-8 are no reason to give
up: each longest piece that could have begun a character, and each byte that cannot
begin one, counts as one unreadable piece.

Main definitions:

- Definition {lit}`Text.utf8`: the bytes of a text.
- Definition {lit}`Text.decode`: the characters and unreadable pieces of bytes.
- Definition {lit}`Text.lossy`: a text with a mark for every unreadable piece.
-/

namespace Railroad.Text

/-- The bytes of a text. -/
def utf8 (s : String) : List UInt8 :=
  s.toList.flatMap String.utf8EncodeChar

/-- A character of which not all bytes have been read: the bits so far, the range
of the next byte, and how many bytes follow that one. -/
structure Partial where
  bits : Nat
  low : Nat
  high : Nat
  more : Nat
deriving DecidableEq, Repr, Inhabited

/-- The character that a first byte begins.  The range of the second byte leaves out
spellings that are too long, halves of pairs, and numbers that are too great. -/
def lead? (b : Nat) : Option Partial :=
  if 0xc2 ≤ b ∧ b ≤ 0xdf then some ⟨b - 0xc0, 0x80, 0xbf, 0⟩
  else if b = 0xe0 then some ⟨0, 0xa0, 0xbf, 1⟩
  else if b = 0xed then some ⟨0xd, 0x80, 0x9f, 1⟩
  else if 0xe1 ≤ b ∧ b ≤ 0xef then some ⟨b - 0xe0, 0x80, 0xbf, 1⟩
  else if b = 0xf0 then some ⟨0, 0x90, 0xbf, 2⟩
  else if 0xf1 ≤ b ∧ b ≤ 0xf3 then some ⟨b - 0xf0, 0x80, 0xbf, 2⟩
  else if b = 0xf4 then some ⟨4, 0x80, 0x8f, 2⟩
  else none

/-- The effect of a byte where no character has been begun: the characters that it
completes, and the one that it begins. -/
def beginChar (b : Nat) : List (Option Char) × Option Partial :=
  if b < 0x80 then ([some (Char.ofNat b)], none)
  else
    match lead? b with
    | some p => ([], some p)
    | none => ([none], none)

/-- The effect of a byte on a character that has been begun.  A byte that does not
continue the character leaves an unreadable piece behind and begins anew. -/
def continueChar (p : Partial) (b : Nat) : List (Option Char) × Option Partial :=
  if p.low ≤ b ∧ b ≤ p.high then
    let bits := p.bits * 64 + (b - 0x80)
    match p.more with
    | 0 => ([some (Char.ofNat bits)], none)
    | more + 1 => ([], some ⟨bits, 0x80, 0xbf, more⟩)
  else
    let (chars, begun) := beginChar b
    (none :: chars, begun)

/-- The characters of bytes behind a character that may have been begun, with
`none` for every unreadable piece. -/
def decodeFrom (begun : Option Partial) : List UInt8 → List (Option Char)
  | [] => if begun.isSome then [none] else []
  | b :: bs =>
    let (chars, begun) := match begun with
      | some p => continueChar p b.toNat
      | none => beginChar b.toNat
    chars ++ decodeFrom begun bs

/-- The characters of bytes, with `none` for every unreadable piece. -/
def decode (bytes : List UInt8) : List (Option Char) :=
  decodeFrom none bytes

/-- Whether bytes have no unreadable piece. -/
def isUtf8 (bytes : List UInt8) : Bool :=
  (decode bytes).all Option.isSome

/-- The text of bytes, with U+FFFD for every unreadable piece. -/
def lossy (bytes : List UInt8) : String :=
  String.ofList ((decode bytes).map fun c => c.getD '\ufffd')

end Railroad.Text
