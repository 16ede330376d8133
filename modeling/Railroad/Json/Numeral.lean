import Railroad.Decimal.Shortest
import Railroad.Json.Error
import Railroad.Json.Rest

/-!
# Numbers in JSON text

A number is read in two steps: its characters are taken apart, and then the parts
are given a value.  Whole numbers are kept exactly as long as they fit into 64
bits; every other number becomes a binary number of 64 bits.

Main definitions:

- Definition {lit}`Json.Numeral.scan`: taking a number apart.
- Definition {lit}`Json.Numeral.value`: the value of the parts.
-/

namespace Railroad.Json

/-- The parts of a written number: its sign, the digits in front of the point, the
digits behind it, and the sign and digits of the power of ten. -/
structure Numeral where
  negative : Bool
  whole : List Char
  fraction : Option (List Char)
  exponent : Option (Bool × List Char)
deriving DecidableEq, Repr, Inhabited

/-- A value that a written number can have. -/
inductive NumberValue where
  /-- A number from zero up that fits into 64 bits. -/
  | natural (n : Nat)
  /-- A number below zero that fits into 64 bits. -/
  | negative (n : Int)
  /-- Any other number. -/
  | real (x : Float)

namespace Numeral

/-! ## Taking a number apart -/

/-- The digits in front of a text, at least one, and the text behind them. -/
def digits (s : List Char) : Except Error (List Char × Rest s) :=
  match h : s.takeWhile Char.isDigit with
  | [] => .error (if s.isEmpty then .cutOff else .malformed)
  | d :: ds => .ok (d :: ds, ⟨s.dropWhile Char.isDigit, by
      have hlength := congrArg List.length
        (List.takeWhile_append_dropWhile (p := Char.isDigit) (l := s))
      rw [h, List.length_append, List.length_cons] at hlength
      omega⟩)

/-- The digits in front of the point.  A zero stands alone. -/
def wholePart (s : List Char) : Except Error (List Char × Rest s) := do
  let (ds, r) ← digits s
  match ds with
  | '0' :: _ :: _ => throw .malformed
  | _ => return (ds, r)

/-- The digits behind a point, if there is one. -/
def fractionPart (s : List Char) : Except Error (Option (List Char) × Tail s) :=
  match s with
  | [] => .ok (none, .whole [])
  | c :: r =>
    if c = '.' then do
      let (ds, r₁) ← digits r
      return (some ds, (r₁.tail.behind c).tail)
    else
      .ok (none, .whole (c :: r))

/-- The sign of a power of ten, if there is one, and the text behind it. -/
def exponentSign (s : List Char) : Bool × Tail s :=
  match s with
  | [] => (false, .whole [])
  | c :: r =>
    if c = '-' then (true, ((Tail.whole r).behind c).tail)
    else if c = '+' then (false, ((Tail.whole r).behind c).tail)
    else (false, .whole (c :: r))

/-- The power of ten, if there is one. -/
def exponentPart (s : List Char) : Except Error (Option (Bool × List Char) × Tail s) :=
  match s with
  | [] => .ok (none, .whole [])
  | c :: r =>
    if c = 'e' ∨ c = 'E' then do
      let (negative, r₁) := exponentSign r
      let (ds, r₂) ← digits r₁.1
      return (some (negative, ds), ((r₁.after r₂).tail.behind c).tail)
    else
      .ok (none, .whole (c :: r))

/-- The parts behind the sign. -/
def unsigned (negative : Bool) (s : List Char) : Except Error (Numeral × Rest s) := do
  let (whole, r₁) ← wholePart s
  let (fraction, r₂) ← fractionPart r₁.1
  let (exponent, r₃) ← exponentPart r₂.1
  return (⟨negative, whole, fraction, exponent⟩, r₁.after ⟨r₃.1, Nat.le_trans r₃.2 r₂.2⟩)

/-- Takes the number apart that begins with `c`, a digit or a minus sign. -/
def scan (c : Char) (cs : List Char) : Except Error (Numeral × Rest (c :: cs)) :=
  if c = '-' then do
    let (numeral, r) ← unsigned true cs
    return (numeral, r.tail.behind c)
  else
    unsigned false (c :: cs)

/-! ## The value of the parts -/

/-- The number that digits stand for. -/
def natOf (ds : List Char) : Nat :=
  Nat.ofDigitChars 10 ds 0

/-- Adds digits behind those of `n` as long as the result stays below `bound`, and
tells which digits are left. -/
def absorb (bound n : Nat) : List Char → Nat × List Char
  | [] => (n, [])
  | d :: ds =>
    let n' := n * 10 + (d.toNat - '0'.toNat)
    if n' < bound then absorb bound n' ds else (n, d :: ds)

/-- A power of ten, for exponents up to 308. -/
def powerOfTen (n : Nat) : Float :=
  Float.ofScientific 1 false n

/-- A number divided by a power of ten, in steps that stay in range. -/
def divideByPower (x : Float) (n : Nat) : Float :=
  if n ≤ 308 then x / powerOfTen n
  else if x == 0 then x
  else divideByPower (x / powerOfTen 308) (n - 308)
termination_by n

/-- A number times a power of ten.  There is none when it is out of range. -/
def timesPower? (x : Float) (n : Nat) : Option Float :=
  if n ≤ 308 then
    let y := x * powerOfTen n
    if y.isInf then none else some y
  else if x == 0 then some x
  else none

/-- The binary number with the given significant digits and power of ten. -/
def realOf (significand : Nat) (exponent : Int) : Except Error Float :=
  let x := significand.toUInt64.toFloat
  if 0 ≤ exponent then
    match timesPower? x exponent.toNat with
    | some y => .ok y
    | none => .error .malformed
  else
    .ok (divideByPower x (-exponent).toNat)

/-- The binary number that the parts stand for, without the sign.  Digits that do
not fit into 64 bits any more only count for their places, and a power of ten that
does not fit into 32 bits is beyond all bounds. -/
def magnitude (n : Numeral) : Except Error Float :=
  let (significand, left) := absorb (1 <<< 64) 0 n.whole
  let fraction := n.fraction.getD []
  let (significand, unread) := absorb (1 <<< 64) significand fraction
  let places : Int := left.length - (fraction.length - unread.length)
  match n.exponent with
  | none => realOf significand places
  | some (negative, ds) =>
    let power := natOf ds
    if power < 1 <<< 31 then
      realOf significand (if negative then places - power else places + power)
    else if significand ≠ 0 ∧ !negative then .error .malformed
    else .ok 0.0

/-- The value of a written number. -/
def value (n : Numeral) : Except Error NumberValue :=
  let whole := natOf n.whole
  if n.fraction.isNone ∧ n.exponent.isNone ∧ whole < 1 <<< 64 ∧ !n.negative then
    .ok (.natural whole)
  else if n.fraction.isNone ∧ n.exponent.isNone ∧ 0 < whole ∧ whole ≤ 1 <<< 63 ∧ n.negative then
    .ok (.negative (-whole))
  else do
    let x ← n.magnitude
    return .real (if n.negative then -x else x)

end Numeral

/-! ## Binary numbers in messages -/

/-- A power of ten behind the digits that it counts for, always with its sign. -/
def powerText (e : Int) : List Char :=
  'e' :: (if 0 ≤ e then '+' else '-') :: Nat.toDigits 10 e.natAbs

/-- The text of a positive number with the digits `ds`, the last of which counts
`10 ^ p`.  Between a hundred-thousandth and ten to the sixteenth it is written
without a power of ten. -/
def positionalText (ds : List Char) (p : Int) : List Char :=
  let point : Int := ds.length + p
  if 0 ≤ p ∧ point ≤ 16 then
    ds ++ List.replicate p.toNat '0' ++ ['.', '0']
  else if 0 < point ∧ point ≤ 16 then
    ds.take point.toNat ++ '.' :: ds.drop point.toNat
  else if -5 < point ∧ point ≤ 0 then
    ['0', '.'] ++ List.replicate (-point).toNat '0' ++ ds
  else
    let leading := match ds with
      | d :: e :: es => d :: '.' :: e :: es
      | _ => ds
    leading ++ powerText (point - 1)

/-- A binary number as messages show it. -/
def realText (x : Float) : String :=
  let bits := x.toBits.toNat
  let sign := if (bits >>> 63) % 2 = 1 then ['-'] else []
  if bits % (1 <<< 63) = 0 then
    String.ofList (sign ++ ['0', '.', '0'])
  else
    let (k, p) := Decimal.shortest (Decimal.Binary.ofBits bits)
    String.ofList (sign ++ positionalText (Nat.toDigits 10 k) p)

/-- What a number is when something else is wanted. -/
def NumberValue.found : NumberValue → Found
  | natural n => .integer n
  | negative n => .integer n
  | real x => .real (realText x)

end Railroad.Json
