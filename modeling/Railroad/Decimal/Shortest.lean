/-!
# Shortest decimal digits

Among the decimal numbers that are read back as a given binary number, the one
with the fewest digits.  All steps are exact, on fractions of natural numbers.

Main definitions:

- Definition {lit}`Decimal.Binary`: a positive binary number with the width of
  its neighbourhood.
- Definition {lit}`Decimal.shortest`: its digits and their power of ten.
-/

namespace Railroad.Decimal

/-- The positive number `mantissa · 2 ^ exponent`.  The numbers that are read back
as it reach half of a unit of the mantissa upwards, and downwards half of a unit
or, when the next smaller number is nearer, a quarter. -/
structure Binary where
  mantissa : Nat
  exponent : Int
  nearBelow : Bool
deriving DecidableEq, Repr, Inhabited

/-- The value of a positive finite number of 64 bits. -/
def Binary.ofBits (bits : Nat) : Binary :=
  let fraction : Nat := bits % (1 <<< 52)
  let field : Nat := (bits >>> 52) % (1 <<< 11)
  if field = 0 then
    ⟨fraction, -1074, false⟩
  else
    ⟨1 <<< 52 + fraction, (field : Int) - 1075, fraction == 0 && field > 1⟩

/-- A power of `base` as numerator and denominator. -/
def power (base : Nat) (e : Int) : Nat × Nat :=
  if 0 ≤ e then (base.pow e.toNat, 1) else (1, base.pow (-e).toNat)

/-- The multiple of `10 ^ p` next to a binary number that is read back as it, as
the factor of `10 ^ p`.  Of two such multiples the nearer one counts, and of two
equally near ones the even one. -/
def onGrid? (b : Binary) (p : Int) : Option Nat :=
  let (n, d) := power 2 (b.exponent - 2)
  let (pn, pd) := power 10 p
  let value := 4 * b.mantissa * n * pd
  let low := (4 * b.mantissa - (if b.nearBelow then 1 else 2)) * n * pd
  let high := (4 * b.mantissa + 2) * n * pd
  let unit := pn * d
  let isRead (k : Nat) : Bool :=
    k != 0 &&
      (if b.mantissa % 2 = 0 then low ≤ k * unit && k * unit ≤ high
      else low < k * unit && k * unit < high)
  let below := value / unit
  let above := below + 1
  let gapBelow := value - below * unit
  let gapAbove := above * unit - value
  let belowFirst := gapBelow < gapAbove || (gapBelow == gapAbove && below % 2 == 0)
  if belowFirst then
    if isRead below then some below else if isRead above then some above else none
  else
    if isRead above then some above else if isRead below then some below else none

/-- The shortest digits of a binary number of 64 bits, and the power of ten of the
last one.  The coarsest grid of decimal numbers is tried first. -/
def shortest (b : Binary) : Nat × Int :=
  let grids := (List.range 650).map fun (i : Nat) => (310 : Int) - i
  match grids.findSome? fun p => (onGrid? b p).map fun k => (k, p) with
  | some digits => digits
  | none => (0, 0)

end Railroad.Decimal
