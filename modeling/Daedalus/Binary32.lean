/-! # Floating-point numbers

A 32-bit binary floating-point number, kept as its bit pattern, and its decimal text: the fewest
digits that read back as the same number, the nearest of those to it, in positional notation.

All arithmetic is exact. Magnitudes are counted in units of `2⁻¹⁵¹ · 10⁻⁴⁵`: quarters of the finest
binary step and the points of every decimal grid from `10⁻⁴⁵` on are whole numbers of units. -/

namespace Daedalus

/-- A floating-point number, given by its bit pattern. -/
structure Binary32 where
  /-- Sign, eight bits of exponent, twenty-three bits of fraction. -/
  bits : UInt32
  deriving DecidableEq, Repr

namespace Binary32

/-- Whether the sign bit is set. -/
def isNegative (x : Binary32) : Bool := 0x80000000 ≤ x.bits.toNat

/-- The biased exponent. -/
def exponent (x : Binary32) : Nat := x.bits.toNat / 0x800000 % 0x100

/-- The stored fraction. -/
def fraction (x : Binary32) : Nat := x.bits.toNat % 0x800000

/-- The significand: the fraction, with its leading bit where the number is normal. -/
def significand (x : Binary32) : Nat :=
  if x.exponent = 0 then x.fraction else 0x800000 + x.fraction

/-- How many binary places the last bit of the significand lies above that of the smallest number.
-/
def scale (x : Binary32) : Nat := x.exponent - 1

/-- A quarter of the last place of the significand, in units. -/
def quarter (x : Binary32) : Nat := Nat.pow 2 x.scale * Nat.pow 10 45

/-- The magnitude, in units. -/
def magnitude (x : Binary32) : Nat := 4 * x.significand * x.quarter

/-- The quarters of a place between the number and the lower end of the interval that rounds to it.
Below a power of two the numbers lie twice as close. -/
def lowerGap (x : Binary32) : Nat :=
  if x.fraction = 0 ∧ 1 < x.exponent then 1 else 2

/-- Whether a magnitude, in units, is rounded to the number. An end of the interval belongs to the
number with the even significand. -/
def rounds (x : Binary32) (units : Nat) : Bool :=
  let low := x.magnitude - x.lowerGap * x.quarter
  let high := x.magnitude + 2 * x.quarter
  if x.significand % 2 = 0 then low ≤ units && units ≤ high else low < units && units < high

/-- The distance of the points of the decimal grid `10 ^ (place - 45)`, in units. -/
def gridStep (place : Nat) : Nat := Nat.pow 2 151 * Nat.pow 10 place

/-- The point of a decimal grid that reads back as the number, as a multiple of the step; of two the
nearer one, and the larger one if they are equally near. -/
def onGrid? (x : Binary32) (place : Nat) : Option Nat :=
  let step := gridStep place
  let below := x.magnitude / step
  let excess := x.magnitude % step
  match x.rounds (below * step), x.rounds ((below + 1) * step) with
  | true, true => some (if 2 * excess < step then below else below + 1)
  | true, false => some below
  | false, true => some (below + 1)
  | false, false => none

/-- The digits of the shortest decimal and the place of its grid: the coarsest grid with a point
that reads back. -/
def shortest (x : Binary32) : Nat × Nat :=
  ((List.range 85).findSome? fun steps =>
    (x.onGrid? (84 - steps)).map (·, 84 - steps)).getD (0, 45)

/-- The number `digits · 10 ^ (place - 45)` in positional notation, without zeros at the end of the
fraction. -/
def positional (digits place : Nat) : String :=
  if 45 ≤ place then
    toString (digits * Nat.pow 10 (place - 45))
  else
    let unit := Nat.pow 10 (45 - place)
    let whole := digits / unit
    let padded := (toString (unit + digits % unit)).toList.drop 1
    let fraction := (padded.reverse.dropWhile (· == '0')).reverse
    if fraction.isEmpty then toString whole else toString whole ++ "." ++ String.ofList fraction

/-- The decimal text of a number. A number that is not finite is written by its name, and only NaN
has no sign. -/
def text (x : Binary32) : String :=
  if x.exponent = 255 ∧ x.fraction ≠ 0 then "NaN"
  else
    let size :=
      if x.exponent = 255 then "inf"
      else if x.significand = 0 then "0"
      else positional x.shortest.1 x.shortest.2
    if x.isNegative then "-" ++ size else size

end Binary32

end Daedalus
