/-!
# Shortest decimals

A finite floating-point number is a whole number of powers of two, so it is also a whole number of some power of ten, and so
are the ends of the interval of numbers that round to it. `shortest` looks for the fewest digits that name a number of that
interval: for one digit, two digits and so on it tries the two neighbours of the number on the grid of such decimals, and of
two hits takes the nearer.
-/

namespace Stencil.Decimal

/-- A decimal number: a coefficient times a power of ten. -/
structure Scaled where
  coefficient : Nat
  exponent : Int
deriving DecidableEq, Repr

/-- The interval of the numbers that round to a positive floating-point number, in units of `10 ^ -places`. -/
structure Interval where
  low : Nat
  value : Nat
  high : Nat
  /-- Whether both ends belong to the interval. -/
  closed : Bool
  places : Nat
deriving Repr

/-- The interval of the positive number with the given exponent and fraction bits. The spacing below a power of two is half
of that above it. -/
def Interval.ofBits (exponent fraction : Nat) : Interval :=
  let mantissa := if exponent = 0 then fraction else fraction + Nat.pow 2 52
  -- A quarter of the spacing is two to this power less 1077.
  let scale := if exponent = 0 then 1 else exponent
  let gapBelow := if fraction = 0 ∧ 1 < exponent then 1 else 2
  let places := 1077 - scale
  let unit := Nat.pow 2 (scale - 1077) * Nat.pow 5 places
  ⟨(4 * mantissa - gapBelow) * unit, 4 * mantissa * unit, (4 * mantissa + 2) * unit, mantissa % 2 == 0, places⟩

def Interval.contains (i : Interval) (n : Nat) : Bool :=
  if i.closed then i.low ≤ n && n ≤ i.high else i.low < n && n < i.high

/-- The multiple of `step` in the interval that is nearest to its value, if one of the two neighbours lies in it; an exact
tie goes to the even multiple. -/
def Interval.nearestMultiple? (i : Interval) (step : Nat) : Option Nat :=
  let below := i.value / step
  let above := below + 1
  let excess := 2 * (i.value % step)
  match i.contains (below * step), i.contains (above * step) with
  | true, true => some (if excess < step ∨ (excess = step ∧ below % 2 = 0) then below else above)
  | true, false => some below
  | false, true => some above
  | false, false => none

def digitCount (n : Nat) : Nat := (Nat.toDigits 10 n).length

/-- The decimal without zeros at the end of its coefficient. -/
def Scaled.normalize (d : Scaled) : Scaled :=
  let digits := Nat.toDigits 10 d.coefficient
  let zeros := (digits.reverse.takeWhile (· == '0')).length
  if d.coefficient = 0 then ⟨0, 0⟩ else ⟨d.coefficient / Nat.pow 10 zeros, d.exponent + zeros⟩

/-- The decimal of the fewest digits in the interval, at most seventeen, and the nearest to the value of those. -/
def Interval.shortest (i : Interval) : Scaled :=
  let length := digitCount i.value
  let hit? (digits : Nat) : Option Scaled :=
    let dropped := length - digits
    (i.nearestMultiple? (Nat.pow 10 dropped)).map fun c => ⟨c, (dropped : Int) - i.places⟩
  (((List.range 17).findSome? fun n => hit? (n + 1)).getD ⟨i.value, -(i.places : Int)⟩).normalize

/-- The sign and the shortest decimal of a finite floating-point number. -/
def shortest (x : Float) : Bool × Scaled :=
  let bits := x.toBits.toNat
  let exponent := bits / Nat.pow 2 52 % Nat.pow 2 11
  let fraction := bits % Nat.pow 2 52
  (Nat.pow 2 63 ≤ bits, if exponent = 0 ∧ fraction = 0 then ⟨0, 0⟩ else (Interval.ofBits exponent fraction).shortest)

end Stencil.Decimal
