import Stencil.Decimal.Shortest

/-!
# Decimals as text

How the digits of a decimal are laid out: with a point among or beside them while the power of ten of the first digit is
moderate, and otherwise with one digit in front of the point and an exponent.
-/

namespace Stencil.Decimal

/-- The choices of a notation. -/
structure Layout where
  /-- The least power of ten of a first digit that is written without an exponent. -/
  least : Int
  /-- The greatest such power. -/
  greatest : Int
  /-- What stands for "times ten to the". -/
  mark : Char
  /-- What stands in front of an exponent that is not negative. -/
  plus : List Char
deriving Repr

/-- The digits with a point in their place; `whole` is how many of them come before it. There is always a digit on either
side of the point. -/
def positional (digits : List Char) (whole : Int) : List Char :=
  if whole ≤ 0 then '0' :: '.' :: List.replicate (-whole).toNat '0' ++ digits
  else
    let n := whole.toNat
    let padded := digits ++ List.replicate (n - digits.length) '0'
    let fraction := padded.drop n
    padded.take n ++ '.' :: (if fraction.isEmpty then ['0'] else fraction)

/-- The digits with one of them in front of the point, if there is another, and an exponent. -/
def Layout.scientific (layout : Layout) (digits : List Char) (power : Int) : List Char :=
  let mantissa := match digits with
    | first :: second :: more => first :: '.' :: second :: more
    | _ => digits
  let sign := if power < 0 then ['-'] else layout.plus
  mantissa ++ layout.mark :: sign ++ Nat.toDigits 10 power.natAbs

def Layout.text (layout : Layout) (negative : Bool) (d : Scaled) : String :=
  let digits := Nat.toDigits 10 d.coefficient
  let whole := digits.length + d.exponent
  let power := whole - 1
  let body :=
    if layout.least ≤ power ∧ power ≤ layout.greatest then positional digits whole else layout.scientific digits power
  String.ofList (if negative then '-' :: body else body)

end Stencil.Decimal
