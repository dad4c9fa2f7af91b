import Stencil.Decimal.Layout

/-!
# Numbers

Template data holds whole numbers and floating-point numbers, and tells them apart: the whole number one and the
floating-point number one differ, and are written as `1` and `1.0`.
-/

namespace Stencil

/-- A number in template data. -/
inductive Number where
  | int (value : Int)
  | float (value : Float)
deriving Inhabited

namespace Number

/-- Floating-point numbers are written without an exponent from a hundred-thousandth up to below ten to the sixteenth, and
always with a point there; beyond, with an exponent that has a sign. -/
def floatLayout : Decimal.Layout where
  least := -5
  greatest := 15
  mark := 'e'
  plus := ['+']

def text : Number → String
  | int n => toString n
  | float x =>
    let (negative, decimal) := Decimal.shortest x
    floatLayout.text negative decimal

/-- Equality of numbers; the two zeros are equal, and no whole number equals a floating-point number. -/
protected def beq : Number → Number → Bool
  | int a, int b => a == b
  | float a, float b => a == b
  | _, _ => false

instance : BEq Number := ⟨Number.beq⟩

end Number
end Stencil
