/-!
# Reading decimals

A decimal text as the nearest floating-point number: an optional sign, digits with at most one point among or beside them, and
an optional exponent; or a name for infinity or for what is no number.
-/

namespace Stencil.Decimal

def natOfDigits (digits : List Char) : Nat := digits.foldl (fun n c => n * 10 + (c.toNat - '0'.toNat)) 0

def takeSign : List Char → Bool × List Char
  | '-' :: s => (true, s)
  | '+' :: s => (false, s)
  | s => (false, s)

def exponent? : List Char → Option Int
  | [] => some 0
  | mark :: s =>
    let (negative, digits) := takeSign s
    if (mark == 'e' || mark == 'E') && !digits.isEmpty && digits.all Char.isDigit then
      let n := natOfDigits digits
      some (if negative then -(n : Int) else n)
    else none

def readMagnitude (s : List Char) : Option Float :=
  match String.ofList (s.map Char.toLower) with
  | "inf" | "infinity" => some (1 / 0)
  | "nan" => some (0 / 0)
  | _ =>
    let whole := s.takeWhile Char.isDigit
    let (fraction, rest) := match s.dropWhile Char.isDigit with
      | '.' :: t => (t.takeWhile Char.isDigit, t.dropWhile Char.isDigit)
      | t => ([], t)
    if whole.isEmpty && fraction.isEmpty then none
    else (exponent? rest).map fun (e : Int) =>
      let power : Int := e - fraction.length
      Float.ofScientific (natOfDigits (whole ++ fraction)) (power < 0) power.natAbs

def read (text : String) : Option Float :=
  let (negative, s) := takeSign text.toList
  (readMagnitude s).map fun x => if negative then -x else x

end Stencil.Decimal
