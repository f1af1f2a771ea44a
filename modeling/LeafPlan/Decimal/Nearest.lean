import LeafPlan.Decimal.Shortest

/-!
# Nearest numbers

A decimal stands for the floating point number nearest to it. Beyond the range of floating point
numbers that is infinity, and below it zero.
-/

namespace LeafPlan

namespace Decimal

def nearest (d : Decimal) : Float :=
  let leading := d.exponent + d.digits.log2
  if d.digits = 0 then 0
  else if 400 < d.exponent then 1.0 / 0.0
  else if leading < -2000 then 0
  else if 0 ≤ d.exponent then Float.ofScientific d.digits false d.exponent.toNat
  else Float.ofScientific d.digits true d.exponent.natAbs

def digitValue (c : Char) : Nat := c.toNat - '0'.toNat

def ofDigits (digits : List Char) : Nat := digits.foldl (fun n c => n * 10 + digitValue c) 0

def exponent? : List Char → Option Int
  | '-' :: digits => if !digits.isEmpty && digits.all Char.isDigit then some (-(ofDigits digits : Int)) else none
  | '+' :: digits | digits => if !digits.isEmpty && digits.all Char.isDigit then some (ofDigits digits) else none

/-- A numeral without a sign: digits, and then maybe a point with digits and an exponent. -/
def unsigned? (numeral : List Char) : Option Decimal :=
  let whole := numeral.takeWhile Char.isDigit
  let rest := numeral.dropWhile Char.isDigit
  let (fraction, rest) :=
    match rest with
    | '.' :: rest => (rest.takeWhile Char.isDigit, rest.dropWhile Char.isDigit)
    | _ => ([], rest)
  if whole.isEmpty then none
  else
    let exponent :=
      match rest with
      | [] => some 0
      | 'e' :: rest | 'E' :: rest => exponent? rest
      | _ => none
    exponent.map fun e => ⟨ofDigits (whole ++ fraction), e - fraction.length⟩

def float? : List Char → Option Float
  | '-' :: numeral => (unsigned? numeral).map fun d => -d.nearest
  | numeral => (unsigned? numeral).map nearest

/-- The integer that a numeral without point and exponent writes. -/
def int? : List Char → Option Int
  | '-' :: digits => if !digits.isEmpty && digits.all Char.isDigit then some (-(ofDigits digits : Int)) else none
  | digits => if !digits.isEmpty && digits.all Char.isDigit then some (ofDigits digits) else none

end Decimal

end LeafPlan
