/-!
# Shortest decimals

Every decimal that lies close enough to a binary floating point number reads back as that number.
`Binary.shortest` picks one on the coarsest decimal grid that has such a point, and on that grid the
point nearest to the number. The search is exact: it compares natural numbers only.
-/

namespace LeafPlan

/-- The positive number `digits * 10 ^ exponent`. -/
structure Decimal where
  digits : Nat
  exponent : Int
deriving DecidableEq

/-- The positive number `mantissa * 2 ^ exponent`. It is `boundary` where the next number below it is
only half as far away as the next number above it. -/
structure Binary where
  mantissa : Nat
  exponent : Int
  boundary : Bool
deriving DecidableEq

namespace Binary

/-- The magnitude of a finite floating point number. -/
def ofFloat (f : Float) : Binary :=
  let bits : Nat := f.toBits.toNat
  let fraction : Nat := bits % Nat.pow 2 52
  let biased : Nat := bits / Nat.pow 2 52 % 2048
  if biased = 0 then ⟨fraction, -1074, false⟩
  else ⟨fraction + Nat.pow 2 52, (biased : Int) - 1075, fraction == 0 && biased != 1⟩

/-- The numbers that read back as a binary number lie between `low` and `high`, all in units of
`1 / scale`. The ends belong to them when the mantissa is even. -/
structure Interval where
  low : Nat
  value : Nat
  high : Nat
  scale : Nat
  closed : Bool

def interval (b : Binary) : Interval :=
  let quarter := b.exponent - 2
  let up := Nat.pow 2 quarter.toNat
  { low := (4 * b.mantissa - if b.boundary then 1 else 2) * up
    value := 4 * b.mantissa * up
    high := (4 * b.mantissa + 2) * up
    scale := Nat.pow 2 (-quarter).toNat
    closed := b.mantissa % 2 == 0 }

namespace Interval

/-- The same interval in units that make the grid `10 ^ g` the multiples of `scale`. -/
def onGrid (r : Interval) (g : Int) : Interval :=
  let up := Nat.pow 10 (-g).toNat
  { r with
    low := r.low * up, value := r.value * up, high := r.high * up
    scale := r.scale * Nat.pow 10 g.toNat }

/-- The grid point `d` reads back. -/
def holds (r : Interval) (d : Nat) : Bool :=
  let x := d * r.scale
  if r.closed then r.low ≤ x && x ≤ r.high else r.low < x && x < r.high

/-- Of the two grid points around the value, the nearer one that reads back; of two as near, the even
one. -/
def nearest? (r : Interval) : Option Nat :=
  let d := r.value / r.scale
  match r.holds d, r.holds (d + 1) with
  | false, false => none
  | true, false => some d
  | false, true => some (d + 1)
  | true, true =>
    match compare (2 * r.value) ((2 * d + 1) * r.scale) with
    | .lt => some d
    | .gt => some (d + 1)
    | .eq => some (if d % 2 = 0 then d else d + 1)

/-- The first of the grids `10 ^ g`, `10 ^ (g - 1)`, … with a point that reads back. -/
def search (r : Interval) : Nat → Int → Decimal
  | 0, g => ⟨(r.onGrid g).value / (r.onGrid g).scale, g⟩
  | n + 1, g =>
    match (r.onGrid g).nearest? with
    | some d => ⟨d, g⟩
    | none => search r n (g - 1)

end Interval

/-- A grid too coarse for the number: it has no point between zero and twice the number. -/
def coarse (b : Binary) : Int := (b.exponent + b.mantissa.log2 + 1) * 30103 / 100000 + 1

/-- The shortest decimal that reads back as `b`. Seventeen digits always suffice. -/
def shortest (b : Binary) : Decimal := b.interval.search 20 b.coarse

end Binary

structure DecimalLayout where
  /-- The least power of ten of a leading digit that is still written without an exponent. -/
  least : Int
  /-- The first power of ten of a leading digit that is written with an exponent. -/
  limit : Int
  /-- A positive exponent is written with its sign. -/
  plus : Bool

namespace DecimalLayout

def zeros (n : Nat) : List Char := List.replicate n '0'

/-- The text of `d`. Without an exponent it always holds a point. -/
def write (layout : DecimalLayout) (d : Decimal) : List Char :=
  let digits := Nat.toDigits 10 d.digits
  let leading : Int := d.exponent + digits.length - 1
  if leading < layout.least || layout.limit ≤ leading then
    let mantissa :=
      match digits with
      | [] => []
      | [x] => [x]
      | x :: rest => x :: '.' :: rest
    let sign := if leading < 0 then ['-'] else if layout.plus then ['+'] else []
    mantissa ++ 'e' :: sign ++ Nat.toDigits 10 leading.natAbs
  else if 0 ≤ d.exponent then
    digits ++ zeros d.exponent.toNat ++ ['.', '0']
  else if 0 ≤ leading then
    let whole := leading.toNat + 1
    digits.take whole ++ '.' :: digits.drop whole
  else
    '0' :: '.' :: zeros (-leading - 1).toNat ++ digits

def writeFloat (layout : DecimalLayout) (f : Float) : List Char :=
  let b := Binary.ofFloat f
  let sign := if f.toBits.toNat / Nat.pow 2 63 = 1 then ['-'] else []
  sign ++ if b.mantissa = 0 then ['0', '.', '0'] else layout.write b.shortest

end DecimalLayout

end LeafPlan
