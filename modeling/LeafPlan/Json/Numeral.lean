import LeafPlan.Json.Outline
import LeafPlan.Text.Symbol

/-!
# Numerals

A numeral without point and exponent is an integer as long as it fits into 64 bits, and a minus sign
in front of zero makes it a floating point number. Every other numeral is the floating point number
nearest to its leading digits, as many as fit into 64 bits, scaled by one multiplication or division
with a power of ten. That result may differ in the last digit from the number nearest to the numeral.
-/

namespace LeafPlan

namespace Symbol

def digit? : Symbol → Option Nat
  | .char c => if c.isDigit then some (c.toNat - '0'.toNat) else none
  | .stray _ => none

end Symbol

namespace Text

def spanDigits : Text → List Nat × Text
  | [] => ([], [])
  | s :: rest =>
    match s.digit? with
    | some d => let (ds, after) := spanDigits rest; (d :: ds, after)
    | none => ([], s :: rest)

end Text

namespace Numeral

def wordLimit : Nat := 18446744073709551616

def exponentLimit : Nat := 2147483648

/-- Digits are taken up while the number stays below the limit; the others are handed back. -/
def absorb (limit n : Nat) : List Nat → Nat × List Nat
  | [] => (n, [])
  | d :: ds => if n * 10 + d < limit then absorb limit (n * 10 + d) ds else (n, d :: ds)

def power (n : Nat) : Float := Float.ofScientific 1 false n

/-- `n * 10 ^ e` by at most one multiplication or two divisions; `none` is out of range. -/
def scale (n : Nat) (e : Int) : Option Float :=
  let f := n.toUInt64.toFloat
  if 308 < e then if n = 0 then some f else none
  else if 0 ≤ e then
    let g := f * power e.toNat
    if g.isInf then none else some g
  else if -308 ≤ e then some (f / power (-e).toNat)
  else if -616 ≤ e then some (f / power 308 / power (-e - 308).toNat)
  else some 0

def signed (negative : Bool) (f : Float) : Float := if negative then -f else f

def ofDigits (negative : Bool) (whole : List Nat) : Option Number :=
  match absorb wordLimit 0 whole with
  | (n, []) =>
    if !negative then some (.int n)
    -- neither minus zero nor a number below the integers of 64 bits is an integer
    else if n = 0 || 9223372036854775808 < n then some (.float (-n.toUInt64.toFloat))
    else some (.int (-n))
  | (n, rest) => (scale n rest.length).map fun f => .float (signed negative f)

/-- The leading digits of a numeral, and the power of ten that they count. -/
def significand (whole fraction : List Nat) : Nat × Int :=
  let (n, rest) := absorb wordLimit 0 whole
  let (m, unused) := absorb wordLimit n fraction
  (m, (rest.length : Int) - (fraction.length - unused.length : Nat))

/-- The exponent's digits behind `e` and its sign. A written exponent that does not fit into 31 bits
makes zero, or is out of range at the digit that shows it. -/
def ofExponent (negative down : Bool) (n : Nat) (e : Int) (digits : List Nat) (rest : Text) :
    Except Fault (Number × Text) :=
  match absorb exponentLimit 0 digits with
  | (x, []) =>
    match scale n (if down then e - x else e + x) with
    | some f => .ok (.float (signed negative f), rest)
    | none => .error ⟨.numberOutOfRange, Text.width rest⟩
  | (_, unused) =>
    if n ≠ 0 && !down then .error ⟨.numberOutOfRange, Text.width rest + (unused.length - 1)⟩
    else .ok (.float (signed negative 0), rest)

def exponent (negative : Bool) (n : Nat) (e : Int) (t : Text) : Except Fault (Number × Text) :=
  let (down, t) :=
    match t with
    | .char '+' :: rest => (false, rest)
    | .char '-' :: rest => (true, rest)
    | _ => (false, t)
  match Text.spanDigits t with
  | ([], []) => .error ⟨.valueMissing, 0⟩
  | ([], rest) => .error ⟨.numberInvalid, Text.width rest - 1⟩
  | (ds, rest) => ofExponent negative down n e ds rest

def afterFraction (negative : Bool) (whole fraction : List Nat) (t : Text) : Except Fault (Number × Text) :=
  let (n, e) := significand whole fraction
  match t with
  | .char 'e' :: rest | .char 'E' :: rest => exponent negative n e rest
  | _ =>
    match scale n e with
    | some f => .ok (.float (signed negative f), t)
    | none => .error ⟨.numberOutOfRange, Text.width t⟩

def afterWhole (negative : Bool) (whole : List Nat) (t : Text) : Except Fault (Number × Text) :=
  match t with
  | .char '.' :: rest =>
    match Text.spanDigits rest with
    | ([], []) => .error ⟨.valueMissing, 0⟩
    | ([], after) => .error ⟨.numberInvalid, Text.width after - 1⟩
    | (fraction, after) => afterFraction negative whole fraction after
  | .char 'e' :: _ | .char 'E' :: _ => afterFraction negative whole [] t
  | _ =>
    match ofDigits negative whole with
    | some n => .ok (n, t)
    | none => .error ⟨.numberOutOfRange, Text.width t⟩

/-- A numeral behind its sign. A zero in front stands alone. -/
def unsigned (negative : Bool) (t : Text) : Except Fault (Number × Text) :=
  match Text.spanDigits t with
  | ([], []) => .error ⟨.valueMissing, 0⟩
  | ([], rest) => .error ⟨.numberInvalid, Text.width rest - 1⟩
  -- the digit behind a zero is at fault
  | (0 :: d :: ds, rest) => .error ⟨.numberInvalid, Text.width rest + (d :: ds).length - 1⟩
  | (whole, rest) => afterWhole negative whole rest

def read : Text → Except Fault (Number × Text)
  | .char '-' :: rest => unsigned true rest
  | t => unsigned false t

end Numeral

end LeafPlan
