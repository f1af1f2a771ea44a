import LeafPlan.Filter.Value

/-!
# Arithmetic

The operators work on numbers, and some of them on texts, lists and objects. An integer result that
does not fit into 64 bits becomes a floating point number. `null` is neutral for addition.
-/

namespace LeafPlan.Filter

inductive Operator where
  | add
  | sub
  | mul
  | div
  | rem
deriving DecidableEq

def Operator.symbol : Operator → String
  | add => "+"
  | sub => "-"
  | mul => "*"
  | div => "/"
  | rem => "%"

namespace Value

/-- The integer, or the floating point number where it does not fit. -/
def intOr (i : Int) (f : Float) : Value := if fits i then int i else float f

/-- The remainder of a division that is cut off towards zero, computed exactly. -/
def floatRemainder (x y : Float) : Float :=
  if x.isNaN || y.isNaN || x.isInf || y == 0 then 0.0 / 0.0
  else if y.isInf || x == 0 then x
  else
    let a := Binary.ofFloat x
    let b := Binary.ofFloat y
    let e := min a.exponent b.exponent
    let r := (a.mantissa * Nat.pow 2 (a.exponent - e).toNat) % (b.mantissa * Nat.pow 2 (b.exponent - e).toNat)
    let magnitude := Float.scaleB (Float.ofNat r) e
    if x < 0 then -magnitude else magnitude

def addMembers (a b : List (String × Value)) : List (String × Value) :=
  b.foldl (fun m p => Members.insert p.1 p.2 m) a

/-- Members of `b` are put into `a`; where both hold objects, those are merged in turn. `depth` bounds
the nesting. -/
def merge : Nat → List (String × Value) → List (String × Value) → List (String × Value)
  | 0, a, b => addMembers a b
  | depth + 1, a, b =>
    b.foldl (fun m p =>
      match Members.find? p.1 m, p.2 with
      | some (object x), object y => Members.insert p.1 (object (merge depth x y)) m
      | _, v => Members.insert p.1 v m) a

mutual

def nesting : Value → Nat
  | array items => 1 + nestingItems items
  | object members => 1 + nestingMembers members
  | _ => 0

def nestingItems : List Value → Nat
  | [] => 0
  | x :: xs => max x.nesting (nestingItems xs)

def nestingMembers : List (String × Value) → Nat
  | [] => 0
  | (_, x) :: rest => max x.nesting (nestingMembers rest)

end

/-- The pieces of a text between the places where `separator`, which is not empty, stands. -/
def splitText (separator : List Char) : List Char → List Char → List (List Char)
  | piece, [] => [piece.reverse]
  | piece, c :: rest =>
    if separator.isPrefixOf (c :: rest) && !separator.isEmpty then
      piece.reverse :: splitText separator [] ((c :: rest).drop separator.length)
    else splitText separator (c :: piece) rest
termination_by _ s => s.length
decreasing_by
  · rename_i h
    have : 0 < separator.length := by
      cases separator with
      | nil => simp at h
      | cons => simp
    simp [List.length_drop]; omega
  · simp

def split (s separator : String) : List Value :=
  if s = "" then []
  else if separator = "" then s.toList.map fun c => string (String.singleton c)
  else (splitText separator.toList [] s.toList).map fun p => string (String.ofList p)

/-- The text `n` times, or nothing for none. -/
def repeated (s : String) (n : Int) : Value :=
  if n ≤ 0 then null else string (String.join (List.replicate n.toNat s))

def floats? (a b : Value) : Option (Float × Float) :=
  match a.float?, b.float? with
  | some x, some y => some (x, y)
  | _, _ => none

def add : Value → Value → Outcome Value
  | null, v | v, null => .ok v
  | int i, int j => .ok (intOr (i + j) (Float.ofInt i + Float.ofInt j))
  | string s, string t => .ok (string (s ++ t))
  | array a, array b => .ok (array (a ++ b))
  | object a, object b => .ok (object (addMembers a b))
  | a, b =>
    match floats? a b with
    | some (x, y) => .ok (float (x + y))
    | none => .error (.cannotCalculate a "+" b)

def sub : Value → Value → Outcome Value
  | int i, int j => .ok (intOr (i - j) (Float.ofInt i - Float.ofInt j))
  | array a, array b => .ok (array (a.filter fun x => !b.any fun y => x.same y))
  | a, b =>
    match floats? a b with
    | some (x, y) => .ok (float (x - y))
    | none => .error (.cannotCalculate a "-" b)

def mul : Value → Value → Outcome Value
  | int i, int j => .ok (intOr (i * j) (Float.ofInt i * Float.ofInt j))
  | string s, int n | int n, string s => .ok (repeated s n)
  | object a, object b => .ok (object (merge (nestingMembers b) a b))
  | a, b =>
    match floats? a b with
    | some (x, y) => .ok (float (x * y))
    | none => .error (.cannotCalculate a "*" b)

def div : Value → Value → Outcome Value
  | string s, string t => .ok (array (split s t))
  | a, b =>
    match floats? a b with
    | some (x, y) => .ok (float (x / y))
    | none => .error (.cannotCalculate a "/" b)

def rem : Value → Value → Outcome Value
  | int i, int j =>
    if j = 0 then .error (.cannotCalculate (int i) "%" (int j)) else .ok (int (i.tmod j))
  | a, b =>
    match floats? a b with
    | some (x, y) => .ok (float (floatRemainder x y))
    | none => .error (.cannotCalculate a "%" b)

def calculate : Operator → Value → Value → Outcome Value
  | .add => add
  | .sub => sub
  | .mul => mul
  | .div => div
  | .rem => rem

def negate : Value → Outcome Value
  | int i => .ok (intOr (-i) (-Float.ofInt i))
  | v =>
    match v.float? with
    | some f => .ok (float (-f))
    | none => .error (.notA "number" v)

end Value

end LeafPlan.Filter
