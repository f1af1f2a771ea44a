import LeafPlan.Decimal.Nearest
import LeafPlan.Json.Document
import LeafPlan.Json.Printer

/-!
# Values

What filters work on. An integer has 64 bits; any other numeral keeps its text until it is calculated
with. Values have a total order, in which members of an object are taken by their keys.
-/

namespace LeafPlan.Filter

inductive Value where
  | null
  | bool (b : Bool)
  | int (i : Int)
  | float (f : Float)
  | numeral (text : String)
  | string (s : String)
  | array (items : List Value)
  | object (members : List (String × Value))

namespace Value

instance : Inhabited Value := ⟨null⟩

def fits (i : Int) : Bool := -9223372036854775808 ≤ i && i ≤ 9223372036854775807

/-- A number of a document: an integer that fits, or its text. -/
def ofNumber (n : Number) : Value :=
  match n with
  | .int i => if fits i then int i else numeral (String.ofList n.chars)
  | .float _ => numeral (String.ofList n.chars)

mutual

def ofJson : Json → Value
  | .null => null
  | .bool b => bool b
  | .number n => ofNumber n
  | .string s => string s
  | .array items => array (ofItems items)
  | .object members => object (ofMembers members)

def ofItems : List Json → List Value
  | [] => []
  | x :: xs => ofJson x :: ofItems xs

def ofMembers : List (String × Json) → List (String × Value)
  | [] => []
  | (k, x) :: rest => (k, ofJson x) :: ofMembers rest

end

/-! ### Text -/

/-- The character behind the printable ones is escaped here as well. -/
def escapeChar (c : Char) : List Char :=
  if c = '\x7f' then ['\\', 'u', '0', '0', '7', 'f'] else Json.escapeChar c

def quote (s : String) : List Char := '"' :: s.toList.flatMap escapeChar ++ ['"']

/-- Floating point numbers are written without an exponent from `0.0001` up to `10 ^ 16`. -/
def layout : DecimalLayout := ⟨-4, 16, false⟩

def floatChars (f : Float) : List Char :=
  if f.isFinite then layout.writeFloat f else ['n', 'u', 'l', 'l']

mutual

def chars : Value → List Char
  | null => ['n', 'u', 'l', 'l']
  | bool true => ['t', 'r', 'u', 'e']
  | bool false => ['f', 'a', 'l', 's', 'e']
  | int i => (Number.int i).chars
  | float f => floatChars f
  | numeral text => text.toList
  | string s => quote s
  | array [] => ['[', ']']
  | array (x :: xs) => '[' :: x.chars ++ itemChars xs ++ [']']
  | object [] => ['{', '}']
  | object ((k, x) :: ms) => '{' :: quote k ++ ':' :: x.chars ++ memberChars ms ++ ['}']

def itemChars : List Value → List Char
  | [] => []
  | x :: xs => ',' :: x.chars ++ itemChars xs

def memberChars : List (String × Value) → List Char
  | [] => []
  | (k, x) :: ms => ',' :: quote k ++ ':' :: x.chars ++ memberChars ms

end

def text (v : Value) : String := String.ofList v.chars

/-- The text of a string as it is, and of any other value as a document. -/
def plainText : Value → String
  | string s => s
  | v => v.text

/-! ### Kinds and order -/

/-- Everything but `null` and `false`. -/
def isTrue : Value → Bool
  | null | bool false => false
  | _ => true

def float? : Value → Option Float
  | int i => some (Float.ofInt i)
  | float f => some f
  | numeral text => Decimal.float? text.toList
  | _ => none

/-- A number that is none stands below every number, itself included; the zeros are equal. -/
def compareFloats (x y : Float) : Ordering :=
  if x.isNaN then .lt
  else if y.isNaN then .gt
  else if x < y then .lt
  else if x == y then .eq
  else .gt

def compareNumbers : Value → Value → Ordering
  | int i, int j => compare i j
  | x, y => compareFloats (x.float?.getD 0) (y.float?.getD 0)

def kind : Value → Nat
  | null => 0
  | bool _ => 1
  | int _ | float _ | numeral _ => 2
  | string _ => 3
  | array _ => 4
  | object _ => 5

def insertMember (p : String × Value) : List (String × Value) → List (String × Value)
  | [] => [p]
  | q :: rest => if p.1 < q.1 then p :: q :: rest else q :: insertMember p rest

mutual

/-- The value with all members in the order of their keys. -/
def sorted : Value → Value
  | array items => array (sortedItems items)
  | object members => object (sortedMembers members)
  | v => v

def sortedItems : List Value → List Value
  | [] => []
  | x :: xs => x.sorted :: sortedItems xs

def sortedMembers : List (String × Value) → List (String × Value)
  | [] => []
  | (k, x) :: rest => insertMember (k, x.sorted) (sortedMembers rest)

end

def compareKeys : List String → List String → Ordering
  | [], [] => .eq
  | [], _ :: _ => .lt
  | _ :: _, [] => .gt
  | x :: xs, y :: ys => (compare x y).then (compareKeys xs ys)

mutual

/-- The order of values whose members are sorted: by kind, and within a kind by content. Objects are
compared by all their keys first. -/
def compareSorted : Value → Value → Ordering
  | bool a, bool b => compare a.toNat b.toNat
  | string a, string b => compare a b
  | array a, array b => compareItems a b
  | object a, object b => (compareKeys (a.map Prod.fst) (b.map Prod.fst)).then (compareMembers a b)
  | a, b => if a.kind = 2 && b.kind = 2 then compareNumbers a b else compare a.kind b.kind

def compareItems : List Value → List Value → Ordering
  | [], [] => .eq
  | [], _ :: _ => .lt
  | _ :: _, [] => .gt
  | x :: xs, y :: ys => (compareSorted x y).then (compareItems xs ys)

def compareMembers : List (String × Value) → List (String × Value) → Ordering
  | [], [] => .eq
  | [], _ :: _ => .lt
  | _ :: _, [] => .gt
  | (_, x) :: xs, (_, y) :: ys => (compareSorted x y).then (compareMembers xs ys)

end

def order (a b : Value) : Ordering := compareSorted a.sorted b.sorted

def same (a b : Value) : Bool := order a b == .eq

/-- `a` does not stand behind `b`. -/
def atMost (a b : Value) : Bool := order a b != .gt

end Value

/-! ### Errors -/

/-- Why a filter puts out no value: an error with its payload, or the end of the label `id`. -/
inductive Raised where
  | error (payload : Value)
  | broken (id : Nat)
  /-- The evaluation went deeper than it may. -/
  | tooDeep

abbrev Outcome := Except Raised

namespace Raised

def message (s : String) : Raised := error (.string s)

def notA (kind : String) (v : Value) : Raised := message s!"cannot use {v.text} as {kind}"

def cannotIndex (v i : Value) : Raised := message s!"cannot index {v.text} with {i.text}"

def cannotCalculate (x : Value) (operator : String) (y : Value) : Raised :=
  message s!"cannot calculate {x.text} {operator} {y.text}"

def noPath (v : Value) : Raised := message s!"invalid path expression with input {v.text}"

end Raised

end LeafPlan.Filter
