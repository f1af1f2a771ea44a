import LeafPlan.Filter.Arithmetic
import LeafPlan.Filter.Calendar
import LeafPlan.Filter.Format
import LeafPlan.Filter.Part
import LeafPlan.Regex.Parser

/-!
# Functions

The functions that filters are built from. Each takes its input and its arguments as values and gives
one value.
-/

namespace LeafPlan.Filter

namespace Function

open Value

def asString : Value → Outcome String
  | string s => .ok s
  | v => .error (.notA "string" v)

def asArray : Value → Outcome (List Value)
  | array items => .ok items
  | v => .error (.notA "array" v)

def asFloat (v : Value) : Outcome Float :=
  match v.float? with
  | some f => .ok f
  | none => .error (.notA "number" v)

def onString (f : String → Value) (v : Value) : Outcome Value := (asString v).map f

/-! ### Kinds and sizes -/

def typeName : Value → String
  | null => "null"
  | .bool _ => "boolean"
  | int _ | float _ | numeral _ => "number"
  | string _ => "string"
  | array _ => "array"
  | object _ => "object"

/-- The number of characters, items or members; of a number its magnitude. -/
def length : Value → Outcome Value
  | null => .ok (int 0)
  | .bool b => .error (.message s!"{(Value.bool b).text} has no length")
  | int i => .ok (intOr i.natAbs (Float.ofInt i).abs)
  | float f => .ok (float f.abs)
  | numeral text => .ok (float (((Decimal.float? text.toList).getD 0).abs))
  | string s => .ok (int s.length)
  | array items => .ok (int items.length)
  | object members => .ok (int members.length)

def keys (v : Value) : Outcome Value := do return array ((← v.entries).map Prod.fst)

def sorted (items : List Value) : List Value := items.mergeSort atMost

def sortedKeys (v : Value) : Outcome Value := do return array (sorted ((← v.entries).map Prod.fst))

def has (v key : Value) : Outcome Value :=
  match v, key with
  | array items, int i => if 0 ≤ i then .ok (bool (i < items.length)) else .error (.cannotIndex v key)
  | object members, string k => .ok (bool (Members.find? k members).isSome)
  | v, k => .error (.cannotIndex v k)

def occursIn (s : List Char) : List Char → Bool
  | [] => s.isEmpty
  | c :: rest => s.isPrefixOf (c :: rest) || occursIn s rest

mutual

/-- Texts contain their parts. Lists and objects contain one whose every item or member is contained in
one of theirs. -/
def contains (a : Value) : Value → Bool
  | string t =>
    match a with
    | string s => occursIn t.toList s.toList
    | _ => false
  | array ys =>
    match a with
    | array xs => containsItems xs ys
    | _ => false
  | object ys =>
    match a with
    | object xs => containsMembers xs ys
    | _ => false
  | b => a.same b

def containsItems (xs : List Value) : List Value → Bool
  | [] => true
  | y :: ys => (xs.any fun x => contains x y) && containsItems xs ys

def containsMembers (xs : List (String × Value)) : List (String × Value) → Bool
  | [] => true
  | (k, y) :: ys => (match Members.find? k xs with
      | some x => contains x y
      | none => false) && containsMembers xs ys

end

/-- Where `part`, which is not empty, starts in a list. -/
def starts {α : Type} (eq : α → α → Bool) (part : List α) : Nat → List α → List Nat
  | _, [] => []
  | n, x :: rest =>
    let here := part.length ≤ rest.length + 1 && (part.zip (x :: rest)).all fun (a, b) => eq a b
    (if here then [n] else []) ++ starts eq part (n + 1) rest

def indices (v part : Value) : Outcome Value :=
  let found (ns : List Nat) : Value := array (ns.map fun (n : Nat) => int n)
  match v, part with
  | string s, string t =>
    .ok (if t = "" then array [] else found (starts (· == ·) t.toList 0 s.toList))
  | array xs, array ys => .ok (if ys.isEmpty then array [] else found (starts same ys 0 xs))
  | array xs, y => .ok (found (starts same [y] 0 xs))
  | v, y => .error (.cannotIndex v y)

/-! ### Order -/

def groups : List (Value × Value) → List (Value × List Value)
  | [] => []
  | (k, v) :: rest =>
    match groups rest with
    | (j, vs) :: more => if k.same j then (k, v :: vs) :: more else (k, [v]) :: (j, vs) :: more
    | [] => [(k, [v])]

def sortPairs (pairs : List (Value × Value)) : List (Value × Value) :=
  pairs.mergeSort fun a b => atMost a.1 b.1

def least : List (Value × Value) → Value
  | [] => null
  | p :: rest => (rest.foldl (fun m q => if order q.1 m.1 == .lt then q else m) p).2

def greatest : List (Value × Value) → Value
  | [] => null
  | p :: rest => (rest.foldl (fun m q => if order q.1 m.1 == .lt then m else q) p).2

/-- What can be done with the items of a list, each behind its key. -/
def byKey : List (String × (List (Value × Value) → Value)) :=
  [("sort_by", fun pairs => array ((sortPairs pairs).map Prod.snd)),
    ("group_by", fun pairs => array ((groups (sortPairs pairs)).map fun g => array g.2)),
    ("unique_by", fun pairs => array ((groups (sortPairs pairs)).map fun g => (g.2.head?).getD null)),
    ("min_by", least),
    ("max_by", greatest)]

/-! ### Texts -/

def implode (v : Value) : Outcome Value := do
  let cs ← (← asArray v).mapM fun x =>
    match x with
    | int i =>
      if h : i.toNat.isValidChar then
        if 0 ≤ i then .ok (Char.ofNatAux i.toNat h) else .error (.notA "character" x)
      else .error (.notA "character" x)
    | x => .error (.notA "character" x)
  return string (String.ofList cs)

def explode (s : String) : Value := array (s.toList.map fun c => int c.toNat)

def trimStart (s : String) : Value := string (String.ofList (Lines.trimStart s.toList))

def trimEnd (s : String) : Value := string (String.ofList (Lines.trimEnd s.toList))

def trim (s : String) : Value := string (String.ofList (Lines.trim s.toList))

def startsWith (v t : Value) : Outcome Value := do
  return bool ((← asString t).toList.isPrefixOf (← asString v).toList)

def endsWith (v t : Value) : Outcome Value := do
  return bool ((← asString t).toList.reverse.isPrefixOf (← asString v).toList.reverse)

def dropStart (v t : Value) : Value :=
  match v, t with
  | string s, string t => if t.toList.isPrefixOf s.toList then string (s.drop t.length).toString else v
  | v, _ => v

def dropEnd (v t : Value) : Value :=
  match v, t with
  | string s, string t =>
    if t.toList.reverse.isPrefixOf s.toList.reverse then string (s.dropEnd t.length).toString else v
  | v, _ => v

def splitBy (v t : Value) : Outcome Value := do return array (Value.split (← asString v) (← asString t))

/-- The items as texts, with `separator` between them. `null` is the empty text. -/
def join (v separator : Value) : Outcome Value := do
  let items ← asArray v
  if items.isEmpty then return string ""
  let s ← asString separator
  let texts ← items.mapM fun x =>
    match x with
    | null => .ok ""
    | array _ | object _ => .error (.cannotCalculate separator "+" x)
    | x => .ok x.plainText
  return string (s.intercalate texts)

def reverse (v : Value) : Outcome Value := do return array (← asArray v).reverse

def fromText (v : Value) : Outcome Value := do
  let s ← asString v
  match Json.read (Text.ofString s) with
  | .ok d => return ofJson d
  | .error _ => .error (.message s!"cannot parse {s} as JSON")

def toNumber (v : Value) : Outcome Value :=
  match v with
  | int _ | float _ | numeral _ => .ok v
  | string s =>
    match Decimal.int? s.toList, Decimal.float? s.toList with
    | some i, _ => .ok (if fits i then int i else numeral s)
    | none, some _ => .ok (numeral s)
    | none, none => .error (.message s!"cannot parse {s} as JSON")
  | v => .error (.notA "number" v)

/-! ### Regular expressions -/

/-- What a regular expression is used with: its own flags, whether all matches count, and whether empty
ones do. -/
structure Search where
  regex : Regex
  names : List (Nat × String)
  everywhere : Bool
  skipEmpty : Bool

def search (pattern flags : Value) : Outcome Search := do
  let fs := (← asString flags).toList
  if fs.all fun c => "gnixslp".toList.contains c then
    let has := fun (c : Char) => fs.contains c
    match Regex.ofText? ⟨has 'i', has 'x', has 's' || has 'p', false, has 'l'⟩ (← asString pattern) with
    | some (r, groups) => return ⟨r, groups.names, has 'g', has 'n'⟩
    | none => .error (.message s!"{pattern.plainText} (at offset 0) is not a valid regex")
  else .error (.message s!"{flags.plainText} is not a valid modifier string")

def Search.matches (x : Search) (s : List Char) : List Regex.Match :=
  let found := (x.regex.allMatches s).filter fun m =>
    m.start < s.length && !(x.skipEmpty && m.start = m.stop)
  if x.everywhere then found else found.take 1

def matchValue (s : List Char) (name : Option String) (start stop : Nat) : Value :=
  object ([("offset", int start), ("length", int (stop - start)),
    ("string", string (String.ofList ((s.drop start).take (stop - start))))] ++
    name.toList.map fun n => ("name", string n))

/-- The match as a list: the whole of it, and then its groups in their order. -/
def Search.groupsOf (x : Search) (s : List Char) (m : Regex.Match) : Value :=
  let groups := m.groups.mergeSort fun a b => a.1 ≤ b.1
  array (matchValue s none m.start m.stop ::
    groups.map fun (n, start, stop) => matchValue s (x.names.lookup n) start stop)

def matchesOf (v pattern flags : Value) : Outcome Value := do
  let s := (← asString v).toList
  let x ← search pattern flags
  return array ((x.matches s).map (x.groupsOf s))

/-- The texts between the matches, each followed by `separator m` for the match behind it. -/
def between (s : List Char) (separator : Regex.Match → List Value) : Nat → List Regex.Match → List Value
  | last, [] => [string (String.ofList (s.drop last))]
  | last, m :: rest =>
    string (String.ofList ((s.drop last).take (m.start - last))) :: separator m ++
      between s separator m.stop rest

def splitAround (v pattern flags : Value) : Outcome Value := do
  let s := (← asString v).toList
  let x ← search pattern flags
  return array (between s (fun _ => []) 0 ({ x with everywhere := true }.matches s))

def splitMatches (v pattern flags : Value) : Outcome Value := do
  let s := (← asString v).toList
  let x ← search pattern flags
  return array (between s (fun m => [x.groupsOf s m]) 0 (x.matches s))

/-! ### Numbers -/

/-- An integer stays; any other number is rounded to an integer of 64 bits. -/
def rounded (f : Float → Float) (v : Value) : Outcome Value :=
  match v with
  | int i => .ok (int i)
  | v => do return int (f (← asFloat v)).toInt64.toInt

def truncate (x : Float) : Float := if x < 0 then x.ceil else x.floor

/-- The nearest integer; halves go to the even one. -/
def nearestEven (x : Float) : Float :=
  let r := x.round
  if (x - truncate x).abs == 0.5 && floatRemainder r 2 != 0 then r - (if x < 0 then -1 else 1) else r

def exponentOf (x : Float) : Float := Float.ofInt (x.frExp.2 - 1)

def mathOne : List (String × (Float → Float)) :=
  [("sqrt", Float.sqrt), ("cbrt", Float.cbrt), ("fabs", Float.abs), ("exp", Float.exp), ("exp2", Float.exp2),
    ("exp10", fun x => Float.pow 10 x), ("expm1", fun x => x.exp - 1), ("log", Float.log),
    ("log2", Float.log2), ("log10", Float.log10), ("log1p", fun x => (1 + x).log),
    ("sin", Float.sin), ("cos", Float.cos), ("tan", Float.tan), ("asin", Float.asin), ("acos", Float.acos),
    ("atan", Float.atan), ("sinh", Float.sinh), ("cosh", Float.cosh), ("tanh", Float.tanh),
    ("asinh", Float.asinh), ("acosh", Float.acosh), ("atanh", Float.atanh), ("trunc", truncate),
    ("rint", nearestEven), ("nearbyint", nearestEven), ("logb", exponentOf),
    ("significand", fun x => if x == 0 then x else x.scaleB (1 - x.frExp.2))]

def mathTwo : List (String × (Float → Float → Float)) :=
  [("pow", Float.pow), ("atan2", Float.atan2), ("fmod", floatRemainder),
    ("fmin", fun x y => if x.isNaN || y < x then y else x),
    ("fmax", fun x y => if x.isNaN || x < y then y else x),
    ("hypot", fun x y => (x * x + y * y).sqrt),
    ("copysign", fun x y => if (x < 0) == (y < 0) then x else -x),
    ("ldexp", fun x y => x.scaleB y.toInt64.toInt), ("scalb", fun x y => x.scaleB y.toInt64.toInt),
    ("scalbln", fun x y => x.scaleB y.toInt64.toInt)]

/-- The fraction between a half and one, and the power of two that it is multiplied with. -/
def frexp (v : Value) : Outcome Value := do
  let (m, e) := (← asFloat v).frExp
  return array [float m, int e]

def modf (v : Value) : Outcome Value := do
  let x ← asFloat v
  return array [float (x - truncate x), float (truncate x)]

/-! ### Moments -/

def asMoment (v : Value) : Outcome (Moment × Float) :=
  match v with
  | int i => .ok (Moment.ofSeconds i, 0)
  | v => do
    let x ← asFloat v
    return (Moment.ofSeconds x.floor.toInt64.toInt, x - x.floor)

def toIso (v : Value) : Outcome Value := do return string (← asMoment v).1.iso

def fromIso (v : Value) : Outcome Value := do
  let s ← asString v
  match Moment.ofText? "%Y-%m-%dT%H:%M:%SZ" s with
  | some m => return int m.seconds
  | none => .error (.message s!"cannot parse {s} as ISO-8601 timestamp")

def toFields (v : Value) : Outcome Value := do return (← asMoment v).1.fields

def fromFields (v : Value) : Outcome Value :=
  match Moment.ofFields? v with
  | some m => .ok (int m.seconds)
  | none => .error (.message "mktime requires array of 6 numbers")

def momentText (v template : Value) : Outcome Value := do
  let m ← match Moment.ofFields? v with
    | some m => .ok m
    | none => (asMoment v).map Prod.fst
  match m.write (← asString template).toList with
  | some s => return string s
  | none => .error (.message "strftime/1 requires a valid format")

def momentOfText (v template : Value) : Outcome Value := do
  let s ← asString v
  match Moment.ofText? (← asString template) s with
  | some m => return m.fields
  | none => .error (.message s!"cannot parse {s}")

/-! ### Functions by name -/

def ofInput : List (String × (Value → Outcome Value)) :=
  [("length", length), ("utf8bytelength", onString fun s => int s.utf8ByteSize),
    ("keys", sortedKeys), ("keys_unsorted", keys), ("type", fun v => .ok (string (typeName v))),
    ("isboolean", fun v => .ok (bool (v.kind = 1))), ("isnumber", fun v => .ok (bool (v.kind = 2))),
    ("isstring", fun v => .ok (bool (v.kind = 3))), ("isarray", fun v => .ok (bool (v.kind = 4))),
    ("isobject", fun v => .ok (bool (v.kind = 5))),
    ("tostring", fun v => .ok (string v.plainText)), ("tojson", fun v => .ok (string v.text)),
    ("fromjson", fromText), ("tonumber", toNumber),
    ("implode", implode), ("explode", onString explode),
    ("ascii_downcase", onString fun s => string (s.map Char.toLower)),
    ("ascii_upcase", onString fun s => string (s.map Char.toUpper)),
    ("trim", onString trim), ("ltrim", onString trimStart), ("rtrim", onString trimEnd),
    ("reverse", reverse), ("sort", fun v => (asArray v).map fun items => array (sorted items)),
    ("floor", rounded Float.floor), ("round", rounded Float.round), ("ceil", rounded Float.ceil),
    ("frexp", frexp), ("modf", modf),
    ("todate", toIso), ("todateiso8601", toIso), ("date", toIso), ("fromdate", fromIso),
    ("fromdateiso8601", fromIso), ("gmtime", toFields), ("mktime", fromFields)] ++
  mathOne.map (fun (name, f) => (name, fun v => do return float (f (← asFloat v)))) ++ Format.all

def ofOne : List (String × (Value → Value → Outcome Value)) :=
  [("has", has), ("contains", fun v x => .ok (bool (contains v x))),
    ("indices", indices), ("startswith", startsWith), ("endswith", endsWith),
    ("ltrimstr", fun v t => .ok (dropStart v t)), ("rtrimstr", fun v t => .ok (dropEnd v t)),
    ("split", splitBy), ("join", join),
    ("strftime", momentText), ("strptime", momentOfText)]

def ofTwo : List (String × (Value → Value → Value → Outcome Value)) :=
  [("matches", matchesOf), ("split_matches", splitMatches), ("split", splitAround)] ++
  mathTwo.map fun (name, f) => (name, fun _ x y => do return float (f (← asFloat x) (← asFloat y)))

def names : List (String × Nat) :=
  ofInput.map (fun p => (p.1, 0)) ++ ofOne.map (fun p => (p.1, 1)) ++ ofTwo.map fun p => (p.1, 2)

def find? (name : String) (arity : Nat) : Option (Value → List Value → Outcome Value) :=
  match arity with
  | 0 => (ofInput.lookup name).map fun f v _ => f v
  | 1 => (ofOne.lookup name).map fun f v args =>
    match args with
    | [x] => f v x
    | _ => .error (.message name)
  | 2 => (ofTwo.lookup name).map fun f v args =>
    match args with
    | [x, y] => f v x y
    | _ => .error (.message name)
  | _ => none

end Function

end LeafPlan.Filter
