import LeafPlan.Filter.Outputs
import LeafPlan.Filter.Value

/-!
# Parts of values

A part of a value is the one at a key or a position, a stretch of a list or a text, or each of the
values that it holds. A part can be read and it can be replaced.
-/

namespace LeafPlan.Filter

inductive Part where
  | at (index : Value)
  | stretch (start stop : Option Value)
  | each

namespace Value

/-- A position counted from the end when it is negative. -/
def position? (i : Int) (size : Nat) : Option Nat :=
  if 0 ≤ i then if i < size then some i.toNat else none
  else if -i ≤ size then some (size - i.natAbs) else none

/-- An end of a stretch: a position, cut to the size. -/
def bound (i : Int) (size : Nat) : Nat :=
  if 0 ≤ i then min i.toNat size else size - i.natAbs

def asInt : Value → Outcome Int
  | int i => .ok i
  | v => .error (.notA "integer" v)

/-- An end of a stretch, or what stands for it when it is not given. -/
def asBound (size otherwise : Nat) : Option Value → Outcome Nat
  | none => .ok otherwise
  | some v => (asInt v).map fun i => bound i size

def span (size : Nat) (start stop : Option Value) : Outcome (Nat × Nat) := do
  let a ← asBound size 0 start
  let b ← asBound size size stop
  return (a, b - a)

def slice {α : Type} (l : List α) (start stop : Option Value) : Outcome (List α) := do
  let (skip, count) ← span l.length start stop
  return (l.drop skip).take count

/-- The ends of a stretch that an object names. -/
def stretch? : Value → Option (Option Value × Option Value)
  | object members =>
    let side (k : String) : Option Value :=
      match Members.find? k members with
      | some null | none => none
      | v => v
    if (Members.find? "start" members).isSome || (Members.find? "end" members).isSome then
      some (side "start", side "end")
    else none
  | _ => none

def readStretch (v : Value) (start stop : Option Value) : Outcome Value :=
  match v with
  | array items => (slice items start stop).map array
  | string s => (slice s.toList start stop).map fun cs => string (String.ofList cs)
  | v => .error (.notA "rangeable (array or string)" v)

/-- What stands at an index. What is missing in a list or an object is `null`. -/
def readAt (v i : Value) : Outcome Value :=
  match v, i with
  | object members, string k => .ok ((Members.find? k members).getD null)
  | array items, int n => .ok (((position? n items.length).bind fun p => items[p]?).getD null)
  | array items, object members =>
    match stretch? (object members) with
    | some (start, stop) => readStretch (array items) start stop
    | none => .error (.cannotIndex v i)
  | v, i => .error (.cannotIndex v i)

def entries : Value → Outcome (List (Value × Value))
  | array items => .ok (items.zipIdx.map fun (x, n) => (int n, x))
  | object members => .ok (members.map fun (k, x) => (string k, x))
  | v => .error (.notA "iterable (array or object)" v)

def ofStretch (start stop : Option Value) : Value :=
  object [("start", start.getD null), ("end", stop.getD null)]

end Value

/-- A replacement puts out values; all of them count in a list, and the first one elsewhere. -/
abbrev Replacement := Value → Outputs (Outcome Value)

namespace Replacement

def first (f : Replacement) (v : Value) : Outcome (Option Value) :=
  match (f v).head? with
  | none => .ok none
  | some (.ok x) => .ok (some x)
  | some (.error e) => .error e

def all (f : Replacement) (v : Value) : Outcome (List Value) :=
  (f v).toList.mapM id

end Replacement

namespace Value

/-- Without a replacement the member goes, and the last one takes its place. -/
def replaceMember (f : Replacement) (k : String) (members : List (String × Value)) :
    Outcome (List (String × Value)) := do
  match ← f.first ((Members.find? k members).getD null) with
  | some y => return Members.insert k y members
  | none => return Members.take k members

def replaceItem (f : Replacement) (n : Nat) (items : List Value) : Outcome (List Value) := do
  match ← f.first (items[n]?.getD null) with
  | some y => return items.set n y
  | none => return items.eraseIdx n

/-- What becomes of a value that does not have the part: where the part is optional, nothing. -/
def refuse (optional : Bool) (v : Value) (e : Raised) : Outcome Value :=
  if optional then .ok v else .error e

def replaceStretch (optional : Bool) (f : Replacement) (v : Value) (start stop : Option Value) :
    Outcome Value :=
  match v with
  | array items =>
    match span items.length start stop with
    | .error e => refuse optional v e
    | .ok (skip, count) => do
      let fresh ←
        match ← f.first (array ((items.drop skip).take count)) with
        | some (array fresh) => pure fresh
        | some y => .error (.notA "array" y)
        | none => pure []
      return array (items.take skip ++ fresh ++ (items.drop skip).drop count)
  | v => refuse optional v (.notA "array" v)

def replaceAt (optional : Bool) (f : Replacement) (v i : Value) : Outcome Value :=
  match v, i with
  | object members, string k => (replaceMember f k members).map object
  | array items, int n =>
    match position? n items.length with
    | some p => (replaceItem f p items).map array
    | none => refuse optional v (.message s!"index {n} is out of bounds")
  | array _, object members =>
    match stretch? (object members) with
    | some (start, stop) => replaceStretch optional f v start stop
    | none => refuse optional v (.cannotIndex v i)
  | object _, i => refuse optional v (.cannotIndex v i)
  | array _, i => refuse optional v (.notA "integer" i)
  | v, _ => refuse optional v (.notA "iterable (array or object)" v)

def replaceEach (optional : Bool) (f : Replacement) : Value → Outcome Value
  | array items => do return array (← items.mapM f.all).flatten
  | object members => do
    let kept ← members.filterMapM fun (k, x) => do return (← f.first x).map fun y => (k, y)
    return object kept
  | v => refuse optional v (.notA "iterable (array or object)" v)

end Value

namespace Part

def values (p : Part) (v : Value) : Outputs (Outcome (Value × Value)) :=
  match p with
  | .at i => .one ((v.readAt i).map fun x => (i, x))
  | stretch start stop => .one ((v.readStretch start stop).map fun x => (Value.ofStretch start stop, x))
  | each =>
    match v.entries with
    | .ok entries => (Outputs.ofList entries).map .ok
    | .error e => .one (.error e)

def read (optional : Bool) (p : Part) (v : Value) : Outputs (Outcome (Value × Value)) :=
  if optional then (p.values v).filter Except.isOk else p.values v

def replace (optional : Bool) (p : Part) (f : Replacement) (v : Value) : Outcome Value :=
  match p with
  | .at i => v.replaceAt optional f i
  | stretch start stop => v.replaceStretch optional f start stop
  | each => v.replaceEach optional f

end Part

end LeafPlan.Filter
