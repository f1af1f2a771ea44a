import LeafPlan.Path.Edit
import LeafPlan.Schema.Prepared

/-!
# Plans

A plan lists the leaves of a schema in the order in which a document is read and written.
-/

namespace LeafPlan

inductive LeafKind where
  | scalar (m : Marker)
  | list (method : Method)

/-- A leaf of a schema: its property's name, none at the root, and the path to its values. -/
structure Leaf where
  name : Option String
  path : Path
  kind : LeafKind

structure Plan where
  leaves : List Leaf

namespace LeafKind

def isList : LeafKind → Bool
  | scalar _ => false
  | list _ => true

def method? : LeafKind → Option Method
  | scalar _ => none
  | list m => some m

def marker? : LeafKind → Option Marker
  | scalar m => some m
  | list _ => none

/-- Methods are compared by handle. -/
def same : LeafKind → LeafKind → Bool
  | scalar m, scalar n => m == n
  | list m, list n => m == n
  | _, _ => false

def display : LeafKind → String
  | scalar m => m.name
  | list m => s!"array[{m.name}]"

end LeafKind

namespace Leaf

instance : BEq Leaf := ⟨fun a b => a.name == b.name && a.path == b.path && a.kind.same b.kind⟩

def read? (l : Leaf) (d : Json) : Option Json := l.path.find? d

/-- The leaf's value in a document, with a list put through the leaf's method. -/
def render? (l : Leaf) (d : Json) : Option Json :=
  (l.read? d).map fun v =>
    match l.kind, v with
    | .list m, .array items => .string (m.apply items)
    | _, v => v

def json (l : Leaf) : Json :=
  .object
    [("name", l.name.elim .null .string),
      ("path", l.path.json),
      ("isArray", .bool l.kind.isList),
      ("method", l.kind.method?.elim .null fun m => .string m.name),
      ("marker", l.kind.marker?.elim .null fun m => .string m.name)]

end Leaf

namespace Plan

def size (p : Plan) : Nat := p.leaves.length

instance : BEq Plan := ⟨fun a b => a.leaves == b.leaves⟩

/-- One slot for each leaf. -/
def read (p : Plan) (d : Json) : List (Option Json) := p.leaves.map fun l => l.read? d

/-- One slot for each leaf, lists put through their methods. -/
def render (p : Plan) (d : Json) : List (Option Json) := p.leaves.map fun l => l.render? d

/-- Writes along `leaves` until one write fails. What was written before it stays. -/
def writeAll : List (Leaf × Json) → Json → Edited
  | [], d => ⟨d, none⟩
  | (l, v) :: rest, d =>
    match l.path.set v d with
    | ⟨d, none⟩ => writeAll rest d
    | stopped => stopped

/-- Writes one value for each leaf. -/
def write (p : Plan) (values : List Json) (d : Json) : Edited :=
  if values.length = p.size then writeAll (p.leaves.zip values) d
  else ⟨d, some (.arity p.size values.length)⟩

def json (p : Plan) : Json := .array (p.leaves.map Leaf.json)

end Plan

end LeafPlan
