import LeafPlan.Path.Basic

/-!
# Documents edited along a path

`Path.set` writes a value at a path and makes the objects that are missing on the way; `Path.place?`
only finds what is there.
-/

namespace LeafPlan

inductive AccessError where
  /-- The value at `path` has no members. -/
  | notObject (path : Path)
  /-- A plan needs one value for each leaf. -/
  | arity (expected actual : Nat)
deriving DecidableEq

namespace AccessError

def message : AccessError → String
  | notObject path => s!"cannot descend into non-object value at `{path.display}`"
  | arity expected actual => s!"plan has {expected} descriptors but {actual} values were given"

theorem message_notObject (path : Path) :
    (notObject path).message = s!"cannot descend into non-object value at `{path.display}`" := rfl

/-- The error seen from the object that holds the edited value under `k`. -/
def under (k : String) : AccessError → AccessError
  | notObject path => notObject (k :: path)
  | e => e

end AccessError

/-- A document after an edit, and what stopped the edit if it failed. -/
structure Edited where
  document : Json
  stopped : Option AccessError

namespace Json

def child? : Json → String → Option Json
  | .object members, k => Members.find? k members
  | _, _ => none

instance : Branching Json := ⟨child?⟩

/-- The members to write into: a null counts as an object without members. -/
def slots? : Json → Option (Members Json)
  | .null => some []
  | .object members => some members
  | _ => none

end Json

/-- A value in a document, and the document with another value in its place. -/
structure Place where
  value : Json
  fill : Json → Json

namespace Path

/-- Writes `v` at the path. Missing and null objects on the way are made. -/
def set (v : Json) : Path → Json → Edited
  | [], _ => ⟨v, none⟩
  | k :: p, d =>
    match d.slots? with
    | none => ⟨d, some (.notObject [])⟩
    | some members =>
      let below := set v p ((Members.find? k members).getD .null)
      ⟨.object (Members.insert k below.document members), below.stopped.map (AccessError.under k)⟩

/-- The value that the path leads to, with its place. -/
def place? : Path → Json → Option Place
  | [], d => some ⟨d, id⟩
  | k :: p, .object members =>
    match Members.find? k members with
    | some c =>
      (place? p c).map fun below => ⟨below.value, fun w => .object (Members.insert k (below.fill w) members)⟩
    | none => none
  | _ :: _, _ => none

end Path

end LeafPlan
