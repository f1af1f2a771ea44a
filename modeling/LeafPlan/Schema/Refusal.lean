import LeafPlan.Json.Document
import LeafPlan.Method

/-!
# Refused schemas

Why a text is no schema, and where: the steps from the root to the offending value, and the place in
the text.
-/

namespace LeafPlan

/-- A step from a value in a text to a value inside it. -/
inductive TextStep where
  | name (k : String)
  | index (i : Nat)
  /-- A member whose key could not be read. -/
  | unknown
deriving DecidableEq

namespace TextStep

/-- A position stands in brackets right behind its list; names are joined with points. -/
def displayRest : List TextStep → String
  | [] => ""
  | .index i :: rest => s!"[{i}]" ++ displayRest rest
  | .name k :: rest => "." ++ k ++ displayRest rest
  | .unknown :: rest => ".?" ++ displayRest rest

def display : List TextStep → String
  | [] => "."
  | .index i :: rest => s!"[{i}]" ++ displayRest rest
  | .name k :: rest => k ++ displayRest rest
  | .unknown :: rest => "?" ++ displayRest rest

end TextStep

inductive Found where
  | scalar (v : Scalar)
  | list
  | object
deriving DecidableEq

inductive Expected where
  | preparedNode
  | authoredNode
  | methodName
deriving DecidableEq

def Found.display : Found → String
  | .scalar .null => "null"
  | .scalar (.bool b) => s!"boolean `{b}`"
  | .scalar (.number (.int i)) => s!"integer `{i}`"
  | .scalar (.number (.float f)) => s!"floating point `{String.ofList (Number.float f).chars}`"
  | .scalar (.string s) => s!"string {String.ofList (Json.quote s)}"
  | .list => "sequence"
  | .object => "map"

def Expected.display : Expected → String
  | preparedNode => "a type marker, an array, or an object of schema nodes"
  | authoredNode => "a type name, a [method, ...items] array, or an object of schema nodes"
  | methodName => "a string"

inductive SchemaDefect where
  | json (d : Defect)
  | unknownMarker (s : String)
  | unknownType (s : String)
  | unknownMethod (s : String)
  | methodMissing
  | invalid (found : Found) (expected : Expected)
deriving DecidableEq

def SchemaDefect.message : SchemaDefect → String
  | json d => d.message
  | unknownMarker s => s!"unknown type marker `{s}`"
  | unknownType s => s!"unknown type `{s}`"
  | unknownMethod s =>
    s!"unknown array method `{s}` (expected one of: " ++ ", ".intercalate (Builtin.all.map Builtin.name) ++ ")"
  | methodMissing => "array schema is missing its stringification method"
  | invalid found expected => s!"invalid type: {found.display}, expected {expected.display}"

/-- A refusal inside a text, `left` bytes before its end. -/
structure Refusal where
  path : List TextStep
  defect : SchemaDefect
  left : Nat
deriving DecidableEq

namespace Refusal

def ofFault (f : Fault) : Refusal := ⟨[], .json f.defect, f.left⟩

/-- The refusal seen from the value that holds the refused one. -/
def under (s : TextStep) (r : Refusal) : Refusal := { r with path := s :: r.path }

def detail (t : Text) (r : Refusal) : String := Text.located t r.left r.defect.message

end Refusal

/-- A text that was refused as a schema. -/
structure LoadError where
  path : String
  detail : String
deriving DecidableEq

def LoadError.message (e : LoadError) : String := s!"at JSON path {e.path} → {e.detail}"

def Refusal.toLoadError (t : Text) (r : Refusal) : LoadError := ⟨TextStep.display r.path, r.detail t⟩

end LeafPlan
