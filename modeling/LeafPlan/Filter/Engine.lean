import LeafPlan.Filter.Outputs
import LeafPlan.Json.Document

/-!
# Filter engines

Filters are written in a language that an engine knows: it loads a source, resolves the names in it and runs the
program on a value. `Engine.run` puts a filter to a document: the document goes in as a value, and every value that
comes out is written as a text and read back as a document.
-/

namespace LeafPlan.Filter

/-- What is wrong with a code, as the engine shows it. -/
structure SourceFault where
  code : String
  shown : String
deriving DecidableEq

/-- The names in a code that stand for nothing, each with what it was looked up as. -/
structure UnknownNames where
  code : String
  names : List (String × String)
deriving DecidableEq

/-- Why a filter makes no documents of a document. -/
inductive Failure where
  | notLoaded (faults : List SourceFault)
  | undefined (unknown : List UnknownNames)
  /-- The filter put out an error, which the engine shows so. -/
  | raised (shown : String)
  /-- The text of an output is no document. -/
  | notADocument (text : String) (fault : Fault)

namespace Failure

def sourceMessage (f : SourceFault) : String := s!"parse error: {f.shown} in `{f.code}`"

def nameMessages (u : UnknownNames) : List String :=
  u.names.map fun (name, kind) => s!"undefined `{name}`: {kind} in `{u.code}`"

def chain : Failure → List String
  | notLoaded faults => ["\n".intercalate (faults.map sourceMessage)]
  | undefined unknown => ["\n".intercalate (unknown.flatMap nameMessages)]
  | raised shown => [s!"jq runtime error: {shown}"]
  | notADocument text fault =>
    [s!"jq produced non-JSON output `{text}`", fault.message (Text.ofString text)]

end Failure

structure Engine where
  Source : Type
  Program : Type
  Value : Type
  load : String → Except (List SourceFault) Source
  compile : Source → Except (List UnknownNames) Program
  ofJson : Json → Value
  /-- What a program puts out for a value: values, and errors as they are shown. -/
  outputs : Program → Value → Outputs (Except String Value)
  text : Value → String

namespace Engine

variable (e : Engine)

def document (v : e.Value) : Except Failure Json :=
  (Json.read (Text.ofString (e.text v))).mapError (.notADocument (e.text v))

/-- The documents of all outputs, or the first failure among them. -/
def documents : Outputs (Except String e.Value) → Except Failure (List Json)
  | .done => .ok []
  | .item (.error shown) _ => .error (.raised shown)
  | .item (.ok v) next => do
    let d ← e.document v
    return d :: (← documents (next ()))

def run (source : String) (d : Json) : Except Failure (List Json) := do
  let loaded ← (e.load source).mapError .notLoaded
  let program ← (e.compile loaded).mapError .undefined
  e.documents (e.outputs program (e.ofJson d))

end Engine

end LeafPlan.Filter
