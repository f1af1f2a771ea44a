import LeafPlan.Filter.Engine
import LeafPlan.Filter.Eval

/-!
# The engine at work

The language of the other modules as an engine, and filters put to documents by it.
-/

namespace LeafPlan.Filter

/-- The names that stand for something in every filter. -/
def scope : Scope :=
  { filters :=
      [("empty", 0), ("error", 0), ("error", 1), ("path", 1), ("first", 1), ("last", 1), ("limit", 2),
        ("skip", 2), ("range", 3)] ++ Function.byKey.map (fun p => (p.1, 1)) ++ Function.names ++
        Prelude.definitions.map fun d => (d.name, d.parameters.length)
    values := []
    labels := [] }

def Raised.shown : Raised → String
  | error payload => payload.text
  | broken id => s!"break {id}"
  | tooDeep => "too deep"

/-- Where a source cannot be read, nothing more is told of it. -/
def engine : Engine where
  Source := String × Term
  Program := Term
  Value := Value
  load source :=
    match Term.ofText? source with
    | none => .error [⟨source, "syntax"⟩]
    | some t => .ok (source, t)
  compile := fun (source, t) =>
    match scope.undefinedIn t with
    | [] => .ok t
    | names => .error [⟨source, names.map fun u => (u.name, u.kind)⟩]
  ofJson := Value.ofJson
  outputs t v :=
    (Eval.run Eval.depth Environment.prelude t (Eval.plain v)).map fun
      | .error r => .error r.shown
      | .ok i => .ok i.value
  text := Value.text

def run (source : String) (d : Json) : Except Failure (List Json) := engine.run source d

end LeafPlan.Filter
