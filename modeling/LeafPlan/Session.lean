import LeafPlan.Plan.Basic

/-!
# Sessions

A session applies steps to a document, one after another, through a plan. A step that fails leaves the
document as far as it got.
-/

namespace LeafPlan

inductive Step where
  | read
  | render
  | renderLeaf (i : Nat)
  | write (values : List Json)
  /-- Writes what the plan reads from another document, null for what is absent there. -/
  | copyFrom (source : Json)
  | find (path : Path)
  /-- Overwrites a value that is there. -/
  | replace (path : Path) (value : Json)
  | set (path : Path) (value : Json)
  | reset (document : Json)

inductive Answer where
  | slots (values : List (Option Json))
  | slot (value : Option Json)
  | old (value : Option Json)
  | done
  | failed (e : AccessError)

namespace Session

def edited (e : Edited) : Answer × Json := (e.stopped.elim .done .failed, e.document)

def step (p : Plan) (d : Json) : Step → Answer × Json
  | .read => (.slots (p.read d), d)
  | .render => (.slots (p.render d), d)
  | .renderLeaf i => (.slot (p.leaves[i]?.bind fun l => l.render? d), d)
  | .write values => edited (p.write values d)
  | .copyFrom source => edited (p.write ((p.read source).map fun v => v.getD .null) d)
  | .find path => (.slot (path.find? d), d)
  | .replace path value =>
    match path.place? d with
    | some place => (.old (some place.value), place.fill value)
    | none => (.old none, d)
  | .set path value => edited (path.set value d)
  | .reset document => (.done, document)

/-- The answers of a run of steps, each with the document behind it. -/
def run (p : Plan) (d : Json) : List Step → List (Answer × Json)
  | [] => []
  | s :: rest =>
    let (answer, d) := step p d s
    (answer, d) :: run p d rest

end Session

end LeafPlan
