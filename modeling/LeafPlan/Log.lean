import LeafPlan.Plan.Compiler
import LeafPlan.Text.Inspected

/-!
# Logs

A log record has a level, a source, a message and named fields. `Walk.log` is the log of a compilation: its
visits in order and, if it succeeds, a summary.
-/

namespace LeafPlan

inductive Level where
  | trace
  | debug
  | info
  | warn
deriving DecidableEq

namespace Level

def name : Level → String
  | trace => "TRACE"
  | debug => "DEBUG"
  | info => "INFO"
  | warn => "WARN"

def rank : Level → Nat
  | trace => 0
  | debug => 1
  | info => 2
  | warn => 3

end Level

/-- What a field of a log record holds. -/
inductive FieldValue where
  | flag (b : Bool)
  | count (n : Nat)
  /-- A text that is shown as it is. -/
  | plain (s : String)
  /-- A text that is shown between quotes. -/
  | quoted (s : String)

def FieldValue.text : FieldValue → String
  | flag true => "true"
  | flag false => "false"
  | count n => toString n
  | plain s => s
  | quoted s => Inspected.write s

inductive LogRecord where
  | visit (v : Visit)
  | compiled (leaves : Nat)
  /-- The command line has the plan it works with. -/
  | planReady (leaves : Nat)
  | documentsReady (documents : Nat)

namespace LogRecord

def level : LogRecord → Level
  | visit (.descend _ _) => .trace
  | visit (.leaf _ _) => .debug
  | compiled _ => .debug
  | planReady _ => .info
  | documentsReady _ => .debug

def source : LogRecord → String
  | visit _ | compiled _ => "sjs_plan::plan"
  | planReady _ | documentsReady _ => "sjs_plan::cli"

def message : LogRecord → String
  | visit (.descend _ _) => "descend"
  | visit (.leaf _ _) => "leaf"
  | compiled _ => "compiled plan"
  | planReady _ => "schema compiled"
  | documentsReady _ => "inputs loaded"

def fields : LogRecord → List (String × FieldValue)
  | visit (.descend path props) => [("path", .plain path.display), ("props", .count props)]
  | visit (.leaf path l) =>
    [("path", .plain path.display), ("is_array", .flag l.kind.isList)] ++
      (l.kind.method?.map fun m => ("method", FieldValue.quoted m.name)).toList
  | compiled leaves | planReady leaves => [("leaves", .count leaves)]
  | documentsReady documents => [("documents", .count documents)]

/-- The record as it is logged. -/
def text (r : LogRecord) : String :=
  r.level.name ++ " " ++ r.source ++ ": " ++ r.message ++
    String.join (r.fields.map fun (name, v) => " " ++ name ++ "=" ++ v.text)

end LogRecord

def logAt (level : Level) (log : List LogRecord) : List LogRecord :=
  log.filter fun r => level.rank ≤ r.level.rank

def Walk.log (w : Walk) : List LogRecord :=
  w.visits.map LogRecord.visit ++
    match w.stopped with
    | none => [.compiled w.leaves.length]
    | some _ => []

end LeafPlan
