import LeafPlan.Log

/-!
# Command lines

The command line compiles a schema and shows the plan, or reads documents through it.
-/

namespace LeafPlan

/-- The greatest depth to which a command may be told to follow a schema. -/
def greatestDepth : Nat := 100

structure SchemaOptions where
  authored : String
  /-- The prepared schema, if it is not to be made from the authored one. -/
  prepared : Option String
  maxDepth : Nat
deriving DecidableEq

structure InputOptions where
  /-- Every line of a source is a document. -/
  lines : Bool
  pointer : Option String
  filter : Option String
  /-- Paths of files, or patterns of such paths. There is at least one. -/
  inputs : List String
deriving DecidableEq

inductive Command where
  | plan (schema : SchemaOptions) (json : Bool) (out : Option String)
  | read (schema : SchemaOptions) (input : InputOptions) (out : Option String)
deriving DecidableEq

def Command.schema : Command → SchemaOptions
  | plan s _ _ | read s _ _ => s

def Command.out : Command → Option String
  | plan _ _ out | read _ _ out => out

structure CommandLine where
  /-- How often more log output is asked for. -/
  verbosity : Nat
  command : Command
deriving DecidableEq

/-- The least level that is logged. -/
def CommandLine.level (c : CommandLine) : Level :=
  match c.verbosity with
  | 0 => .warn
  | 1 => .info
  | 2 => .debug
  | _ => .trace

end LeafPlan
