import LeafPlan.CommandLine.Stages

/-!
# Runs

A run compiles the schema, and for a `read` command reads all documents; only then it puts out a text,
to a file or to the standard output. All of this works on one world, which it may change at any time.
-/

namespace LeafPlan

structure World where
  files : Files
  printed : String
  log : List LogRecord

/-- A part of a run. Where it fails, what it has done to the world stays done. -/
abbrev Run (α : Type) := ExceptT RunError (StateM World) α

namespace Run

def ofExcept {α : Type} (x : Except RunError α) : Run α := ExceptT.mk (pure x)

def tell (r : LogRecord) : Run Unit := modify fun w => { w with log := w.log ++ [r] }

def print (text : String) : Run Unit := modify fun w => { w with printed := w.printed ++ text }

def readFile (file : String) : Run (Except OsError ByteArray) := do return (← get).files.read file

def expand (tools : Tools) (pattern : String) : Run (Except GlobError (List GlobEntry)) := do
  return tools.expand (← get).files pattern

def makeDirectories (absolute : Bool) (names : List String) : Run Unit := do
  let w ← get
  let (files, failure) := w.files.makeDirectories absolute names
  set { w with files }
  match failure with
  | none => return
  | some e => throw (.directories e)

def writeFile (file : String) (bytes : ByteArray) : Run Unit := do
  let w ← get
  match w.files.write file bytes with
  | .ok files => set { w with files }
  | .error e => throw (.unwritable file e)

/-! ### The schema -/

def loadSchema {α : Type} (loader : Text → Except LoadError α) (role : SchemaRole) (file : String) : Run α := do
  ofExcept (SchemaOptions.loaded loader role file (← readFile file))

def walk (s : SchemaOptions) : Run Walk := do
  let authored ← loadSchema Authored.load .authored s.authored
  let prepared ←
    match s.prepared with
    | some file => loadSchema Prepared.load .prepared file
    | none => pure authored.prepare
  return (⟨id, s.maxDepth⟩ : Compiler).walk prepared (some authored)

def compile (s : SchemaOptions) : Run Plan := do
  let walk ← walk s
  walk.log.forM tell
  let plan ← ofExcept (walk.plan.mapError .notCompiled)
  tell (.planReady plan.size)
  return plan

/-! ### The inputs -/

def filesOf (tools : Tools) (input : String) : Run (List String) := do
  if Glob.isPattern input then ofExcept (InputOptions.matched input (← expand tools input)) else return [input]

def resolve (tools : Tools) (inputs : List String) : Run (List String) := do
  return (← inputs.mapM (filesOf tools)).flatten

def readSource (file : String) : Run (List Char) := do ofExcept (InputOptions.decoded file (← readFile file))

def documentsOf (o : InputOptions) (runner : FilterRunner) (file : String) : Run (List Json) := do
  let source ← readSource file
  let documents ← ofExcept (InputOptions.documentsOf o.lines file source)
  let picked ← documents.mapM fun d => ofExcept (o.select runner file d)
  return picked.flatten

def loadDocuments (o : InputOptions) (tools : Tools) : Run (List Json) := do
  let paths ← resolve tools o.inputs
  let documents := (← paths.mapM (documentsOf o tools.filter)).flatten
  tell (.documentsReady documents.length)
  return documents

/-! ### The output -/

def textOf (c : Command) (coloured : Bool) (tools : Tools) (plan : Plan) : Run String := do
  match c with
  | .plan _ json out => return if json then plan.json.indented else plan.table (coloured && out.isNone)
  | .read _ input _ =>
    let documents ← loadDocuments input tools
    return "\n".intercalate (documents.map fun d => (plan.row d).compact)

/-- Everything in front of the output. -/
def prepare (c : Command) (coloured : Bool) (tools : Tools) : Run String := do
  textOf c coloured tools (← compile c.schema)

def emit (out : Option String) (text : String) : Run Unit := do
  match out with
  | none => print (text ++ "\n")
  | some file =>
    let path := FilePath.parse file
    makeDirectories path.absolute path.parentNames
    writeFile file text.toUTF8

def command (c : Command) (coloured : Bool) (tools : Tools) : Run Unit := do
  emit c.out (← prepare c coloured tools)

end Run

/-- What a run leaves: its log, what it printed, the files, and why it failed if it did. -/
structure RunReport where
  log : List LogRecord
  printed : String
  files : Files
  failure : Option RunError

namespace CommandLine

def run (c : CommandLine) (coloured : Bool) (tools : Tools) (files : Files) : RunReport :=
  let (outcome, w) := (Run.command c.command coloured tools).run.run ⟨files, "", []⟩
  let failure :=
    match outcome with
    | .ok _ => none
    | .error e => some e
  ⟨w.log, w.printed, w.files, failure⟩

end CommandLine

end LeafPlan
