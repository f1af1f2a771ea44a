import LeafPlan.CommandLine.Basic
import LeafPlan.CommandLine.Table
import LeafPlan.Files.Glob
import LeafPlan.Filter.Engine
import LeafPlan.Schema.Loader
import LeafPlan.Text.Lines

/-!
# Stages

What the stages of a command find in given files: the schema and its plan, the paths that the inputs name, and the
documents in them. Each stage has its own errors.
-/

namespace LeafPlan

inductive SchemaRole where
  | authored
  | prepared
deriving DecidableEq

inductive RunError where
  | schemaUnreadable (role : SchemaRole) (file : String) (e : OsError)
  | schemaRefused (role : SchemaRole) (file : String) (e : LoadError)
  | notCompiled (e : CompileError)
  | pattern (e : GlobError)
  | unlisted (e : GlobFailure)
  | noMatch (pattern : String)
  | sourceUnreadable (file : String) (e : OsError)
  /-- The file holds bytes that are no text. -/
  | sourceUnencoded (file : String)
  /-- The file, or one of its lines, is no document. -/
  | sourceRefused (file : String) (text : Text) (fault : Fault)
  | pointer (pointer file : String)
  | filter (file : String) (e : Filter.Failure)
  | directories (e : OsError)
  | unwritable (file : String) (e : OsError)

def SchemaRole.name : SchemaRole → String
  | authored => "original"
  | prepared => "prepared"

namespace RunError

def schemaContext (role : SchemaRole) (file : String) : String := s!"loading {role.name} schema {file}"

def filterContext (file : String) : String := s!"failed to apply jq expression to source file ({file})"

def chain : RunError → List String
  | schemaUnreadable role file e =>
    [schemaContext role file, s!"failed to read {file}: {e.message}", e.message]
  | schemaRefused role file e => [schemaContext role file, e.message]
  | notCompiled e => [e.message]
  | pattern e => [e.message]
  | unlisted e => [e.message]
  | noMatch p => [s!"glob pattern matched no files: {p}"]
  | sourceUnreadable file e => [s!"failed to read source file {file}", e.message]
  | sourceUnencoded file => [s!"failed to read source file {file}", "stream did not contain valid UTF-8"]
  | sourceRefused file text fault => [s!"failed to parse JSON source file ({file})", fault.message text]
  | .pointer p file => [s!"JSON pointer {p} matched nothing in {file}"]
  | .filter file e => filterContext file :: e.chain
  | directories e => [e.message]
  | unwritable file e => [s!"writing {file}", e.message]

end RunError

/-- A filter put to work: the documents that it makes of one. -/
abbrev FilterRunner := String → Json → Except Filter.Failure (List Json)

/-- What commands are handed: filters, and the paths in files that match a pattern. -/
structure Tools where
  filter : FilterRunner
  expand : Files → String → Except GlobError (List GlobEntry)

namespace SchemaOptions

/-- The schema in what was read from a file. -/
def loaded {α : Type} (loader : Text → Except LoadError α) (role : SchemaRole) (file : String) :
    Except OsError ByteArray → Except RunError α
  | .error e => .error (.schemaUnreadable role file e)
  | .ok bytes => (loader (Text.ofBytes bytes)).mapError (.schemaRefused role file)

def load {α : Type} (files : Files) (loader : Text → Except LoadError α) (role : SchemaRole)
    (file : String) : Except RunError α :=
  loaded loader role file (files.read file)

/-- The walk over the schema, with the authored one at hand. -/
def walk (s : SchemaOptions) (files : Files) : Except RunError Walk := do
  let authored ← load files Authored.load .authored s.authored
  let prepared ←
    match s.prepared with
    | some file => load files Prepared.load .prepared file
    | none => .ok authored.prepare
  return (⟨id, s.maxDepth⟩ : Compiler).walk prepared (some authored)

end SchemaOptions

namespace InputOptions

/-- The paths that a pattern led to. The first directory that could not be listed is an error. -/
def matched (pattern : String) : Except GlobError (List GlobEntry) → Except RunError (List String)
  | .error e => .error (.pattern e)
  | .ok [] => .error (.noMatch pattern)
  | .ok entries => entries.mapM fun entry => entry.mapError .unlisted

def filesOf (tools : Tools) (files : Files) (input : String) : Except RunError (List String) :=
  if Glob.isPattern input then matched input (tools.expand files input) else .ok [input]

def resolve (tools : Tools) (files : Files) (inputs : List String) : Except RunError (List String) := do
  return (← inputs.mapM (filesOf tools files)).flatten

def parse (file : String) (text : Text) : Except RunError Json :=
  (Json.read text).mapError (.sourceRefused file text)

/-- The documents of a source: one for each line that is not blank, or a single one. -/
def documentsOf (lines : Bool) (file : String) (source : List Char) : Except RunError (List Json) :=
  if lines then
    ((Lines.split source).filter fun line => !Lines.isBlank line).mapM fun line =>
      parse file (line.map .char)
  else do return [← parse file (source.map .char)]

/-- What is picked out of a document. -/
def select (o : InputOptions) (runner : FilterRunner) (file : String) (d : Json) :
    Except RunError (List Json) := do
  let d ←
    match o.pointer with
    | none => .ok d
    | some p =>
      match d.pointer? p with
      | some d => .ok d
      | none => .error (.pointer p file)
  match o.filter with
  | none => return [d]
  | some source => (runner source d).mapError (.filter file)

/-- The characters in what was read from a file. -/
def decoded (file : String) : Except OsError ByteArray → Except RunError (List Char)
  | .error e => .error (.sourceUnreadable file e)
  | .ok bytes =>
    match Text.chars? (Text.ofBytes bytes) with
    | some source => .ok source
    | none => .error (.sourceUnencoded file)

def readSource (files : Files) (file : String) : Except RunError (List Char) := decoded file (files.read file)

/-- The documents of a file: all of it is parsed before anything is picked out. -/
def ofFile (o : InputOptions) (runner : FilterRunner) (files : Files) (file : String) :
    Except RunError (List Json) := do
  let source ← readSource files file
  let documents ← documentsOf o.lines file source
  return (← documents.mapM (o.select runner file)).flatten

def load (o : InputOptions) (tools : Tools) (files : Files) : Except RunError (List Json) := do
  let paths ← resolve tools files o.inputs
  return (← paths.mapM (o.ofFile tools.filter files)).flatten

end InputOptions

/-- The outcome of a stage that only reads, behind the log of it. -/
abbrev Staged (α : Type) := List LogRecord × Except RunError α

namespace Command

def plan? (c : Command) (files : Files) : Staged Plan :=
  match c.schema.walk files with
  | .error e => ([], .error e)
  | .ok w =>
    match w.plan with
    | .error e => (w.log, .error (.notCompiled e))
    | .ok p => (w.log ++ [.planReady p.size], .ok p)

/-- The text of the command's output. Only a terminal gets colours. -/
def textOf (c : Command) (coloured : Bool) (tools : Tools) (files : Files) (p : Plan) : Staged String :=
  match c with
  | plan _ json out => ([], .ok (if json then p.json.indented else p.table (coloured && out.isNone)))
  | read _ input _ =>
    match input.load tools files with
    | .error e => ([], .error e)
    | .ok documents =>
      ([.documentsReady documents.length],
        .ok ("\n".intercalate (documents.map fun d => (p.row d).compact)))

/-- Everything in front of the output. -/
def prepare (c : Command) (coloured : Bool) (tools : Tools) (files : Files) : Staged String :=
  match c.plan? files with
  | (log, .error e) => (log, .error e)
  | (log, .ok p) =>
    let (more, text) := c.textOf coloured tools files p
    (log ++ more, text)

end Command

/-- Puts a text out: into a file, whose directories are made, or to the standard output. -/
def emit (out : Option String) (text : String) (files : Files) : String × Files × Option RunError :=
  match out with
  | none => (text ++ "\n", files, none)
  | some file =>
    let path := FilePath.parse file
    -- directories that were made stay, also where the file cannot be written
    match files.makeDirectories path.absolute path.parentNames with
    | (files, some e) => ("", files, some (.directories e))
    | (files, none) =>
      match files.write file text.toUTF8 with
      | .ok files => ("", files, none)
      | .error e => ("", files, some (.unwritable file e))

end LeafPlan
