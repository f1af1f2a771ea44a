import LeafPlan.CommandLine.Arguments
import LeafPlan.CommandLine.Run
import LeafPlan.Filter.Run

/-!
# The program

Takes a picture of the files that the command line names, runs it on them, and carries out the changes.
-/

namespace LeafPlan.Main

def usage : String :=
  "Usage: leafplan [-v]... plan --original FILE [--prepared FILE] [--max-depth N] [--json] [-o FILE]\n" ++
  "       leafplan [-v]... read --original FILE [--prepared FILE] [--max-depth N] [--ndjson]\n" ++
  "                        [--json-pointer POINTER] [--jq-expr FILTER] -i FILE... [-o FILE]"

def usageMessage : UsageError → String
  | .help | .helpForNothing => usage
  | .unknownArgument => "unexpected argument"
  | .unknownCommand => "unrecognized subcommand"
  | .missingCommand => "a subcommand is required"
  | .missingValue => "a value is required for an option"
  | .refusedValue => "invalid value for an option"
  | .unwantedValue => "unexpected value for an option"
  | .repeated => "an option cannot be used multiple times"
  | .missingOption => "a required option is missing"

def absolute (names : List String) : String := "/" ++ "/".intercalate names

/-- The names that a path leads to, with `.` and `..` taken out. -/
def normal (here : List String) (p : FilePath) : List String :=
  let step (names : List String) (n : String) : List String :=
    if n = "." then names else if n = ".." then names.dropLast else names ++ [n]
  p.names.foldl step (if p.absolute then [] else here)

def osError : IO.Error → OsError
  | .permissionDenied .. => .denied
  | e => .other (toString e)

/-- What is at a path, where `inside` tells what a directory with some names holds. -/
def look (path : String) (inside : List String → IO (List (String × Entry))) : IO (Option Entry) := do
  match ← (IO.FS.realPath path).toBaseIO with
  | .error _ => return none
  | .ok place =>
    if ← place.isDir then
      match ← place.readDir.toBaseIO with
      | .error e => return some (.closed true (osError e))
      | .ok entries => return some (.directory (← inside (entries.toList.map fun e => e.fileName)))
    else
      match ← (IO.FS.readBinFile place).toBaseIO with
      | .error e => return some (.closed false (osError e))
      | .ok bytes => return some (.file bytes)

/-- What is at a path, with everything below it. -/
partial def picture (path : String) : IO (Option Entry) :=
  look path fun names => names.filterMapM fun n => do
    return (← picture (path ++ "/" ++ n)).map fun e => (n, e)

/-- What is at a path; of a directory not what it holds. -/
def glimpse (path : String) : IO (Option Entry) := look path fun _ => return []

/-- The tree with what is at the places along `names`, as far as it is not in it yet. -/
def withPlaces (root : Entry) (names : List String) : IO Entry := do
  let mut root := root
  for n in List.range (names.length + 1) do
    let place := names.take n
    if (root.at? place).isNone then
      match ← glimpse (absolute place) with
      | some e => root := Entry.put e place root
      | none => break
  return root

/-- The tree with everything below the directory in which a pattern starts to match. -/
def withPattern (root : Entry) (here : List String) (pattern : String) : IO Entry := do
  let p := FilePath.parse pattern
  let start := normal here { p with names := p.names.takeWhile fun n => !Glob.isPattern n }
  let root ← withPlaces root start
  match ← picture (absolute start) with
  | some e => return Entry.put e start root
  | none => return root

/-- The files that a command may read or write. -/
def filesFor (c : Command) : IO Files := do
  let here := (FilePath.parse (toString (← IO.currentDir))).names
  let inputs :=
    match c with
    | .read _ input _ => input.inputs
    | .plan _ _ _ => []
  let literal := [c.schema.authored] ++ c.schema.prepared.toList ++ c.out.toList ++
    inputs.filter fun i => !Glob.isPattern i
  let mut root ← withPlaces (.directory []) here
  for p in inputs.filter Glob.isPattern do
    root ← withPattern root here p
  for p in literal do
    root ← withPlaces root (normal here (FilePath.parse p))
  return ⟨root, here⟩

/-- Makes what is new below a path. -/
partial def carryOut (path : String) (before : Option Entry) (after : Entry) : IO Unit := do
  match after with
  | .file bytes =>
    let same :=
      match before with
      | some (.file old) => old == bytes
      | _ => false
    unless same do IO.FS.writeBinFile path bytes
  | .closed _ _ => return
  | .directory entries =>
    if before.isNone then IO.FS.createDir path
    for (name, e) in entries do
      carryOut (path ++ "/" ++ name) (before.bind (Entry.at? [name])) e

def failureText : List String → String
  | [] => "Error"
  | [message] => s!"Error: {message}"
  | [message, cause] => s!"Error: {message}\n\nCaused by:\n    {cause}"
  | message :: causes =>
    s!"Error: {message}\n\nCaused by:" ++
      String.join (causes.zipIdx.map fun (c, n) => s!"\n    {n}: {c}")

def runCommand (c : CommandLine) : IO UInt32 := do
  let coloured := (← (← IO.getStdout).isTty) && (← IO.getEnv "NO_COLOR").isNone
  let before ← filesFor c.command
  let report := c.run coloured ⟨Filter.run, Glob.paths⟩ before
  for r in logAt c.level report.log do
    IO.eprintln r.text
  carryOut "" (some before.root) report.files.root
  IO.print report.printed
  match report.failure with
  | none => return 0
  | some e =>
    IO.eprintln (failureText e.chain)
    return 1

end LeafPlan.Main

def main (args : List String) : IO UInt32 := do
  match LeafPlan.CommandLine.parse args with
  | .error .help =>
    IO.println LeafPlan.Main.usage
    return 0
  | .error .helpForNothing =>
    IO.eprintln LeafPlan.Main.usage
    return 2
  | .error e =>
    IO.eprintln s!"error: {LeafPlan.Main.usageMessage e}"
    return 2
  | .ok c => LeafPlan.Main.runCommand c
