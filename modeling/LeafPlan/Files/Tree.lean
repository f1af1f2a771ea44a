import LeafPlan.Members

/-!
# File trees

A tree of directories and files, and the directory in which a command runs. Paths are texts: names
between slashes, `.` and `..` included, counted from the working directory unless they start with a
slash.
-/

namespace LeafPlan

inductive OsError where
  | notFound
  | exists
  | notDirectory
  | isDirectory
  | denied
  /-- Any other error, told by its message. -/
  | other (message : String)
deriving DecidableEq

def OsError.message : OsError → String
  | notFound => "No such file or directory (os error 2)"
  | .exists => "File exists (os error 17)"
  | notDirectory => "Not a directory (os error 20)"
  | isDirectory => "Is a directory (os error 21)"
  | denied => "Permission denied (os error 13)"
  | other message => message

inductive Entry where
  | file (bytes : ByteArray)
  | directory (entries : List (String × Entry))
  /-- A file or a directory that is there but cannot be opened, for this reason. -/
  | closed (isDirectory : Bool) (reason : OsError)

namespace Entry

def isDirectory : Entry → Bool
  | file _ => false
  | directory _ => true
  | closed isDirectory _ => isDirectory

/-- What a directory holds. -/
def entries : Entry → Except OsError (Members Entry)
  | directory entries => .ok entries
  | closed true reason => .error reason
  | file _ | closed false _ => .error .notDirectory

/-- The entry below `e` along `names`, none of which is `.` or `..`. -/
def at? : List String → Entry → Option Entry
  | [], e => some e
  | name :: names, .directory entries => (Members.find? name entries).bind (at? names)
  | _ :: _, _ => none

/-- The tree with `x` along `names`, whose directories are all there. -/
def put (x : Entry) : List String → Entry → Entry
  | [], _ => x
  | name :: names, .directory entries =>
    .directory (Members.insert name (put x names ((Members.find? name entries).getD (.directory []))) entries)
  | _ :: _, e => e

end Entry

/-- A tree from its root, and the names that lead to the working directory. -/
structure Files where
  root : Entry
  here : List String

/-- A path as a text is split into names. -/
structure FilePath where
  absolute : Bool
  names : List String
  /-- A slash at the end asks for a directory. -/
  slash : Bool
deriving DecidableEq

def FilePath.parse (path : String) : FilePath :=
  { absolute := path.toList.head? = some '/'
    names := (path.splitOn "/").filter fun n => n ≠ ""
    slash := path.toList.getLast? = some '/' }

/-- The names that lead to the directory of a path: all but the last one, where a `.` counts only at
the start. -/
def FilePath.parentNames (p : FilePath) : List String :=
  let names :=
    match p.names with
    | "." :: rest => (if p.absolute then [] else ["."]) ++ rest.filter (· ≠ ".")
    | names => names.filter (· ≠ ".")
  names.dropLast

namespace Files

def start (f : Files) (absolute : Bool) : List String := if absolute then [] else f.here

/-- What the directory along `location` holds. -/
def entriesAt (f : Files) (location : List String) : Except OsError (Members Entry) :=
  match f.root.at? location with
  | none => .error .notFound
  | some e => e.entries

/-- One step from the directory along `location`. -/
def step (f : Files) (location : List String) (name : String) : Except OsError (List String) :=
  match f.entriesAt location with
  | .error e => .error e
  | .ok entries =>
    if name = "." then .ok location
    else if name = ".." then .ok location.dropLast
    else if (Members.find? name entries).isSome then .ok (location ++ [name])
    else .error .notFound

def walk (f : Files) (location names : List String) : Except OsError (List String) :=
  names.foldlM f.step location

/-- The names from the root to what `path` means. -/
def locate (f : Files) (path : String) : Except OsError (List String) :=
  let p := FilePath.parse path
  if path = "" then .error .notFound
  -- a step to `.` succeeds in a directory only
  else f.walk (f.start p.absolute) (if p.slash then p.names ++ ["."] else p.names)

def find (f : Files) (path : String) : Except OsError Entry :=
  match f.locate path with
  | .error e => .error e
  | .ok location =>
    match f.root.at? location with
    | some e => .ok e
    | none => .error .notFound

def isThere (f : Files) (path : String) : Bool :=
  match f.find path with
  | .ok _ => true
  | .error _ => false

def isDirectory (f : Files) (path : String) : Bool :=
  match f.find path with
  | .ok e => e.isDirectory
  | .error _ => false

/-- The names in a directory. -/
def list (f : Files) (path : String) : Except OsError (List String) :=
  match f.find path with
  | .error e => .error e
  | .ok e => e.entries.map Members.keys

def read (f : Files) (path : String) : Except OsError ByteArray :=
  match f.find path with
  | .error e => .error e
  | .ok (.file bytes) => .ok bytes
  | .ok (.directory _) => .error .isDirectory
  | .ok (.closed _ reason) => .error reason

/-- Makes `x` the entry `name` of the directory along `location`. -/
def add (f : Files) (location : List String) (name : String) (x : Entry) : Files :=
  { f with root := Entry.put x (location ++ [name]) f.root }

/-- Puts a file where `path` says. Its directory has to be there, and a file that is there has to be open. -/
def write (f : Files) (path : String) (bytes : ByteArray) : Except OsError Files :=
  let p := FilePath.parse path
  match p.names.getLast? with
  | none => .error .isDirectory
  | some name =>
    match f.walk (f.start p.absolute) p.names.dropLast with
    | .error e => .error e
    | .ok location =>
      match f.entriesAt location with
      | .error e => .error e
      | .ok entries =>
        if p.slash || name = "." || name = ".." then .error .isDirectory
        else
          match Members.find? name entries with
          | some (.directory _) | some (.closed true _) => .error .isDirectory
          | some (.closed false reason) => .error reason
          | some (.file _) | none => .ok (f.add location name (.file bytes))

/-- Makes the directory along `names`. The one above it has to be there. -/
def makeDirectory (f : Files) (absolute : Bool) (names : List String) : Except OsError Files :=
  match names.getLast? with
  | none => .error .exists
  | some name =>
    match f.walk (f.start absolute) names.dropLast with
    | .error e => .error e
    | .ok location =>
      match f.entriesAt location with
      | .error e => .error e
      | .ok entries =>
        if name = "." || name = ".." || (Members.find? name entries).isSome then .error .exists
        else .ok (f.add location name (.directory []))

def isDirectoryAlong (f : Files) (absolute : Bool) (names : List String) : Bool :=
  match f.walk (f.start absolute) names with
  | .error _ => false
  | .ok location => (f.root.at? location).any Entry.isDirectory

/-- Makes the directory along `names` and those above it that are missing. What was made before a
failure stays. -/
def makeDirectories (f : Files) (absolute : Bool) : List String → Files × Option OsError
  | [] => (f, none)
  | name :: rest =>
    match f.makeDirectory absolute (name :: rest) with
    | .ok f => (f, none)
    | .error .notFound =>
      match makeDirectories f absolute (name :: rest).dropLast with
      | (f, some e) => (f, some e)
      | (f, none) =>
        match f.makeDirectory absolute (name :: rest) with
        | .ok f => (f, none)
        | .error e => (f, if f.isDirectoryAlong absolute (name :: rest) then none else some e)
    | .error e => (f, if f.isDirectoryAlong absolute (name :: rest) then none else some e)
termination_by names => names.length

end Files

end LeafPlan
