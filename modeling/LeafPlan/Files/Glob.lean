import LeafPlan.Files.Tree

/-!
# File name patterns

A pattern is matched name by name along a path. `?` stands for one character, `*` for any number of
them, `[ab-c]` for one of some characters and `[!ab-c]` for one that is none of them. The name `**`
stands for any number of directories. Names that match come in alphabetical order.
-/

namespace LeafPlan

/-- Some characters of a class: a single one or a range. -/
inductive ClassItem where
  | single (c : Char)
  | range (first last : Char)
deriving DecidableEq

def ClassItem.holds (c : Char) : ClassItem → Bool
  | single d => c == d
  | range first last => first ≤ c && c ≤ last

inductive GlobToken where
  | char (c : Char)
  | anyChar
  | anySequence
  | anyDirectories
  | within (items : List ClassItem)
  | except (items : List ClassItem)
deriving DecidableEq

inductive GlobDefect where
  | wildcards
  | directories
  | range
deriving DecidableEq

structure GlobError where
  position : Nat
  defect : GlobDefect
deriving DecidableEq

def GlobDefect.message : GlobDefect → String
  | wildcards => "wildcards are either regular `*` or recursive `**`"
  | directories => "recursive wildcards must form a single path component"
  | range => "invalid range pattern"

def GlobError.message (e : GlobError) : String :=
  s!"Pattern syntax error near position {e.position}: {e.defect.message}"

/-- A directory that could not be listed when it was to be matched. -/
structure GlobFailure where
  path : String
  error : OsError
deriving DecidableEq

def GlobFailure.message (e : GlobFailure) : String :=
  s!"attempting to read `{e.path}` resulted in an error: {e.error.message}"

/-- A path that matches a pattern, or a failure in its place. -/
abbrev GlobEntry := Except GlobFailure String

namespace Glob

def isPattern (s : String) : Bool := s.toList.any fun c => c = '*' || c = '?' || c = '[' || c = '\x7b'

def classItems : List Char → List ClassItem
  | a :: '-' :: b :: rest => .range a b :: classItems rest
  | a :: rest => .single a :: classItems rest
  | [] => []

/-- The characters up to the first closing bracket, and those behind it. -/
def untilBracket : List Char → Option (List Char × List Char)
  | [] => none
  | ']' :: rest => some ([], rest)
  | c :: rest => (untilBracket rest).map fun (inside, after) => (c :: inside, after)

/-- A class behind its opening bracket. Its first character may be a closing bracket. -/
def readClass : List Char → Option (GlobToken × List Char)
  | '!' :: c :: rest => (untilBracket rest).map fun (inside, after) => (.except (classItems (c :: inside)), after)
  | ['!'] => none
  | c :: rest => (untilBracket rest).map fun (inside, after) => (.within (classItems (c :: inside)), after)
  | [] => none

/-- A run of `n` asterisks that ends at position `i`, with the character before it and the text behind
it. Two of them have to be a name of their own. -/
def stars (n i : Nat) (before : Option Char) (after : List Char) :
    Except GlobError (GlobToken × List Char) :=
  if n = 1 then .ok (.anySequence, after)
  -- the third asterisk is at fault, whatever stands around the run
  else if 2 < n then .error ⟨i - n + 2, .wildcards⟩
  else if before = none || before = some '/' then
    match after with
    | [] => .ok (.anyDirectories, [])
    | '/' :: rest => .ok (.anyDirectories, rest)
    | _ => .error ⟨i, .directories⟩
  else .error ⟨i - n - 1, .directories⟩

/-- The tokens of the text behind position `i`. `fuel` bounds them. -/
def tokensFrom : Nat → Nat → Option Char → List Char → Except GlobError (List GlobToken)
  | 0, _, _, _ => .ok []
  | _, _, _, [] => .ok []
  | fuel + 1, i, before, c :: rest =>
    if c = '?' then do return .anyChar :: (← tokensFrom fuel (i + 1) (some c) rest)
    else if c = '*' then do
      let n := ((c :: rest).takeWhile (· == '*')).length
      let (t, after) ← stars n (i + n) before ((c :: rest).drop n)
      let used := (c :: rest).length - after.length
      return t :: (← tokensFrom fuel (i + used) ((c :: rest)[used - 1]?) after)
    else if c = '[' then
      match readClass rest with
      | none => .error ⟨i, .range⟩
      | some (t, after) => do
        return t :: (← tokensFrom fuel (i + ((c :: rest).length - after.length)) (some ']') after)
    else do return .char c :: (← tokensFrom fuel (i + 1) (some c) rest)

def tokens (pattern : List Char) : Except GlobError (List GlobToken) :=
  tokensFrom (pattern.length + 1) 0 none pattern

def takes (c : Char) : GlobToken → Bool
  | .char d => c == d
  | .anyChar => true
  | .within items => items.any (ClassItem.holds c)
  | .except items => !items.any (ClassItem.holds c)
  | .anySequence | .anyDirectories => false

/-- The name matches when some way to fill the wildcards spells it. -/
def matchName : List GlobToken → List Char → Bool
  | [], name => name.isEmpty
  | .anySequence :: ts, name | .anyDirectories :: ts, name => matchTails ts name
  | _ :: _, [] => false
  | t :: ts, c :: name => takes c t && matchName ts name
where
  /-- Some tail of the name matches. -/
  matchTails (ts : List GlobToken) : List Char → Bool
    | [] => matchName ts []
    | c :: name => matchName ts (c :: name) || matchTails ts name

def literal? : List GlobToken → Option (List Char)
  | [] => some []
  | .char c :: rest => (literal? rest).map (c :: ·)
  | _ => none

def isRecursive (ts : List GlobToken) : Bool := ts.contains .anyDirectories

/-- Paths that are other ways to write the working directory. -/
def isHere (path : String) : Bool :=
  let p := FilePath.parse path
  !p.absolute && !p.names.isEmpty && p.names.all (· = ".")

/-- A path below a directory. Paths below the working directory are written without it. -/
def join (directory name : String) : String :=
  if isHere directory then name
  else if directory.toList.getLast? = some '/' || directory = "" then directory ++ name
  else directory ++ "/" ++ name

/-- The same, with the working directory written out. -/
def joinFull (directory name : String) : String :=
  if directory.toList.getLast? = some '/' || directory = "" then directory ++ name
  else directory ++ "/" ++ name

def names (f : Files) (directory : String) : Except OsError (List String) :=
  (f.list directory).map fun names => names.mergeSort fun a b => a ≤ b

/-- The last name of a path, if it is one. -/
def lastName? (path : String) : Option String :=
  match ((path.splitOn "/").filter fun n => n ≠ "" && n ≠ ".").getLast? with
  | some ".." => none
  | n => n

/-- The paths at or below `path` that match the names of the pattern from here on, and in its place each
directory that had to be listed and could not be. `descend` looks into the directory `path`; otherwise
`path` itself is matched against the first name. `fuel` bounds the steps. -/
def expand (f : Files) (requireDirectory : Bool) : Nat → Bool → String → List (List GlobToken) → List GlobEntry
  | 0, _, _, _ => []
  | _, _, _, [] => []
  | fuel + 1, true, path, ts :: rest =>
    let found (p : String) : List GlobEntry :=
      if rest.isEmpty then if requireDirectory && !f.isDirectory p then [] else [.ok p]
      else expand f requireDirectory fuel true p rest
    match literal? ts with
    -- a name without wildcards is only looked up, hidden or not
    | some name =>
      let name := String.ofList name
      let isDots := name = "." || name = ".."
      let p := join path name
      if (if isDots then f.isDirectory path else f.isThere p) then found p else []
    | none =>
      if f.isDirectory path then
        match names f path with
        | .error e => [.error ⟨path, e⟩]
        | .ok names =>
          -- no directory lists `.` and `..`, but a name that starts with a point may match them
          let dots := if ts.head? = some (.char '.') then
              ([("..", ['.', '.']), (".", ['.'])].filter fun d => matchName ts d.2).flatMap fun d =>
                found (joinFull path d.1)
            else []
          dots ++ names.flatMap fun n => expand f requireDirectory fuel false (join path n) (ts :: rest)
      else []
  | fuel + 1, false, path, ts :: rest =>
    let matchHere (ts : List GlobToken) (rest : List (List GlobToken)) : List GlobEntry :=
      match lastName? path with
      | none => []
      | some name =>
        if matchName ts name.toList then
          if rest.isEmpty then if requireDirectory && !f.isDirectory path then [] else [.ok path]
          else expand f requireDirectory fuel true path rest
        else []
    if isRecursive ts then
      -- one `**` matches whatever several in a row would
      let rest := rest.dropWhile isRecursive
      let isDirectory := f.isDirectory path
      let below := if isDirectory then expand f requireDirectory fuel true path (ts :: rest) else []
      match rest with
      | [] => if isDirectory then .ok path :: below else []
      | next :: rest => matchHere next rest ++ below
    else matchHere ts rest

def depth : Entry → Nat
  | .file _ | .closed _ _ => 1
  | .directory entries => 1 + depths entries
where
  depths : List (String × Entry) → Nat
    | [] => 0
    | (_, e) :: rest => max (depth e) (depths rest)

def components (pattern : String) : List String :=
  match (pattern.splitOn "/").reverse with
  | "" :: rest => rest.reverse
  | parts => parts.reverse

def paths (f : Files) (pattern : String) : Except GlobError (List GlobEntry) := do
  let _ ← tokens pattern.toList
  let absolute := pattern.toList.head? = some '/'
  let relative := if absolute then String.ofList (pattern.toList.dropWhile (· == '/')) else pattern
  let patterns ← (components relative).mapM fun c => tokens c.toList
  let patterns := if absolute && relative = "" then [[]] else patterns
  let requireDirectory := pattern.toList.getLast? = some '/'
  let bound := 2 * (depth f.root + patterns.length) + 2
  return expand f requireDirectory bound true (if absolute then "/" else ".") patterns

end Glob

end LeafPlan
