import LeafPlan.CommandLine.Basic

/-!
# Arguments

The arguments are taken one by one. An option whose value stands in the next argument waits for it; it
is settled by the next option, or at the end. A value never starts with a minus sign, but it may be one
alone.
-/

namespace LeafPlan

inductive UsageError where
  | help
  | helpForNothing
  | unknownArgument
  | unknownCommand
  | missingCommand
  /-- An option without a value, or with an empty one where that means nothing. -/
  | missingValue
  | refusedValue
  | unwantedValue
  | repeated
  | missingOption
deriving DecidableEq

namespace Arguments

/-- What an option takes, and what it accepts. -/
inductive Taking where
  | help
  | count
  | flag
  | path
  | text
  | depth
  /-- Any number of texts, but at least one. -/
  | texts
deriving DecidableEq

def Taking.takesValue : Taking → Bool
  | help | count | flag => false
  | path | text | depth | texts => true

structure OptionSpec where
  name : String
  short : Option Char
  taking : Taking
deriving DecidableEq

def common : List OptionSpec := [⟨"verbose", some 'v', .count⟩, ⟨"help", some 'h', .help⟩]

def schemaOptions : List OptionSpec :=
  [⟨"original", none, .path⟩, ⟨"prepared", none, .path⟩, ⟨"max-depth", none, .depth⟩]

def planOptions : List OptionSpec :=
  schemaOptions ++ [⟨"json", none, .flag⟩, ⟨"out", some 'o', .path⟩] ++ common

def readOptions : List OptionSpec :=
  schemaOptions ++
    [⟨"ndjson", none, .flag⟩, ⟨"json-pointer", none, .text⟩, ⟨"jq-expr", none, .text⟩,
      ⟨"input", some 'i', .texts⟩, ⟨"out", some 'o', .path⟩] ++ common

/-- The options given so far, each with its values. -/
abbrev Given := List (OptionSpec × List String)

namespace Given

def count (name : String) (g : Given) : Nat := (g.filter fun p => p.1.name = name).length

def has (name : String) (g : Given) : Bool := g.any fun p => p.1.name = name

def values (name : String) (g : Given) : List String :=
  (g.filter fun p => p.1.name = name).flatMap Prod.snd

end Given

/-- A natural number of 64 bits; a plus sign may stand in front. -/
def natural? (s : String) : Option Nat :=
  let digits :=
    match s.toList with
    | '+' :: rest => rest
    | rest => rest
  if digits.isEmpty || !digits.all Char.isDigit then none
  else
    let n := digits.foldl (fun n c => n * 10 + (c.toNat - '0'.toNat)) 0
    if n ≤ 18446744073709551615 then some n else none

def depth? (s : String) : Option Nat :=
  (natural? s).filter fun n => 1 ≤ n && n ≤ greatestDepth

def check (t : Taking) (value : String) : Except UsageError Unit :=
  match t with
  | .path => if value = "" then .error .missingValue else .ok ()
  | .depth => if (depth? value).isNone then .error .refusedValue else .ok ()
  | _ => .ok ()

/-- Takes up an option with all its values. -/
def settle (o : OptionSpec) (values : List String) (g : Given) : Except UsageError Given := do
  match o.taking with
  | .help => .error .help
  | .count => return g ++ [(o, [])]
  | .flag => if g.has o.name then .error .repeated else return g ++ [(o, [])]
  | _ =>
    -- a repetition is found before the values are checked
    if values.isEmpty then .error .missingValue
    else if o.taking ≠ .texts && g.has o.name then .error .repeated
    else
      values.forM (check o.taking)
      return g ++ [(o, values)]

/-- The options taken up, and one that waits for values. -/
structure State where
  given : Given
  waiting : Option (OptionSpec × List String)

namespace State

/-- Settles the option that waits. -/
def settled (s : State) : Except UsageError Given :=
  match s.waiting with
  | none => .ok s.given
  | some (o, values) => settle o values s.given

/-- Takes up an option whose value, if it takes one, stands with it. -/
def take (s : State) (o : OptionSpec) (values : List String) : Except UsageError State := do
  return ⟨← settle o values (← s.settled), none⟩

/-- Takes up an option whose values follow. -/
def await (s : State) (o : OptionSpec) : Except UsageError State := do
  return ⟨← s.settled, some (o, [])⟩

/-- Whether the next argument may be a value: several texts never end by themselves. -/
def acceptsValue (s : State) : Bool :=
  match s.waiting with
  | none => false
  | some (o, values) => o.taking = .texts || values.isEmpty

/-- Takes an argument that is no option. -/
def takeValue (s : State) (value : String) : Except UsageError State :=
  match s.waiting with
  | some (o, values) =>
    if s.acceptsValue then .ok { s with waiting := some (o, values ++ [value]) } else .error .unknownArgument
  | none => .error .unknownArgument

end State

/-- The characters in front of an equals sign, and those behind it if there is one. -/
def splitValue : List Char → List Char × Option (List Char)
  | [] => ([], none)
  | c :: rest =>
    if c = '=' then ([], some rest)
    else
      let (name, value) := splitValue rest
      (c :: name, value)

/-- An option by its name, with or without its value. -/
def longOption (options : List OptionSpec) (s : State) (cs : List Char) : Except UsageError State :=
  let (name, value) := splitValue cs
  match options.find? fun o => o.name = String.ofList name, value with
  | none, _ => .error .unknownArgument
  | some o, some v =>
    if o.taking.takesValue then s.take o [String.ofList v] else .error .unwantedValue
  | some o, none => if o.taking.takesValue then s.await o else s.take o []

/-- Options by their letters. What follows the letter of one that takes a value is that value. -/
def shortOptions (options : List OptionSpec) (s : State) : List Char → Except UsageError State
  | [] => .ok s
  | c :: rest =>
    match options.find? fun o => o.short = some c with
    | none => .error .unknownArgument
    | some o =>
      if o.taking.takesValue then
        match rest with
        | [] => s.await o
        | '=' :: value => s.take o [String.ofList value]
        | value => s.take o [String.ofList value]
      else do shortOptions options (← s.take o []) rest

inductive Kind where
  | separator
  | long (cs : List Char)
  | short (cs : List Char)
  | value

def kind (arg : String) : Kind :=
  match arg.toList with
  | ['-', '-'] => .separator
  | '-' :: '-' :: cs => .long cs
  | ['-'] => .value
  | '-' :: cs => .short cs
  | _ => .value

/-- The options in the arguments of a command. There is nothing behind a separator. -/
def options (specs : List OptionSpec) (s : State) : List String → Except UsageError Given
  | [] => s.settled
  | arg :: rest =>
    match kind arg with
    -- no command takes plain arguments
    | .separator => if rest.isEmpty then s.settled else .error .unknownArgument
    | .long cs => do options specs (← longOption specs s cs) rest
    | .short cs => do options specs (← shortOptions specs s cs) rest
    | .value => do options specs (← s.takeValue arg) rest

def one? (name : String) (g : Given) : Option String := (g.values name).head?

def required (name : String) (g : Given) : Except UsageError String :=
  match one? name g with
  | some v => .ok v
  | none => .error .missingOption

def schemaOptionsOf (g : Given) : Except UsageError SchemaOptions := do
  return {
    authored := ← required "original" g
    prepared := one? "prepared" g
    maxDepth := ((one? "max-depth" g).bind depth?).getD defaultDepth }

/-- The verbosity behind a command counts; where none is given there, the one in front does. -/
def verbosity (outer : Nat) (g : Given) : Nat :=
  if g.has "verbose" then g.count "verbose" else outer

def plan (outer : Nat) (args : List String) : Except UsageError CommandLine := do
  let g ← options planOptions ⟨[], none⟩ args
  let schema ← schemaOptionsOf g
  return ⟨verbosity outer g, .plan schema (g.has "json") (one? "out" g)⟩

def read (outer : Nat) (args : List String) : Except UsageError CommandLine := do
  let g ← options readOptions ⟨[], none⟩ args
  let schema ← schemaOptionsOf g
  let _ ← required "input" g
  let input : InputOptions :=
    { lines := g.has "ndjson", pointer := one? "json-pointer" g, filter := one? "jq-expr" g,
      inputs := g.values "input" }
  return ⟨verbosity outer g, .read schema input (one? "out" g)⟩

def commandNames : List String := ["plan", "read", "help"]

/-- Help for a command. Commands have no commands of their own. -/
def help : List String → UsageError
  | [] => .help
  | [name] => if commandNames.contains name then .help else .unknownCommand
  | _ => .unknownCommand

/-- The arguments from the start up to the command, behind `given`. -/
def root (given : Given) : List String → Except UsageError CommandLine
  | [] => .error (if given.isEmpty then .helpForNothing else .missingCommand)
  | arg :: rest =>
    match kind arg with
    | .separator =>
      match rest with
      | [] => .error (if given.isEmpty then .helpForNothing else .missingCommand)
      | name :: _ => .error (if commandNames.contains name then .unknownArgument else .unknownCommand)
    | .long cs => do root (← longOption common ⟨given, none⟩ cs).given rest
    | .short cs => do root (← shortOptions common ⟨given, none⟩ cs).given rest
    | .value =>
      let outer := given.count "verbose"
      match arg with
      | "plan" => plan outer rest
      | "read" => read outer rest
      | "help" => .error (help rest)
      | _ => .error .unknownCommand

end Arguments

def CommandLine.parse (args : List String) : Except UsageError CommandLine := Arguments.root [] args

end LeafPlan
