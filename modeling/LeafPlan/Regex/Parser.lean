import LeafPlan.Regex.Basic

/-!
# Regular expressions from texts

Groups are counted by their opening parentheses, from 1. A text that is no regular expression has none.
-/

namespace LeafPlan.Regex

structure Flags where
  ignoreCase : Bool
  /-- White space and comments between the parts are skipped. -/
  spaced : Bool
  /-- A dot stands for a line feed as well. -/
  dotAll : Bool
  /-- Borders of texts are borders of lines. -/
  lines : Bool
  /-- Repetitions are short where they would be long, and long where they would be short. -/
  swapped : Bool

/-- The groups counted so far, and the names of those that have one. -/
structure Groups where
  count : Nat
  names : List (Nat × String)

namespace Parser

def single (f : Flags) (c : Char) : Regex := .one ⟨[.range c c], false, f.ignoreCase⟩

def hex? (c : Char) : Option Nat :=
  if c.isDigit then some (c.toNat - 48)
  else if 'a' ≤ c && c ≤ 'f' then some (c.toNat - 87)
  else if 'A' ≤ c && c ≤ 'F' then some (c.toNat - 55)
  else none

def character? (n : Nat) : Option Char := if h : n.isValidChar then some (Char.ofNatAux n h) else none

def hexCharacter? (digits : List Char) : Option Char := do
  if digits.isEmpty then none
  let n ← digits.foldlM (fun n c => (hex? c).map (n * 16 + ·)) 0
  character? n

/-- A number in hexadecimal digits: so many of them, or any number between braces. -/
def hexEscape (width : Nat) (s : List Char) : Option (Char × List Char) :=
  match s with
  | '{' :: rest => do
    let c ← hexCharacter? (rest.takeWhile (· ≠ '}'))
    match rest.dropWhile (· ≠ '}') with
    | _ :: rest => some (c, rest)
    | [] => none
  | s => if s.length < width then none else (hexCharacter? (s.take width)).map fun c => (c, s.drop width)

inductive Escape where
  | char (c : Char)
  | members (m : ClassPart)
  | border (b : Border)

def escape (s : List Char) : Option (Escape × List Char) :=
  match s with
  | [] => none
  | c :: rest =>
    match c with
    | 'd' => some (.members (.digit false), rest)
    | 'D' => some (.members (.digit true), rest)
    | 's' => some (.members (.space false), rest)
    | 'S' => some (.members (.space true), rest)
    | 'w' => some (.members (.word false), rest)
    | 'W' => some (.members (.word true), rest)
    | 'b' => some (.border (.word false), rest)
    | 'B' => some (.border (.word true), rest)
    | 'A' => some (.border .textStart, rest)
    | 'z' => some (.border .textStop, rest)
    | 'n' => some (.char '\n', rest)
    | 't' => some (.char '\t', rest)
    | 'r' => some (.char '\r', rest)
    | 'f' => some (.char '\x0c', rest)
    | 'v' => some (.char '\x0b', rest)
    | 'a' => some (.char '\x07', rest)
    | 'x' => (hexEscape 2 rest).map fun (c, rest) => (.char c, rest)
    | 'u' => (hexEscape 4 rest).map fun (c, rest) => (.char c, rest)
    | 'U' => (hexEscape 8 rest).map fun (c, rest) => (.char c, rest)
    | c => if c.isAlphanum || 128 ≤ c.toNat then none else some (.char c, rest)

/-- Named classes between `[:` and `:]`. -/
def named? (name : String) : Option (List ClassPart) :=
  match name with
  | "alpha" => some [.range 'a' 'z', .range 'A' 'Z']
  | "digit" => some [.range '0' '9']
  | "alnum" => some [.range 'a' 'z', .range 'A' 'Z', .range '0' '9']
  | "upper" => some [.range 'A' 'Z']
  | "lower" => some [.range 'a' 'z']
  | "space" => some [.range '\t' '\r', .range ' ' ' ']
  | "blank" => some [.range ' ' ' ', .range '\t' '\t']
  | "punct" => some [.range '!' '/', .range ':' '@', .range '[' '\x60', .range '\x7b' '~']
  | "xdigit" => some [.range '0' '9', .range 'a' 'f', .range 'A' 'F']
  | "word" => some [.range 'a' 'z', .range 'A' 'Z', .range '0' '9', .range '_' '_']
  | _ => none

/-- One end of a range, or the members of an escape. -/
def classItem (s : List Char) : Option (Sum Char ClassPart × List Char) :=
  match s with
  | [] => none
  | '\\' :: rest =>
    match escape rest with
    | some (.char c, rest) => some (.inl c, rest)
    | some (.members m, rest) => some (.inr m, rest)
    | _ => none
  | c :: rest => some (.inl c, rest)

/-- The members of a class up to its closing bracket. `fuel` bounds them. -/
def classMembers (spaced : Bool) : Nat → List Char → Option (List ClassPart × List Char)
  | 0, _ => none
  | fuel + 1, s =>
    match s with
    | [] => none
    | ']' :: rest => some ([], rest)
    | '[' :: ':' :: rest => do
      let ms ← named? (String.ofList (rest.takeWhile (· ≠ ':')))
      match rest.dropWhile (· ≠ ':') with
      | ':' :: ']' :: rest => do
        let (more, rest) ← classMembers spaced fuel rest
        return (ms ++ more, rest)
      | _ => none
    | '[' :: _ => none
    | s => do
      if spaced && s.head?.any Lines.isSpace then classMembers spaced fuel (s.drop 1)
      else
        match ← classItem s with
        | (.inr m, rest) => do
          let (more, rest) ← classMembers spaced fuel rest
          return (m :: more, rest)
        | (.inl a, '-' :: ']' :: rest) => return ([.range a a, .range '-' '-'], rest)
        | (.inl a, '-' :: rest) => do
          match ← classItem rest with
          | (.inl b, rest) =>
            if b < a then none
            else do
              let (more, rest) ← classMembers spaced fuel rest
              return (.range a b :: more, rest)
          | (.inr _, _) => none
        | (.inl a, rest) => do
          let (more, rest) ← classMembers spaced fuel rest
          return (.range a a :: more, rest)

/-- A class behind its opening bracket. A closing bracket that comes first belongs to it. -/
def charClass (f : Flags) (s : List Char) : Option (Regex × List Char) := do
  let (negated, s) :=
    match s with
    | '^' :: rest => (true, rest)
    | s => (false, s)
  let (first, s) :=
    match s with
    | ']' :: rest => ([ClassPart.range ']' ']'], rest)
    | s => ([], s)
  let (ms, rest) ← classMembers f.spaced (s.length + 1) s
  return (.one ⟨first ++ ms, negated, f.ignoreCase⟩, rest)

def natural (s : List Char) : Option (Nat × List Char) :=
  match s.takeWhile Char.isDigit with
  | [] => none
  | ds => some (ds.foldl (fun n c => n * 10 + (c.toNat - 48)) 0, s.dropWhile Char.isDigit)

def counts (s : List Char) : Option ((Nat × Option Nat) × List Char) :=
  match s with
  | '*' :: rest => some ((0, none), rest)
  | '+' :: rest => some ((1, none), rest)
  | '?' :: rest => some ((0, some 1), rest)
  | '{' :: rest =>
    match natural rest with
    | some (n, '}' :: rest) => some ((n, some n), rest)
    | some (n, ',' :: '}' :: rest) => some ((n, none), rest)
    | some (n, ',' :: rest) =>
      match natural rest with
      | some (m, '}' :: rest) => if m < n then none else some ((n, some m), rest)
      | _ => none
    | _ => none
  | _ => none

def isCount (s : List Char) : Bool := s.head?.any fun c => c = '*' || c = '+' || c = '?' || c = '{'

def skip (f : Flags) : List Char → List Char
  | [] => []
  | c :: rest =>
    if f.spaced && Lines.isSpace c then skip f rest
    else if f.spaced && c = '#' then afterLine rest
    else c :: rest
where
  afterLine : List Char → List Char
    | [] => []
    | '\n' :: rest => skip f rest
    | _ :: rest => afterLine rest

/-- Flags in letters; those behind a minus sign are switched off. -/
def flags (on : Bool) (f : Flags) : List Char → Option Flags
  | [] => some f
  | '-' :: rest => if on then flags false f rest else none
  | 'i' :: rest => flags on { f with ignoreCase := on } rest
  | 'x' :: rest => flags on { f with spaced := on } rest
  | 's' :: rest => flags on { f with dotAll := on } rest
  | 'm' :: rest => flags on { f with lines := on } rest
  | 'U' :: rest => flags on { f with swapped := on } rest
  | 'u' :: rest => flags on f rest
  | _ => none

mutual

/-- Alternatives up to a closing parenthesis or the end. -/
def alternatives : Nat → Flags → Groups → List Char → Option (Regex × Groups × List Char)
  | 0, _, _, _ => none
  | fuel + 1, f, g, s => do
    let (x, f, g, s) ← sequence fuel f g s
    match s with
    | '|' :: rest => do
      let (y, g, s) ← alternatives fuel f g rest
      return (.either x y, g, s)
    | s => return (x, g, s)

/-- One alternative, and the flags that hold behind it. -/
def sequence : Nat → Flags → Groups → List Char → Option (Regex × Flags × Groups × List Char)
  | 0, _, _, _ => none
  | fuel + 1, f, g, s =>
    match skip f s with
    | [] => some (.empty, f, g, [])
    | ')' :: rest => some (.empty, f, g, ')' :: rest)
    | '|' :: rest => some (.empty, f, g, '|' :: rest)
    | s => do
      let (x, f, g, s) ← item fuel f g s
      let (x, s) ← repetitions fuel f x (skip f s)
      let (y, f, g, s) ← sequence fuel f g s
      return (.both x y, f, g, s)

def repetitions : Nat → Flags → Regex → List Char → Option (Regex × List Char)
  | 0, _, _, _ => none
  | fuel + 1, f, x, s =>
    if isCount s then do
      let ((least, most), s) ← counts s
      let (short, s) :=
        match s with
        | '?' :: rest => (true, rest)
        | s => (false, s)
      repetitions fuel f (.repeated x least most (short == f.swapped)) (skip f s)
    else some (x, s)

def item : Nat → Flags → Groups → List Char → Option (Regex × Flags × Groups × List Char)
  | 0, _, _, _ => none
  | fuel + 1, f, g, s =>
    match s with
    | [] => none
    | '(' :: '?' :: 'P' :: '<' :: rest => namedGroup fuel f g rest
    | '(' :: '?' :: '<' :: rest => namedGroup fuel f g rest
    | '(' :: '?' :: rest => do
      let f' ← flags true f (rest.takeWhile fun c => c ≠ ':' && c ≠ ')')
      match rest.dropWhile fun c => c ≠ ':' && c ≠ ')' with
      | ':' :: rest => do
        let (x, g, s) ← closed fuel f' g rest
        return (x, f, g, s)
      | ')' :: after => if rest.head? = some ')' then none else some (.empty, f', g, after)
      | _ => none
    | '(' :: rest => do
      let n := g.count + 1
      let (x, g, s) ← closed fuel f { g with count := n } rest
      return (.group n x, f, g, s)
    | '[' :: rest => do
      let (x, s) ← charClass f rest
      return (x, f, g, s)
    | '.' :: rest =>
      let excluded : List ClassPart := if f.dotAll then [] else [.range '\n' '\n']
      some (.one ⟨excluded, true, false⟩, f, g, rest)
    | '^' :: rest => some (.border (if f.lines then .lineStart else .textStart), f, g, rest)
    | '$' :: rest => some (.border (if f.lines then .lineStop else .textStop), f, g, rest)
    | '\\' :: rest => do
      match ← escape rest with
      | (.char c, s) => return (single f c, f, g, s)
      | (.members m, s) => return (.one ⟨[m], false, f.ignoreCase⟩, f, g, s)
      | (.border b, s) => return (.border b, f, g, s)
    | c :: rest => if isCount (c :: rest) then none else some (single f c, f, g, rest)

/-- The inside of a group up to its closing parenthesis. -/
def closed : Nat → Flags → Groups → List Char → Option (Regex × Groups × List Char)
  | 0, _, _, _ => none
  | fuel + 1, f, g, s => do
    match ← alternatives fuel f g s with
    | (x, g, ')' :: rest) => return (x, g, rest)
    | _ => none

def namedGroup : Nat → Flags → Groups → List Char → Option (Regex × Flags × Groups × List Char)
  | 0, _, _, _ => none
  | fuel + 1, f, g, s => do
    let name := String.ofList (s.takeWhile (· ≠ '>'))
    if name = "" || g.names.any (·.2 = name) then none
    else
      match s.dropWhile (· ≠ '>') with
      | _ :: rest => do
        let n := g.count + 1
        let (x, g, s) ← closed fuel f ⟨n, g.names ++ [(n, name)]⟩ rest
        return (.group n x, f, g, s)
      | [] => none

end

end Parser

/-- The regular expression that a text writes, and its groups. -/
def ofText? (f : Flags) (s : String) : Option (Regex × Groups) :=
  match Parser.alternatives (4 * s.toList.length + 4) f ⟨0, []⟩ s.toList with
  | some (r, g, []) => some (r, g)
  | _ => none

end LeafPlan.Regex
