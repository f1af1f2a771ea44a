import LeafPlan.Json.Numeral

/-!
# Reading JSON

`Outline.read` reads one value from the start of a text, behind blanks, and leaves the rest of the text
alone. Lists and objects may nest 127 deep.
-/

namespace LeafPlan

namespace Symbol

def isBlank (s : Symbol) : Bool :=
  s = .char ' ' || s = .char '\n' || s = .char '\t' || s = .char '\r'

/-- The value of a hexadecimal digit in either case. -/
def hex? : Symbol → Option Nat
  | .char c =>
    if c.isDigit then some (c.toNat - '0'.toNat)
    else if 'a' ≤ c && c ≤ 'f' then some (c.toNat - 'a'.toNat + 10)
    else if 'A' ≤ c && c ≤ 'F' then some (c.toNat - 'A'.toNat + 10)
    else none
  | .stray _ => none

end Symbol

namespace Text

def skipBlanks : Text → Text
  | [] => []
  | s :: rest => if s.isBlank then skipBlanks rest else s :: rest

end Text

namespace Quoted

def hex4 (t : Text) : Except Fault (Nat × Text) :=
  if Text.width t < 4 then .error ⟨.stringUnclosed, 0⟩
  else
    match t with
    | a :: b :: c :: d :: rest =>
      match a.hex?, b.hex?, c.hex?, d.hex? with
      | some a, some b, some c, some d => .ok (((a * 16 + b) * 16 + c) * 16 + d, rest)
      | _, _, _, _ => .error ⟨.escapeInvalid, Text.width t - 4⟩
    | _ => .error ⟨.escapeInvalid, Text.width t - 4⟩

def isLeading (n : Nat) : Bool := 0xD800 ≤ n && n < 0xDC00

def isTrailing (n : Nat) : Bool := 0xDC00 ≤ n && n < 0xE000

/-- The second half of a surrogate pair whose first half is `n`. -/
def trailing (n : Nat) (t : Text) : Except Fault (Char × Text) :=
  match t with
  | [] => .error ⟨.stringUnclosed, 0⟩
  | [.char '\\'] => .error ⟨.stringUnclosed, 0⟩
  | .char '\\' :: .char 'u' :: rest => do
    let (m, rest) ← hex4 rest
    if isTrailing m then
      return (Char.ofNat ((n - 0xD800) * 0x400 + (m - 0xDC00) + 0x10000), rest)
    else .error ⟨.surrogateAlone, Text.width rest⟩
  | .char '\\' :: rest => .error ⟨.surrogateCut, Text.width rest - 1⟩
  | _ => .error ⟨.surrogateCut, Text.width t - 1⟩

def codePoint (t : Text) : Except Fault (Char × Text) := do
  let (n, rest) ← hex4 t
  if isTrailing n then .error ⟨.surrogateAlone, Text.width rest⟩
  else if isLeading n then trailing n rest
  else return (Char.ofNat n, rest)

def named? : Char → Option Char
  | '"' => some '"'
  | '\\' => some '\\'
  | '/' => some '/'
  | 'b' => some '\x08'
  | 'f' => some '\x0c'
  | 'n' => some '\n'
  | 'r' => some '\r'
  | 't' => some '\t'
  | _ => none

def escape (t : Text) : Except Fault (Char × Text) :=
  match t with
  | [] => .error ⟨.stringUnclosed, 0⟩
  | .char 'u' :: rest => codePoint rest
  | .char c :: rest =>
    match named? c with
    | some x => .ok (x, rest)
    | none => .error ⟨.escapeInvalid, Text.width t - 1⟩
  | .stray _ :: _ => .error ⟨.escapeInvalid, Text.width t - 1⟩

/-- The characters up to the closing quote, and the text behind it. `fuel` bounds the symbols read. -/
def body : Nat → Text → Except Fault (List Char × Text)
  | 0, _ => .error ⟨.stringUnclosed, 0⟩
  | fuel + 1, t =>
    match t with
    | [] => .error ⟨.stringUnclosed, 0⟩
    | .char c :: rest =>
      if c = '"' then .ok ([], rest)
      else if c = '\\' then do
        let (x, rest) ← escape rest
        let (cs, after) ← body fuel rest
        return (x :: cs, after)
      else if c.toNat < 0x20 then .error ⟨.controlCharacter, Text.width rest⟩
      else do
        let (cs, after) ← body fuel rest
        return (c :: cs, after)
    | .stray _ :: rest => .error ⟨.encodingInvalid, Text.width rest⟩

def read (t : Text) : Except Fault (String × Text) := do
  let (cs, rest) ← body t.length t
  return (String.ofList cs, rest)

end Quoted

/-- The rest of a word of which `w` is still due. -/
def Text.word : List Char → Text → Except Fault Text
  | [], t => .ok t
  | _ :: _, [] => .error ⟨.valueMissing, 0⟩
  -- the first byte that differs has been looked at
  | c :: w, s :: rest =>
    if s = .char c then Text.word w rest else .error ⟨.wordExpected, s.width + Text.width rest - 1⟩

/-- A scalar at the start of the text, which is not blank and opens no container. -/
def Scalar.read (t : Text) : Except Fault (Scalar × Text) :=
  match t with
  | [] => .error ⟨.valueMissing, 0⟩
  | .char 'n' :: rest => do return (.null, ← Text.word ['u', 'l', 'l'] rest)
  | .char 't' :: rest => do return (.bool true, ← Text.word ['r', 'u', 'e'] rest)
  | .char 'f' :: rest => do return (.bool false, ← Text.word ['a', 'l', 's', 'e'] rest)
  | .char '"' :: rest => do
    let (s, rest) ← Quoted.read rest
    return (.string s, rest)
  | s :: _ =>
    if s = .char '-' || s.digit?.isSome then do
      let (n, rest) ← Numeral.read t
      return (.number n, rest)
    else .error ⟨.valueExpected, Text.width t - 1⟩

namespace Outline

/-- A reader of one value: what it found, and the text behind it unless it was stopped. -/
abbrev Step := Text → Outline × Option Text

/-- Where a look for the end of a list ends, behind an item. -/
def settle (t : Text) : Nat :=
  match Text.skipBlanks t with
  | .char ']' :: rest => Text.width rest
  | .char ',' :: rest => Text.width (Text.skipBlanks rest)
  | rest => Text.width rest

/-- An item, and the items behind it, the separators included. `fuel` bounds the items. -/
def readItems (value : Step) : Nat → Text → Items × Option Text
  | 0, _ => (.fault ⟨.listUnclosed, 0⟩, none)
  | fuel + 1, t =>
    match value t with
    | (v, none) => (.broken v, none)
    | (v, some after) =>
      let (next, rest) :=
        match Text.skipBlanks after with
        | [] => (.fault ⟨.listUnclosed, 0⟩, none)
        | .char ']' :: rest => (.close (Text.width rest), some rest)
        | .char ',' :: rest =>
          match Text.skipBlanks rest with
          | [] => (.fault ⟨.valueMissing, 0⟩, none)
          | .char ']' :: last => (.fault ⟨.trailingComma, Text.width last⟩, none)
          | _ => readItems value fuel rest
        | rest => (.fault ⟨.listSeparatorExpected, Text.width rest - 1⟩, none)
      (.item v (settle after) next, rest)

def readList (value : Step) (t : Text) : Items × Option Text :=
  match Text.skipBlanks t with
  | [] => (.fault ⟨.listUnclosed, 0⟩, none)
  | .char ']' :: rest => (.close (Text.width rest), some rest)
  | _ => readItems value (t.length + 1) t

/-- A member behind the quote of its key, and the members behind it. `fuel` bounds the members. -/
def readFields (value : Step) : Nat → Text → Fields × Option Text
  | 0, _ => (.fault ⟨.objectUnclosed, 0⟩, none)
  | fuel + 1, t =>
    match Quoted.read t with
    | .error f => (.fault f, none)
    | .ok (key, rest) =>
      match Text.skipBlanks rest with
      | [] => (.bare ⟨.objectUnclosed, 0⟩, none)
      | .char ':' :: rest =>
        match value rest with
        | (v, none) => (.broken key v, none)
        | (v, some after) =>
          let (next, rest) :=
            match Text.skipBlanks after with
            | [] => (.fault ⟨.objectUnclosed, 0⟩, none)
            | .char '}' :: rest => (.close, some rest)
            | .char ',' :: rest =>
              match Text.skipBlanks rest with
              | [] => (.fault ⟨.valueMissing, 0⟩, none)
              | .char '"' :: rest => readFields value fuel rest
              | .char '}' :: last => (.fault ⟨.trailingComma, Text.width last⟩, none)
              | rest => (.fault ⟨.keyNotString, Text.width rest - 1⟩, none)
            | rest => (.fault ⟨.objectSeparatorExpected, Text.width rest - 1⟩, none)
          (.field key v next, rest)
      | rest => (.bare ⟨.colonExpected, Text.width rest - 1⟩, none)

def readObject (value : Step) (t : Text) : Fields × Option Text :=
  match Text.skipBlanks t with
  | [] => (.fault ⟨.objectUnclosed, 0⟩, none)
  | .char '}' :: rest => (.close, some rest)
  | .char '"' :: rest => readFields value (t.length + 1) rest
  | rest => (.fault ⟨.keyNotString, Text.width rest - 1⟩, none)

/-- One value behind blanks, with lists and objects nested at most `depth` deep. -/
def readValue : Nat → Step
  | depth, t =>
    let t := Text.skipBlanks t
    match t, depth with
    -- a container that is nested too deep is known by its first byte
    | .char '[' :: _, 0 => (.deepList (Text.width t), none)
    | .char '{' :: _, 0 => (.deepObject (Text.width t), none)
    | .char '[' :: rest, depth + 1 =>
      let (items, after) := readList (readValue depth) rest
      (.list (Text.width t) items, after)
    | .char '{' :: rest, depth + 1 =>
      let (members, after) := readObject (readValue depth) rest
      (.object (Text.width t) members, after)
    | _, _ =>
      match Scalar.read t with
      | .ok (v, rest) => (.scalar v (Text.width rest), some rest)
      | .error f => (.fault f, none)

def depthLimit : Nat := 127

def read (t : Text) : Outline × Option Text := readValue depthLimit t

end Outline

end LeafPlan
