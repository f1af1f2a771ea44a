import LeafPlan.Filter.Value
import LeafPlan.Text.Symbol

/-!
# Formats

A format writes a value as a text for some use: as a row of a table, in a page, in an address, for a
shell, or in an alphabet of 64 or 32 characters.
-/

namespace LeafPlan.Filter

namespace Format

def apostrophe : Char := Char.ofNat 39

def htmlChar (c : Char) : List Char :=
  if c = '<' then "&lt;".toList
  else if c = '>' then "&gt;".toList
  else if c = '&' then "&amp;".toList
  else if c = apostrophe then "&#39;".toList
  else if c = '"' then "&quot;".toList
  else [c]

def html (s : String) : String := String.ofList (s.toList.flatMap htmlChar)

/-- Between quotes a quote closes, stands behind a backslash, and opens again. -/
def shell (s : String) : String :=
  String.ofList (apostrophe ::
    (s.toList.flatMap fun c => if c = apostrophe then [c, '\\', c, c] else [c]) ++ [apostrophe])

/-- A quote in a cell is written twice. -/
def csvCell (s : String) : String :=
  String.ofList ('"' :: (s.toList.flatMap fun c => if c = '"' then ['"', '"'] else [c]) ++ ['"'])

def tsvChar (c : Char) : List Char :=
  if c = '\n' then ['\\', 'n']
  else if c = '\r' then ['\\', 'r']
  else if c = '\t' then ['\\', 't']
  else if c = '\\' then ['\\', '\\']
  else [c]

def tsvCell (s : String) : String := String.ofList (s.toList.flatMap tsvChar)

def upperHex (n : Nat) : Char := if n < 10 then Char.ofNat (48 + n) else Char.ofNat (55 + n)

def uriByte (b : UInt8) : List Char :=
  let c := Char.ofNat b.toNat
  if c.isAlphanum || c = '-' || c = '_' || c = '.' || c = '~' then [c]
  else ['%', upperHex (b.toNat / 16), upperHex (b.toNat % 16)]

def uri (s : String) : String := String.ofList (s.toUTF8.toList.flatMap uriByte)

/-! ### Alphabets -/

/-- An alphabet whose letters stand for `bits` bits each. A text is filled up to whole groups of
letters that make whole bytes. -/
structure Alphabet where
  letters : List Char
  bits : Nat
  group : Nat

def base64 : Alphabet :=
  ⟨"ABCDEFGHIJKLMNOPQRSTUVWXYZabcdefghijklmnopqrstuvwxyz0123456789+/".toList, 6, 4⟩

def base32 : Alphabet := ⟨"ABCDEFGHIJKLMNOPQRSTUVWXYZ234567".toList, 5, 8⟩

/-- The lowest `n` bits of `x`, the highest of them first. -/
def bitsOf (n x : Nat) : List Bool := (List.range n).reverse.map x.testBit

def ofBits (bits : List Bool) : Nat := bits.foldl (fun n b => 2 * n + b.toNat) 0

/-- Groups of `n + 1` things; the last one may be smaller. -/
def chunks {α : Type} (n : Nat) : Nat → List α → List (List α)
  | 0, _ => []
  | _, [] => []
  | fuel + 1, l => l.take (n + 1) :: chunks n fuel (l.drop (n + 1))

namespace Alphabet

def encode (a : Alphabet) (s : String) : String :=
  let bits := s.toUTF8.toList.flatMap fun b => bitsOf 8 b.toNat
  let letters := (chunks (a.bits - 1) bits.length bits).map fun chunk =>
    a.letters.getD (ofBits (chunk ++ List.replicate (a.bits - chunk.length) false)) 'A'
  let missing := (a.group - letters.length % a.group) % a.group
  String.ofList (letters ++ List.replicate missing '=')

/-- The text that `encode` made, if the letters are of the alphabet. A byte that belongs to no
character becomes the replacement character. -/
def decode (a : Alphabet) (s : String) : Option String := do
  let letters := s.toList.reverse.dropWhile (· = '=') |>.reverse
  let values ← letters.mapM fun c => (a.letters.idxOf? c)
  let bits := values.flatMap (bitsOf a.bits)
  let whole := (chunks 7 bits.length bits).filter fun chunk => chunk.length = 8
  let bytes := ByteArray.mk (whole.map fun chunk => (ofBits chunk).toUInt8).toArray
  return String.ofList ((Text.ofBytes bytes).map fun
    | .char c => c
    | .stray _ => '\ufffd')

end Alphabet

/-! ### Formats by name -/

def cell (quoted : String → String) : Value → Outcome String
  | .null => .ok ""
  | .string s => .ok (quoted s)
  | .array a => .error (.notA "table cell" (.array a))
  | .object m => .error (.notA "table cell" (.object m))
  | v => .ok v.text

def row (quoted : String → String) (separator : String) : Value → Outcome Value
  | .array items => do
    let cells ← items.mapM (cell quoted)
    return .string (separator.intercalate cells)
  | v => .error (.notA "array" v)

def shellWord : Value → Outcome String
  | .string s => .ok (shell s)
  | .array a => .error (.notA "shell word" (.array a))
  | .object m => .error (.notA "shell word" (.object m))
  | v => .ok v.text

def shellWords : Value → Outcome Value
  | .array items => do
    let words ← items.mapM shellWord
    return .string (" ".intercalate words)
  | v => (shellWord v).map .string

def decoded (a : Alphabet) (v : Value) : Outcome Value :=
  match a.decode v.plainText with
  | some s => .ok (.string s)
  | none => .error (.message s!"cannot decode {v.text}")

def all : List (String × (Value → Outcome Value)) :=
  [("@text", fun v => .ok (.string v.plainText)),
    ("@json", fun v => .ok (.string v.text)),
    ("@csv", row csvCell ","),
    ("@tsv", row tsvCell "\t"),
    ("@html", fun v => .ok (.string (html v.plainText))),
    ("@uri", fun v => .ok (.string (uri v.plainText))),
    ("@sh", shellWords),
    ("@base64", fun v => .ok (.string (base64.encode v.plainText))),
    ("@base64d", decoded base64),
    ("@base32", fun v => .ok (.string (base32.encode v.plainText))),
    ("@base32d", decoded base32)]

end Format

end LeafPlan.Filter
