import LeafPlan.Json.Basic

/-!
# Outlines

What a reader finds in a text, in the order of the text: the values with their places, and last the
fault that stopped the reader, if one did. Whatever is made from a text (a document, a schema) is made
from its outline, so that of several causes for refusal the first one in the text wins.

Places are given as the bytes of the text that are left unread there.
-/

namespace LeafPlan

inductive Defect where
  | listUnclosed
  | objectUnclosed
  | stringUnclosed
  | valueMissing
  | colonExpected
  | listSeparatorExpected
  | objectSeparatorExpected
  | wordExpected
  | valueExpected
  | escapeInvalid
  | numberInvalid
  | numberOutOfRange
  | encodingInvalid
  | controlCharacter
  | keyNotString
  | surrogateAlone
  | surrogateCut
  | trailingComma
  | trailingCharacters
  | tooDeep
deriving DecidableEq

namespace Defect

def message : Defect → String
  | listUnclosed => "EOF while parsing a list"
  | objectUnclosed => "EOF while parsing an object"
  | stringUnclosed => "EOF while parsing a string"
  | valueMissing => "EOF while parsing a value"
  | colonExpected => "expected `:`"
  | listSeparatorExpected => "expected `,` or `]`"
  | objectSeparatorExpected => "expected `,` or `\x7d`"
  | wordExpected => "expected ident"
  | valueExpected => "expected value"
  | escapeInvalid => "invalid escape"
  | numberInvalid => "invalid number"
  | numberOutOfRange => "number out of range"
  | encodingInvalid => "invalid unicode code point"
  | controlCharacter => "control character (\\u0000-\\u001F) found while parsing a string"
  | keyNotString => "key must be a string"
  | surrogateAlone => "lone leading surrogate in hex escape"
  | surrogateCut => "unexpected end of hex escape"
  | trailingComma => "trailing comma"
  | trailingCharacters => "trailing characters"
  | tooDeep => "recursion limit exceeded"

end Defect

/-- A defect, and the bytes that were left unread when it showed. -/
structure Fault where
  defect : Defect
  left : Nat
deriving DecidableEq

inductive Scalar where
  | null
  | bool (b : Bool)
  | number (n : Number)
  | string (s : String)
deriving DecidableEq

def Scalar.json : Scalar → Json
  | .null => .null
  | .bool b => .bool b
  | .number n => .number n
  | .string s => .string s

mutual

inductive Outline where
  | fault (f : Fault)
  /-- A scalar; `left` stands behind it. -/
  | scalar (v : Scalar) (left : Nat)
  /-- A list; `start` stands before its bracket. -/
  | list (start : Nat) (items : Outline.Items)
  /-- An object; `start` stands before its brace. -/
  | object (start : Nat) (members : Outline.Fields)
  /-- A list that is nested too deep to be entered. -/
  | deepList (start : Nat)
  /-- An object that is nested too deep to be entered. -/
  | deepObject (start : Nat)

inductive Outline.Items where
  /-- The closing bracket; `left` stands behind it. -/
  | close (left : Nat)
  | fault (f : Fault)
  /-- An item. A reader that gives the list up behind it still looks for the bracket, or for a comma
  and the blanks behind it: `settled` stands where that look ends. -/
  | item (v : Outline) (settled : Nat) (next : Outline.Items)
  /-- An item inside which the reader stopped. -/
  | broken (v : Outline)

inductive Outline.Fields where
  | close
  /-- No key, separator or brace where one is due. -/
  | fault (f : Fault)
  /-- A key without its colon. -/
  | bare (f : Fault)
  | field (key : String) (v : Outline) (next : Outline.Fields)
  /-- A member inside whose value the reader stopped. -/
  | broken (key : String) (v : Outline)

end

/-- The fault at a container that is nested too deep: its first byte has been looked at. -/
def Fault.tooDeep (start : Nat) : Fault := ⟨.tooDeep, start - 1⟩

end LeafPlan
