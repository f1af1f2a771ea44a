import LeafPlan.Json.Basic

/-!
# Written documents

The compact form of a document has no blanks; the indented form puts every item and every member on a
line of its own, two spaces deeper than its container.
-/

namespace LeafPlan

namespace Json

def hexDigit (n : Nat) : Char := if n < 10 then Char.ofNat (48 + n) else Char.ofNat (87 + n)

/-- A character inside quotes. Only the quote, the backslash and the characters below the space are
escaped. -/
def escapeChar (c : Char) : List Char :=
  if c = '"' then ['\\', '"']
  else if c = '\\' then ['\\', '\\']
  else if c = '\n' then ['\\', 'n']
  else if c = '\r' then ['\\', 'r']
  else if c = '\t' then ['\\', 't']
  else if c = '\x08' then ['\\', 'b']
  else if c = '\x0c' then ['\\', 'f']
  else if c.toNat < 0x20 then ['\\', 'u', '0', '0', hexDigit (c.toNat / 16), hexDigit (c.toNat % 16)]
  else [c]

def quote (s : String) : List Char := '"' :: s.toList.flatMap escapeChar ++ ['"']

mutual

def chars : Json → List Char
  | .null => ['n', 'u', 'l', 'l']
  | .bool true => ['t', 'r', 'u', 'e']
  | .bool false => ['f', 'a', 'l', 's', 'e']
  | .number n => n.chars
  | .string s => quote s
  | .array [] => ['[', ']']
  | .array (x :: xs) => '[' :: x.chars ++ itemChars xs ++ [']']
  | .object [] => ['{', '}']
  | .object ((k, x) :: ms) => '{' :: quote k ++ ':' :: x.chars ++ memberChars ms ++ ['}']

/-- The items after the first one, each behind its comma. -/
def itemChars : List Json → List Char
  | [] => []
  | x :: xs => ',' :: x.chars ++ itemChars xs

/-- The members after the first one, each behind its comma. -/
def memberChars : List (String × Json) → List Char
  | [] => []
  | (k, x) :: ms => ',' :: quote k ++ ':' :: x.chars ++ memberChars ms

end

def compact (d : Json) : String := String.ofList d.chars

/-- The start of a line at nesting depth `n`. -/
def newline (n : Nat) : List Char := '\n' :: List.replicate (2 * n) ' '

mutual

/-- The indented form of a value that stands at nesting depth `n`. -/
def indentedChars (n : Nat) : Json → List Char
  | .array [] => ['[', ']']
  | .array (x :: xs) =>
    '[' :: newline (n + 1) ++ x.indentedChars (n + 1) ++ indentedItems (n + 1) xs ++ newline n ++ [']']
  | .object [] => ['{', '}']
  | .object ((k, x) :: ms) =>
    '{' :: newline (n + 1) ++ quote k ++ ':' :: ' ' :: x.indentedChars (n + 1) ++
      indentedMembers (n + 1) ms ++ newline n ++ ['}']
  | d => d.chars

def indentedItems (n : Nat) : List Json → List Char
  | [] => []
  | x :: xs => ',' :: newline n ++ x.indentedChars n ++ indentedItems n xs

def indentedMembers (n : Nat) : List (String × Json) → List Char
  | [] => []
  | (k, x) :: ms => ',' :: newline n ++ quote k ++ ':' :: ' ' :: x.indentedChars n ++ indentedMembers n ms

end

def indented (d : Json) : String := String.ofList (d.indentedChars 0)

end Json

end LeafPlan
