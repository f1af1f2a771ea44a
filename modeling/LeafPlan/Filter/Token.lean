/-!
# Tokens

A filter's text is cut into the longest tokens. A text in quotes comes as its opening, its characters
and its closing, and a filter inside it stands between `\(` and a closing parenthesis.
-/

namespace LeafPlan.Filter

inductive Token where
  | word (name : String)
  | variable (name : String)
  | format (name : String)
  | number (text : String)
  | symbol (s : String)
  | field (name : String)
  | openText
  | characters (s : String)
  | openFilter
  | closeText
deriving DecidableEq

namespace Token

def startsName (c : Char) : Bool := c.isAlpha || c = '_'

def inName (c : Char) : Bool := c.isAlphanum || c = '_'

def isOperator (c : Char) : Bool := "|=!<>+-*/%".toList.contains c

def isBlank (c : Char) : Bool :=
  c.isWhitespace || c = '\x0b' || c = '\x0c' || c = '\x85' || c = '\xa0'

def name? : List Char → Option (List Char × List Char)
  | [] => none
  | c :: rest => if startsName c then some (c :: rest.takeWhile inName, rest.dropWhile inName) else none

/-- The names behind a first one, each behind two colons. `fuel` bounds them. -/
def qualified : Nat → List Char → Option (List Char × List Char)
  | fuel + 1, ':' :: ':' :: rest => do
    let (name, rest) ← name? rest
    let (more, rest) ← qualified fuel rest
    return (':' :: ':' :: name ++ more, rest)
  | _, rest => some ([], rest)

def qualifiedName? (s : List Char) : Option (List Char × List Char) := do
  let (name, rest) ← name? s
  let (more, rest) ← qualified rest.length rest
  return (name ++ more, rest)

def digits? (s : List Char) : Option (List Char × List Char) :=
  match s.takeWhile Char.isDigit with
  | [] => none
  | ds => some (ds, s.dropWhile Char.isDigit)

def fraction? : List Char → Option (List Char × List Char)
  | '.' :: rest => (digits? rest).map fun (ds, rest) => ('.' :: ds, rest)
  | rest => some ([], rest)

def exponent? : List Char → Option (List Char × List Char)
  | 'e' :: rest => signed 'e' rest
  | 'E' :: rest => signed 'E' rest
  | rest => some ([], rest)
where
  signed (e : Char) : List Char → Option (List Char × List Char)
    | '+' :: rest => (digits? rest).map fun (ds, rest) => (e :: '+' :: ds, rest)
    | '-' :: rest => (digits? rest).map fun (ds, rest) => (e :: '-' :: ds, rest)
    | rest => (digits? rest).map fun (ds, rest) => (e :: ds, rest)

def number? (s : List Char) : Option (List Char × List Char) := do
  let (whole, rest) ← digits? s
  let (fraction, rest) ← fraction? rest
  let (exponent, rest) ← exponent? rest
  return (whole ++ fraction ++ exponent, rest)

def hex? (c : Char) : Option Nat :=
  if c.isDigit then some (c.toNat - 48)
  else if 'a' ≤ c && c ≤ 'f' then some (c.toNat - 87)
  else if 'A' ≤ c && c ≤ 'F' then some (c.toNat - 55)
  else none

/-- The character that four hexadecimal digits name. Halves of surrogate pairs are none. -/
def unicode? (a b c d : Char) : Option Char := do
  let n := ((← hex? a) * 16 + (← hex? b)) * 256 + (← hex? c) * 16 + (← hex? d)
  if h : n.isValidChar then some (Char.ofNatAux n h) else none

def escape? : List Char → Option (Char × List Char)
  | 'b' :: rest => some ('\x08', rest)
  | 'f' :: rest => some ('\x0c', rest)
  | 'n' :: rest => some ('\n', rest)
  | 'r' :: rest => some ('\r', rest)
  | 't' :: rest => some ('\t', rest)
  | 'u' :: a :: b :: c :: d :: rest => (unicode? a b c d).map fun c => (c, rest)
  | c :: rest => if c = '\\' || c = '/' || c = '"' then some (c, rest) else none
  | [] => none

/-- The rest of a comment's line. A backslash in front of the line feed carries the comment on. -/
def afterComment (escaped : Bool) : List Char → List Char
  | [] => []
  | '\n' :: rest => if escaped then afterComment false rest else rest
  | '\r' :: rest => afterComment (escaped && rest.head? = some '\n') rest
  | c :: rest => afterComment (c = '\\' && !escaped) rest

def plain? : List Char → Option (Token × List Char)
  | [] => none
  | '$' :: rest => (qualifiedName? rest).map fun (name, rest) => (.variable (String.ofList ('$' :: name)), rest)
  | '@' :: rest => (name? rest).map fun (name, rest) => (format (String.ofList ('@' :: name)), rest)
  | '.' :: '.' :: rest => some (symbol "..", rest)
  | '.' :: rest =>
    match name? rest with
    | some (name, rest) => some (field (String.ofList name), rest)
    | none => some (symbol ".", rest)
  | c :: rest =>
    if startsName c then
      (qualifiedName? (c :: rest)).map fun (name, rest) => (word (String.ofList name), rest)
    else if c.isDigit then (number? (c :: rest)).map fun (text, rest) => (number (String.ofList text), rest)
    else if isOperator c then
      some (symbol (String.ofList (c :: rest.takeWhile isOperator)), rest.dropWhile isOperator)
    else if [':', ';', ',', '?', '[', ']', '{', '}'].contains c then some (symbol (String.singleton c), rest)
    else none

/-- What a closing parenthesis closes. -/
inductive Frame where
  | parenthesis
  | filter

mutual

/-- The tokens of a text outside of quotes. `fuel` bounds the steps. -/
def outside : Nat → List Frame → List Char → Option (List Token)
  | 0, _, _ => none
  | _ + 1, [], [] => some []
  | _ + 1, _ :: _, [] => none
  | fuel + 1, frames, '"' :: rest => (inside fuel frames rest).map (openText :: ·)
  | fuel + 1, frames, '(' :: rest => (outside fuel (.parenthesis :: frames) rest).map (symbol "(" :: ·)
  | fuel + 1, .parenthesis :: frames, ')' :: rest => (outside fuel frames rest).map (symbol ")" :: ·)
  | fuel + 1, .filter :: frames, ')' :: rest => (inside fuel frames rest).map (symbol ")" :: ·)
  | fuel + 1, frames, '#' :: rest => outside fuel frames (afterComment false rest)
  | fuel + 1, frames, c :: rest =>
    if isBlank c then outside fuel frames rest
    else do
      let (t, rest) ← plain? (c :: rest)
      return t :: (← outside fuel frames rest)

def inside : Nat → List Frame → List Char → Option (List Token)
  | 0, _, _ => none
  | _, _, [] => none
  | fuel + 1, frames, '"' :: rest => (outside fuel frames rest).map (closeText :: ·)
  | fuel + 1, frames, '\\' :: '(' :: rest => (outside fuel (.filter :: frames) rest).map (openFilter :: ·)
  | fuel + 1, frames, '\\' :: rest => do
    let (c, rest) ← escape? rest
    return characters (String.singleton c) :: (← inside fuel frames rest)
  | fuel + 1, frames, c :: rest =>
    let plain := fun (c : Char) => c ≠ '\\' && c ≠ '"'
    (inside fuel frames (rest.dropWhile plain)).map
      (characters (String.ofList (c :: rest.takeWhile plain)) :: ·)

end

/-- The tokens of a filter, or none where no token can be read. -/
def ofText (s : String) : Option (List Token) := outside (s.toList.length + 1) [] s.toList

end Token

end LeafPlan.Filter
