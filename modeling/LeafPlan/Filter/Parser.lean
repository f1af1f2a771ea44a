import LeafPlan.Filter.Syntax
import LeafPlan.Filter.Token

/-!
# Filters from tokens

A pipe binds least of all operators, and the filter behind it reaches to the end.
`fuel` bounds the depth of every reader, and the number of tokens is always enough of it.
-/

namespace LeafPlan.Filter

namespace Parser

inductive Joint where
  | pipe
  | bind (p : Pattern)
  | comma
  | connective (c : Connective)

namespace Joint

def strength : Joint → Nat
  | pipe | bind _ => 0
  | comma => 1
  | connective .assign | connective .update | connective (.updateWith _) | connective .updateMissing => 2
  | connective .alternative => 3
  | connective .or => 4
  | connective .and => 5
  | connective (.compare _) => 6
  | connective (.calculate .add) | connective (.calculate .sub) => 7
  | connective (.calculate .mul) | connective (.calculate .div) => 8
  | connective (.calculate .rem) => 9

/-- Of two such joints the second one binds first. -/
def toRight : Joint → Bool
  | pipe | bind _ => true
  | j => j.strength = 2 || j.strength = 3

def apply : Joint → Term → Term → Term
  | pipe, x, y => .pipe x y
  | bind p, x, y => .bind x p y
  | comma, x, y => .comma x y
  | connective c, x, y => .binary c x y

end Joint

/-- Joins `left` with what follows as far as it binds at least as strong as `least`. -/
def climb : Nat → Nat → Term → List (Joint × Term) → Term × List (Joint × Term)
  | 0, _, left, rest => (left, rest)
  | _, _, left, [] => (left, [])
  | fuel + 1, least, left, (j, right) :: rest =>
    if j.strength < least then (left, (j, right) :: rest)
    else
      let (right, rest) := climb fuel (if j.toRight then j.strength else j.strength + 1) right rest
      climb fuel least (j.apply left right) rest

def joined (first : Term) (rest : List (Joint × Term)) : Term :=
  (climb (2 * rest.length + 1) 0 first rest).1

def connective? : String → Option Connective
  | "//" => some .alternative
  | "=" => some .assign
  | "|=" => some .update
  | "+=" => some (.updateWith .add)
  | "-=" => some (.updateWith .sub)
  | "*=" => some (.updateWith .mul)
  | "/=" => some (.updateWith .div)
  | "%=" => some (.updateWith .rem)
  | "//=" => some .updateMissing
  | "==" => some (.compare .eq)
  | "!=" => some (.compare .ne)
  | "<" => some (.compare .lt)
  | "<=" => some (.compare .le)
  | ">" => some (.compare .gt)
  | ">=" => some (.compare .ge)
  | "+" => some (.calculate .add)
  | "-" => some (.calculate .sub)
  | "*" => some (.calculate .mul)
  | "/" => some (.calculate .div)
  | "%" => some (.calculate .rem)
  | _ => none

/-- The words that name no filter. -/
def reserved : List String :=
  ["and", "as", "catch", "def", "elif", "else", "end", "foreach", "if", "import", "include", "label", "or",
    "reduce", "then", "try"]

abbrev Reader (α : Type) := List Token → Option (α × List Token)

def symbol (s : String) (ts : List Token) : Option (List Token) :=
  match ts with
  | .symbol t :: rest => if t = s then some rest else none
  | _ => none

def word (s : String) (ts : List Token) : Option (List Token) :=
  match ts with
  | .word t :: rest => if t = s then some rest else none
  | _ => none

/-- The question marks in front, and whether there is one. -/
def questions : List Token → Bool × List Token
  | .symbol "?" :: rest => (true, (questions rest).2)
  | ts => (false, ts)

def parameters : List Token → Option (List String × List Token)
  | .word p :: rest | .variable p :: rest =>
    match rest with
    | .symbol ";" :: rest => do
      let (more, rest) ← parameters rest
      return (p :: more, rest)
    | .symbol ")" :: rest => some ([p], rest)
    | _ => none
  | _ => none

def heading : List Token → Option ((String × List String) × List Token)
  | .word name :: .symbol "(" :: rest => do
    let (ps, rest) ← parameters rest
    return ((name, ps), rest)
  | .word name :: rest => some ((name, []), rest)
  | _ => none

mutual

/-- A filter; without commas where they separate members of an object. -/
def term : Nat → Bool → Reader Term
  | 0, _, _ => none
  | fuel + 1, commas, ts => do
    let (first, ts) ← atom fuel ts
    let (rest, ts) ← tail fuel commas ts
    return (joined first rest, ts)

def tail : Nat → Bool → Reader (List (Joint × Term))
  | 0, _, _ => none
  | fuel + 1, commas, ts =>
    let more (j : Joint) (ts : List Token) : Option (List (Joint × Term) × List Token) := do
      let (t, ts) ← atom fuel ts
      let (rest, ts) ← tail fuel commas ts
      return ((j, t) :: rest, ts)
    match ts with
    | .symbol "|" :: ts => more .pipe ts
    | .word "as" :: ts => do
      let (p, ts) ← pattern fuel ts
      more (.bind p) (← symbol "|" ts)
    | .word "and" :: ts => more (.connective .and) ts
    | .word "or" :: ts => more (.connective .or) ts
    | .symbol s :: rest =>
      if s = "," && commas then more .comma rest
      else
        match connective? s with
        | some c => more (.connective c) rest
        | none => some ([], ts)
    | _ => some ([], ts)

/-- A filter that holds together without its neighbours, and the steps behind it. -/
def atom : Nat → Reader Term
  | 0, _ => none
  | fuel + 1, ts =>
    match ts with
    | .symbol "-" :: ts => do
      let (t, ts) ← atom fuel ts
      return (.negate t, ts)
    | .word "def" :: ts => do
      let (d, ts) ← definition fuel ts
      let (t, ts) ← term fuel true ts
      return (.define d.name d.parameters d.body t, ts)
    | .word "label" :: .variable x :: ts => do
      let (t, ts) ← term fuel true (← symbol "|" ts)
      return (.label x t, ts)
    | _ => do
      let (t, ts) ← base fuel ts
      let (asked, ts) := questions ts
      let t := if asked then .attempt t .nothing else t
      let (steps, ts) ← steps fuel ts
      return (if steps.isEmpty then t else .parts t steps, ts)

def base : Nat → Reader Term
  | 0, _ => none
  | fuel + 1, ts =>
    match ts with
    | .symbol ".." :: ts => some (.everything, ts)
    | .symbol "." :: .openText :: rest => do
      let (s, ts) ← step fuel (.symbol "." :: .openText :: rest)
      return (.parts .input [s], ts)
    | .symbol "." :: ts => some (.input, ts)
    | .field name :: ts =>
      let (asked, ts) := questions ts
      some (.parts .input [.at asked (.literal name)], ts)
    | .number text :: ts => some (.number text, ts)
    | .variable x :: ts => some (.variable x, ts)
    | .openText :: ts => do
      let (pieces, ts) ← pieces fuel ts
      return (.text none pieces, ts)
    | .format f :: .openText :: ts => do
      let (pieces, ts) ← pieces fuel ts
      return (.text (some f) pieces, ts)
    | .format f :: ts => some (.call f [], ts)
    | .symbol "(" :: ts => do
      let (t, ts) ← term fuel true ts
      return (t, ← symbol ")" ts)
    | .symbol "[" :: .symbol "]" :: ts => some (.list .nothing, ts)
    | .symbol "[" :: ts => do
      let (t, ts) ← term fuel true ts
      return (.list t, ← symbol "]" ts)
    | .symbol "\x7b" :: .symbol "\x7d" :: ts => some (.emptyObject, ts)
    | .symbol "\x7b" :: ts => do
      let (members, ts) ← members fuel ts
      return (.object members, ts)
    | .word "if" :: ts => choice fuel ts
    | .word "try" :: ts => do
      let (t, ts) ← atom fuel ts
      match ts with
      | .word "catch" :: ts => do
        let (h, ts) ← atom fuel ts
        return (.attempt t h, ts)
      | _ => return (.attempt t .nothing, ts)
    | .word "reduce" :: ts => fold fuel .reduce ts
    | .word "foreach" :: ts => fold fuel .each ts
    | .word "break" :: .variable x :: ts => some (.leave x, ts)
    | .word name :: ts =>
      if reserved.contains name then none
      else do
        let (args, ts) ← arguments fuel ts
        return (.call name args, ts)
    | _ => none

def arguments : Nat → Reader (List Term)
  | 0, _ => none
  | fuel + 1, ts =>
    match ts with
    | .symbol "(" :: ts => argumentList fuel ts
    | ts => some ([], ts)

def argumentList : Nat → Reader (List Term)
  | 0, _ => none
  | fuel + 1, ts => do
    let (t, ts) ← term fuel true ts
    match ts with
    | .symbol ";" :: ts => do
      let (more, ts) ← argumentList fuel ts
      return (t :: more, ts)
    | .symbol ")" :: ts => return ([t], ts)
    | _ => none

def fold : Nat → Fold → Reader Term
  | 0, _, _ => none
  | fuel + 1, kind, ts => do
    let (source, ts) ← atom fuel ts
    let (p, ts) ← pattern fuel (← word "as" ts)
    let (args, ts) ← arguments fuel ts
    return (.fold kind source p args, ts)

/-- A choice behind its `if` or `elif`. Without an `else` the input stands for it. -/
def choice : Nat → Reader Term
  | 0, _ => none
  | fuel + 1, ts => do
    let (condition, ts) ← term fuel true ts
    let (yes, ts) ← term fuel true (← word "then" ts)
    match ts with
    | .word "elif" :: ts => do
      let (no, ts) ← choice fuel ts
      return (.choose condition yes no, ts)
    | .word "else" :: ts => do
      let (no, ts) ← term fuel true ts
      return (.choose condition yes no, ← word "end" ts)
    | .word "end" :: ts => return (.choose condition yes .input, ts)
    | _ => none

/-- A text behind its opening. -/
def pieces : Nat → Reader (List Piece)
  | 0, _ => none
  | fuel + 1, ts =>
    match ts with
    | .closeText :: ts => some ([], ts)
    | .characters s :: ts => do
      let (more, ts) ← pieces fuel ts
      return (.literal s :: more, ts)
    | .openFilter :: ts => do
      let (t, ts) ← term fuel true ts
      let (more, ts) ← pieces fuel (← symbol ")" ts)
      return (.value t :: more, ts)
    | _ => none

/-- The members of an object up to its end. -/
def members : Nat → Reader (List Term)
  | 0, _ => none
  | fuel + 1, ts => do
    let (m, ts) ← member fuel ts
    match ts with
    | .symbol "," :: ts => do
      let (more, ts) ← members fuel ts
      return (m :: more, ts)
    | .symbol "\x7d" :: ts => return ([m], ts)
    | _ => none

/-- A member. A key alone takes the value that the input has there, and a variable alone its own. -/
def member : Nat → Reader Term
  | 0, _ => none
  | fuel + 1, ts =>
    let valued (key : Term) (alone : Option Term) (ts : List Token) : Option (Term × List Token) :=
      match ts with
      | .symbol ":" :: ts => do
        let (t, ts) ← term fuel false ts
        return (.member key t, ts)
      | _ => alone.map fun t => (.member key t, ts)
    let own (key : Term) : Option Term := some (.parts .input [.at false key])
    match ts with
    | .variable x :: ts => valued (.literal (x.drop 1).toString) (some (.variable x)) ts
    | .word name :: ts => valued (.literal name) (own (.literal name)) ts
    | .number text :: ts => valued (.number text) none ts
    | .openText :: ts => do
      let (pieces, ts) ← pieces fuel ts
      valued (.text none pieces) (own (.text none pieces)) ts
    | .format f :: .openText :: ts => do
      let (pieces, ts) ← pieces fuel ts
      valued (.text (some f) pieces) (own (.text (some f) pieces)) ts
    | .symbol "(" :: ts => do
      let (key, ts) ← term fuel true ts
      valued key none (← symbol ")" ts)
    | _ => none

def steps : Nat → Reader (List Step)
  | 0, _ => none
  | fuel + 1, ts =>
    match step fuel ts with
    | some (s, ts) => do
      let (more, ts) ← steps fuel ts
      return (s :: more, ts)
    | none => some ([], ts)

def step : Nat → Reader Step
  | 0, _ => none
  | fuel + 1, ts =>
    match ts with
    | .field name :: ts =>
      let (asked, ts) := questions ts
      some (.at asked (.literal name), ts)
    | .symbol "." :: .openText :: ts => do
      let (pieces, ts) ← pieces fuel ts
      let (asked, ts) := questions ts
      return (.at asked (.text none pieces), ts)
    | .symbol "." :: .symbol "[" :: ts | .symbol "[" :: ts => bracket fuel ts
    | _ => none

/-- A step behind its opening bracket. -/
def bracket : Nat → Reader Step
  | 0, _ => none
  | fuel + 1, ts =>
    let closed (s : Bool → Step) (ts : List Token) : Option (Step × List Token) := do
      let (asked, ts) := questions (← symbol "]" ts)
      return (s asked, ts)
    match ts with
    | .symbol "]" :: _ => closed .each ts
    | .symbol ":" :: ts => do
      let (stop, ts) ← term fuel true ts
      closed (fun asked => .upTo asked stop) ts
    | ts => do
      let (t, ts) ← term fuel true ts
      match ts with
      | .symbol ":" :: .symbol "]" :: rest => closed (fun asked => .since asked t) (.symbol "]" :: rest)
      | .symbol ":" :: ts => do
        let (stop, ts) ← term fuel true ts
        closed (fun asked => .between asked t stop) ts
      | ts => closed (fun asked => .at asked t) ts

def pattern : Nat → Reader Pattern
  | 0, _ => none
  | fuel + 1, ts =>
    match ts with
    | .variable x :: ts => some (.variable x, ts)
    | .symbol "[" :: ts => do
      let (items, ts) ← patternItems fuel ts
      return (.list items, ts)
    | .symbol "\x7b" :: ts => do
      let (fields, ts) ← patternFields fuel ts
      return (.object fields, ts)
    | _ => none

def patternItems : Nat → Reader (List Pattern)
  | 0, _ => none
  | fuel + 1, ts => do
    let (p, ts) ← pattern fuel ts
    match ts with
    | .symbol "," :: ts => do
      let (more, ts) ← patternItems fuel ts
      return (p :: more, ts)
    | .symbol "]" :: ts => return ([p], ts)
    | _ => none

def patternFields : Nat → Reader (List (Term × Pattern))
  | 0, _ => none
  | fuel + 1, ts => do
    let (found, ts) ← patternField fuel ts
    match ts with
    | .symbol "," :: ts => do
      let (more, ts) ← patternFields fuel ts
      return (found ++ more, ts)
    | .symbol "\x7d" :: ts => return (found, ts)
    | _ => none

/-- A field of a pattern. A variable for a key binds the value there, and may be followed by a pattern
of its own. -/
def patternField : Nat → Reader (List (Term × Pattern))
  | 0, _ => none
  | fuel + 1, ts =>
    let valued (key : Term) (ts : List Token) : Option (List (Term × Pattern) × List Token) := do
      let (p, ts) ← pattern fuel (← symbol ":" ts)
      return ([(key, p)], ts)
    match ts with
    | .variable x :: .symbol ":" :: ts => do
      let key : Term := .literal (x.drop 1).toString
      let (p, ts) ← pattern fuel ts
      return ([(key, .variable x), (key, p)], ts)
    | .variable x :: ts => some ([(.literal (x.drop 1).toString, .variable x)], ts)
    | .word name :: ts => valued (.literal name) ts
    | .openText :: ts => do
      let (pieces, ts) ← pieces fuel ts
      valued (.text none pieces) ts
    | .symbol "(" :: ts => do
      let (key, ts) ← term fuel true ts
      valued key (← symbol ")" ts)
    | _ => none

/-- A definition behind its `def`. -/
def definition : Nat → Reader Definition
  | 0, _ => none
  | fuel + 1, ts => do
    let ((name, parameters), ts) ← heading ts
    let (body, ts) ← term fuel true (← symbol ":" ts)
    return (⟨name, parameters, body⟩, ← symbol ";" ts)

end

def definitions : Nat → List Token → Option (List Definition)
  | _, [] => some []
  | 0, _ => none
  | fuel + 1, .word "def" :: ts => do
    let (d, ts) ← definition fuel ts
    return d :: (← definitions fuel ts)
  | _, _ => none

def fuel (ts : List Token) : Nat := 8 * ts.length + 8

end Parser

def Term.ofText? (s : String) : Option Term := do
  let ts ← Token.ofText s
  match ← Parser.term (Parser.fuel ts) true ts with
  | (t, []) => some t
  | _ => none

def Definition.ofText? (s : String) : Option (List Definition) := do
  let ts ← Token.ofText s
  Parser.definitions (Parser.fuel ts) ts

end LeafPlan.Filter
