import LeafPlan.Json.Basic
import LeafPlan.Members

/-!
# JSON pointers

A pointer writes each name behind a slash. Inside a name a tilde is written `~0` and a slash `~1`. A
pointer enters objects by key and lists by position.
-/

namespace LeafPlan

namespace Pointer

def escapeChar (c : Char) : List Char :=
  if c = '~' then ['~', '0'] else if c = '/' then ['~', '1'] else [c]

def writeChars (names : List String) : List Char :=
  names.flatMap fun name => '/' :: name.toList.flatMap escapeChar

def write (names : List String) : String := String.ofList (writeChars names)

def pieces : List Char → List (List Char)
  | [] => [[]]
  | c :: rest =>
    if c = '/' then [] :: pieces rest
    else
      match pieces rest with
      | [] => [[c]]
      | p :: ps => (c :: p) :: ps

/-- Every tilde with the digit `d` behind it becomes `x`. -/
def restore (d x : Char) : List Char → List Char
  | '~' :: c :: rest => if c = d then x :: restore d x rest else '~' :: restore d x (c :: rest)
  | c :: rest => c :: restore d x rest
  | [] => []

def unescape (piece : List Char) : List Char := restore '0' '~' (restore '1' '/' piece)

/-- The names of a pointer. Only the empty pointer starts with no slash. -/
def names? (pointer : List Char) : Option (List String) :=
  match pointer with
  | [] => some []
  | '/' :: rest => some ((pieces rest).map fun p => String.ofList (unescape p))
  | _ => none

/-- A position in a list: digits only, and a zero in front stands alone. -/
def index? (name : String) : Option Nat :=
  match name.toList with
  | [] => none
  | '0' :: _ :: _ => none
  | ds => if ds.all Char.isDigit then some (ds.foldl (fun n c => n * 10 + (c.toNat - 48)) 0) else none

def step? (d : Json) (name : String) : Option Json :=
  match d with
  | .object members => Members.find? name members
  | .array items => (index? name).bind fun i => items[i]?
  | _ => none

end Pointer

def Json.pointer? (d : Json) (pointer : String) : Option Json :=
  (Pointer.names? pointer.toList).bind fun names => names.foldlM Pointer.step? d

end LeafPlan
