import LeafPlan.Plan.Basic

/-!
# Plans and documents as text

The table of a plan has a line for each leaf: its number, its label and its kind. The row of a document
is an object with an entry for each leaf.
-/

namespace LeafPlan

namespace Table

/-- Text between a terminal's codes for a style and for its end. -/
def styled (style : Nat) (s : String) : String := s!"\x1b[{style}m{s}\x1b[0m"

def bold : Nat := 1

def yellow : Nat := 33

def cyan : Nat := 36

/-- The number, right-aligned in three columns. -/
def numberText (n : Nat) : String :=
  let digits := String.ofList (Nat.toDigits 10 n)
  String.ofList (List.replicate (3 - digits.length) ' ') ++ digits

def line (coloured : Bool) (n : Nat) (l : Leaf) : String :=
  let label := l.path.label
  let kind := l.kind.display
  if coloured then
    s!"{numberText n}  {styled bold label}  {styled (if l.kind.isList then yellow else cyan) kind}\n"
  else s!"{numberText n}  {label}  {kind}\n"

/-- The lines of leaves, numbered from `n` on. -/
def lines (coloured : Bool) : Nat → List Leaf → List String
  | _, [] => []
  | n, l :: rest => line coloured n l :: lines coloured (n + 1) rest

end Table

namespace Plan

def table (p : Plan) (coloured : Bool) : String := String.join (Table.lines coloured 0 p.leaves)

/-- What a document holds at each leaf, lists put through their methods; `null` where it lacks it. -/
def row (p : Plan) (d : Json) : Json :=
  .object (Members.ofList ((p.leaves.zip (p.render d)).map fun (l, v) => (l.path.label, v.getD .null)))

end Plan

end LeafPlan
