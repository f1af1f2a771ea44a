/-!
# Members

The members of an object: pairs of a key and a value in the order in which the keys came first. A
write to a key that is there keeps its place.
-/

namespace LeafPlan

abbrev Members (α : Type) := List (String × α)

namespace Members

variable {α β : Type}

def find? (k : String) : Members α → Option α
  | [] => none
  | (j, v) :: rest => if j = k then some v else find? k rest

/-- Overwrites the value at `k` in its place, or appends it. -/
def insert (k : String) (v : α) : Members α → Members α
  | [] => [(k, v)]
  | (j, w) :: rest => if j = k then (j, v) :: rest else (j, w) :: insert k v rest

def keys (m : Members α) : List String := m.map Prod.fst

/-- Members written one after another: a repeated key keeps its first place and its last value. -/
def ofList (pairs : List (String × α)) : Members α :=
  pairs.foldl (fun m p => m.insert p.1 p.2) []

/-- Writes `last` over the member with the key `k`. -/
def replace (k : String) (last : String × α) : Members α → Members α
  | [] => []
  | (j, v) :: rest => if j = k then last :: rest else (j, v) :: replace k last rest

/-- Takes the member with the key `k` out; the last member moves into the gap. -/
def take (k : String) (m : Members α) : Members α :=
  match m.getLast? with
  | none => []
  | some last =>
    if last.1 = k then m.dropLast
    else if (find? k m).isSome then replace k last m.dropLast
    else m

end Members

end LeafPlan
