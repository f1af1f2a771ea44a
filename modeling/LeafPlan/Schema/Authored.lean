import LeafPlan.Schema.Prepared

/-!
# Authored schemas

The schema as its author wrote it: every list names its method. `Authored.prepare` makes the prepared
schema that carries those methods.
-/

namespace LeafPlan

inductive Authored where
  | scalar (m : Marker)
  | list (method : Method) (items : List Authored)
  | object (props : List (String × Authored))

namespace Authored

def child? : Authored → String → Option Authored
  | .object props, k => Members.find? k props
  | _, _ => none

instance : Branching Authored := ⟨child?⟩

def method? : Authored → Option Method
  | .list m _ => some m
  | _ => none

mutual

def prepare : Authored → Prepared
  | .scalar m => .scalar m
  | .list m items => .list (prepareItems items) (some m)
  | .object props => .object (prepareProps props)

def prepareItems : List Authored → List Prepared
  | [] => []
  | x :: xs => x.prepare :: prepareItems xs

def prepareProps : List (String × Authored) → List (String × Prepared)
  | [] => []
  | (k, x) :: ps => (k, x.prepare) :: prepareProps ps

end

mutual

/-- Objects may differ in the order of their properties, and methods are compared by handle. -/
def same : Authored → Authored → Bool
  | .scalar m, .scalar n => m == n
  | .list m xs, .list n ys => m == n && sameItems xs ys
  | .object ps, .object qs => ps.length == qs.length && sameProps ps qs
  | _, _ => false

def sameItems : List Authored → List Authored → Bool
  | [], [] => true
  | x :: xs, y :: ys => same x y && sameItems xs ys
  | _, _ => false

/-- Each property on the left has an equal one on the right. -/
def sameProps : List (String × Authored) → List (String × Authored) → Bool
  | [], _ => true
  | (k, x) :: ps, qs =>
    (match Members.find? k qs with
      | some y => same x y
      | none => false) && sameProps ps qs

end

instance : BEq Authored := ⟨same⟩

end Authored

end LeafPlan
