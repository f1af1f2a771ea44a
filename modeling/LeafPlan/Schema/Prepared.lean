import LeafPlan.Marker
import LeafPlan.Members
import LeafPlan.Method
import LeafPlan.Path.Basic

/-!
# Prepared schemas

A prepared schema is a tree of scalars, lists and objects. Scalars and lists are its leaves, whatever
a list says about its items.
-/

namespace LeafPlan

inductive Prepared where
  | scalar (m : Marker)
  /-- A list may carry its method, or leave it to the authored schema. -/
  | list (items : List Prepared) (method : Option Method)
  | object (props : List (String × Prepared))

namespace Prepared

def child? : Prepared → String → Option Prepared
  | .object props, k => Members.find? k props
  | _, _ => none

instance : Branching Prepared := ⟨child?⟩

def isLeaf : Prepared → Bool
  | .object _ => false
  | _ => true

def marker? : Prepared → Option Marker
  | .scalar m => some m
  | _ => none

mutual

/-- Objects may differ in the order of their properties, and methods are compared by handle. -/
def same : Prepared → Prepared → Bool
  | .scalar m, .scalar n => m == n
  | .list xs m, .list ys n => sameItems xs ys && m == n
  | .object ps, .object qs => ps.length == qs.length && sameProps ps qs
  | _, _ => false

def sameItems : List Prepared → List Prepared → Bool
  | [], [] => true
  | x :: xs, y :: ys => same x y && sameItems xs ys
  | _, _ => false

/-- Each property on the left has an equal one on the right. -/
def sameProps : List (String × Prepared) → List (String × Prepared) → Bool
  | [], _ => true
  | (k, x) :: ps, qs =>
    (match Members.find? k qs with
      | some y => same x y
      | none => false) && sameProps ps qs

end

instance : BEq Prepared := ⟨same⟩

end Prepared

end LeafPlan
