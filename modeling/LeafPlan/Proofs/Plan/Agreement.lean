import LeafPlan.Proofs.Plan.Preorder
import Mathlib.Data.List.Forall2

/-!
# Compilations that agree node by node

Two compilations come to the same if they do the same at each node. All that a compiler sees of a node is
`Prepared.Alike`, and of an authored schema the methods that it looks up.
-/

namespace LeafPlan

namespace Leaf

theorem beq_iff {l m : Leaf} :
    (l == m) = true ↔ l.name = m.name ∧ l.path = m.path ∧ l.kind.same m.kind = true := by
  show (l.name == m.name && l.path == m.path && l.kind.same m.kind) = true ↔ _
  rw [Bool.and_eq_true, Bool.and_eq_true, beq_iff_eq, beq_iff_eq, and_assoc]

theorem beq_of_forall₂ {leaves others : List Leaf}
    (each : List.Forall₂ (fun l m => (l == m) = true) leaves others) :
    (leaves == others) = true := by
  induction each with
  | nil => rfl
  | cons here _ ih => rw [List.cons_beq_cons, here, ih, Bool.true_and]

end Leaf

namespace Prepared

/-- Both nodes are scalars with one marker, lists that carry equal methods or none, or objects. -/
inductive Alike : Prepared → Prepared → Prop
  | scalar (m : Marker) : Alike (.scalar m) (.scalar m)
  | list (items others : List Prepared) {m n : Option Method} (same : (m == n) = true) :
    Alike (.list items m) (.list others n)
  | object (props others : List (String × Prepared)) : Alike (.object props) (.object others)

theorem alike_refl (x : Prepared) : x.Alike x := by
  cases x with
  | scalar m => exact .scalar m
  | list items carried =>
    refine .list items items ?_
    cases carried with
    | none => rfl
    | some m => exact beq_self_eq_true m.handle
  | object props => exact .object props props

theorem alike_of_same {x y : Prepared} (same : x.same y = true) : x.Alike y := by
  cases x with
  | scalar m =>
    cases y with
    | scalar n =>
      obtain rfl : m = n := beq_iff_eq.mp same
      exact .scalar m
    | _ => cases same
  | list items m =>
    cases y with
    | list others n =>
      rw [Prepared.same, Bool.and_eq_true] at same
      exact .list items others same.2
    | _ => cases same
  | object props =>
    cases y with
    | object others => exact .object props others
    | _ => cases same

end Prepared

namespace Compiler

variable (c : Compiler) (authored other : Option Authored)

/-- At `s` the one compilation does what the other does at `t`: both stop for the same cause, or go on with
leaves that are related. -/
def Agrees (R : Leaf → Leaf → Prop) (s t : Pending) : Prop :=
  c.fault? authored s = c.fault? other t ∧ Option.Rel R (c.leaf? authored s) (c.leaf? other t)

variable {c authored other} {R : Leaf → Leaf → Prop}

theorem findSome?_of_agrees {nodes others : List Pending}
    (each : List.Forall₂ (c.Agrees authored other R) nodes others) :
    nodes.findSome? (c.fault? authored) = others.findSome? (c.fault? other) := by
  induction each with
  | nil => rfl
  | cons here _ ih => rw [List.findSome?_cons, List.findSome?_cons, here.1, ih]

theorem leaves_of_agrees {nodes others : List Pending}
    (each : List.Forall₂ (c.Agrees authored other R) nodes others) :
    List.Forall₂ R (nodes.filterMap (c.leaf? authored)) (others.filterMap (c.leaf? other)) :=
  List.rel_filterMap (fun _ _ agrees => agrees.2) each

theorem compile_of_agrees {x y : Prepared}
    (each : List.Forall₂ (c.Agrees authored other R) x.preorder y.preorder) :
    (∀ e, c.compile x authored = .error e ↔ c.compile y other = .error e) ∧
      ∀ plan, c.compile x authored = .ok plan →
        ∃ plan', c.compile y other = .ok plan' ∧ List.Forall₂ R plan.leaves plan'.leaves := by
  have faults := findSome?_of_agrees each
  constructor
  · intro e
    rw [compile_eq_error_iff, compile_eq_error_iff, faults]
  · intro plan compiled
    -- a plan is there if no node has a fault, and the faults are the same
    obtain ⟨sound, leaves⟩ := (compile_eq_ok_iff c authored).mp compiled
    rw [← List.findSome?_eq_none_iff, faults, List.findSome?_eq_none_iff] at sound
    refine ⟨⟨y.preorder.filterMap (c.leaf? other)⟩, (compile_eq_ok_iff c other).mpr ⟨sound, rfl⟩, ?_⟩
    rw [leaves]
    exact leaves_of_agrees each

theorem compile_eq_of_agrees {x y : Prepared}
    (each : List.Forall₂ (c.Agrees authored other Eq) x.preorder y.preorder) :
    c.compile x authored = c.compile y other := by
  have leaves := leaves_of_agrees each
  rw [List.forall₂_eq_eq_eq] at leaves
  rw [compile_eq, compile_eq, outcome, outcome, findSome?_of_agrees each, leaves]

theorem agrees_list {Q : Method → Method → Prop} {path : Path} {carried carriedToo : Option Method}
    (related : ∀ m n, Q m n → R (c.leaf path (.list m)) (c.leaf path (.list n)))
    (methods : Option.Rel Q (method? authored (c.accessor path) carried)
      (method? other (c.accessor path) carriedToo))
    (items others : List Prepared) :
    c.Agrees authored other R (path, .list items carried) (path, .list others carriedToo) := by
  generalize left : method? authored (c.accessor path) carried = m at methods
  generalize right : method? other (c.accessor path) carriedToo = n at methods
  constructor
  · by_cases deep : c.maxDepth < path.length
    · rw [fault?_of_deep deep, fault?_of_deep deep]
    · rw [fault?_list deep, fault?_list deep, left, right]
      cases methods <;> rfl
  · rw [leaf?, leaf?, left, right]
    cases methods with
    | none => exact .none
    | some equal => exact .some (related _ _ equal)

theorem method?_rel {path : Path} {carried carriedToo : Option Method} (same : (carried == carriedToo) = true)
    (found : carried = none →
      Option.Rel (fun m n : Method => (m == n) = true) (method? authored path none) (method? other path none)) :
    Option.Rel (fun m n : Method => (m == n) = true)
      (method? authored path carried) (method? other path carriedToo) := by
  cases carried with
  | none =>
    cases carriedToo with
    | none => exact found rfl
    | some n => cases same
  | some m =>
    cases carriedToo with
    | none => cases same
    | some n => exact .some same

/-- Alike nodes are treated alike where the methods looked up for them are equal. -/
theorem agrees_of_alike {path : Path} {x y : Prepared} (alike : x.Alike y)
    (found : ∀ items, x = .list items none → Option.Rel (fun m n : Method => (m == n) = true)
      (method? authored (c.accessor path) none) (method? other (c.accessor path) none)) :
    c.Agrees authored other (fun l m => (l == m) = true) (path, x) (path, y) := by
  cases alike with
  | scalar m =>
    refine ⟨rfl, .some (Leaf.beq_iff.mpr ⟨rfl, rfl, ?_⟩)⟩
    exact beq_self_eq_true m
  | @list items others carried carriedToo same =>
    have methods := method?_rel same fun lacking => found items (by rw [lacking])
    refine agrees_list ?_ methods items others
    exact fun m n equal => Leaf.beq_iff.mpr ⟨rfl, rfl, equal⟩
  | object props others => exact ⟨rfl, .none⟩

end Compiler

end LeafPlan
