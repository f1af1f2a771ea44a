import LeafPlan.Plan.Compiler
import LeafPlan.Proofs.Schema.Distinct
import Mathlib.Data.List.TakeWhile

/-!
# The compiler visits a schema in preorder

`Prepared.preorder` lists the nodes that a walk visits. What the compiler does at a node does not depend
on the others, so `compile_eq` gives a schema's plan as its nodes' leaves, unless a node has a fault.
-/

namespace LeafPlan

/-- The same node seen from further up. -/
def Pending.below (path : Path) (s : Pending) : Pending := (path ++ s.1, s.2)

namespace Prepared

mutual

/-- The nodes of a schema outside its lists, each with the path to it, an object before its properties. -/
def preorder : Prepared → List Pending
  | .scalar m => [([], .scalar m)]
  | .list items method => [([], .list items method)]
  | .object props => ([], .object props) :: preorderProps props

def preorderProps : List (String × Prepared) → List Pending
  | [] => []
  | (k, x) :: ps => x.preorder.map (Pending.below [k]) ++ preorderProps ps

end

theorem preorderProps_eq (props : List (String × Prepared)) :
    preorderProps props = props.flatMap fun q => q.2.preorder.map (Pending.below [q.1]) :=
  Joined.eq ⟨rfl, fun _ _ => rfl⟩ props

theorem preorder_object (props : List (String × Prepared)) :
    (Prepared.object props).preorder =
      ([], .object props) :: props.flatMap fun q => q.2.preorder.map (Pending.below [q.1]) := by
  rw [preorder, preorderProps_eq]

theorem preorder_of_isLeaf {x : Prepared} (leaf : x.isLeaf = true) : x.preorder = [([], x)] := by
  cases x with
  | object props => cases leaf
  | _ => rfl

def leaves (x : Prepared) : List Pending := x.preorder.filter fun s => s.2.isLeaf

theorem leaves_of_isLeaf {x : Prepared} (leaf : x.isLeaf = true) : x.leaves = [([], x)] := by
  simp [leaves, preorder_of_isLeaf leaf, leaf]

theorem leaves_object (props : List (String × Prepared)) :
    (Prepared.object props).leaves = props.flatMap fun q => q.2.leaves.map (Pending.below [q.1]) := by
  rw [leaves, preorder_object, List.filter_cons_of_neg (by simp [isLeaf]), List.filter_flatMap]
  congr 1
  funext q
  rw [List.filter_map]
  rfl

end Prepared

namespace Pending

@[simp] theorem below_below (p q : Path) (s : Pending) : below p (below q s) = below (p ++ q) s := by
  rw [below, below, below, List.append_assoc]

@[simp] theorem map_below_nil (nodes : List Pending) : nodes.map (below []) = nodes := List.map_id _

/-- The nodes visited from a list of pending ones on. -/
def preorder (stack : List Pending) : List Pending := stack.flatMap fun s => s.2.preorder.map (below s.1)

@[simp] theorem preorder_root (x : Prepared) : preorder [([], x)] = x.preorder := by
  rw [preorder, List.flatMap_singleton, map_below_nil]

theorem preorder_leaf {x : Prepared} (leaf : x.isLeaf = true) (path : Path) (rest : List Pending) :
    preorder ((path, x) :: rest) = (path, x) :: preorder rest := by
  simp [preorder, Prepared.preorder_of_isLeaf leaf, below]

theorem preorder_object (path : Path) (props : List (String × Prepared)) (rest : List Pending) :
    preorder ((path, .object props) :: rest) = (path, .object props) :: preorder (ofProps path props ++ rest) := by
  have here : below path ([], .object props) = (path, .object props) := by
    rw [below, List.append_nil]
  have inside : (ofProps path props).flatMap (fun s => s.2.preorder.map (below s.1)) =
      (props.flatMap fun q => q.2.preorder.map (below [q.1])).map (below path) := by
    rw [ofProps, List.flatMap_map, List.map_flatMap]
    congr 1
    funext q
    rw [List.map_map]
    exact List.map_congr_left fun s _ => (below_below path [q.1] s).symm
  rw [preorder, preorder, List.flatMap_cons, List.flatMap_append, Prepared.preorder_object, List.map_cons,
    here, inside, List.cons_append]

theorem preorder_cons (path : Path) (x : Prepared) (rest : List Pending) :
    ∃ later, preorder ((path, x) :: rest) = (path, x) :: later := by
  cases x with
  | object props => exact ⟨_, preorder_object path props rest⟩
  | scalar m => exact ⟨_, preorder_leaf rfl path rest⟩
  | list items method => exact ⟨_, preorder_leaf rfl path rest⟩

end Pending

namespace Compiler

variable (c : Compiler) (authored : Option Authored)

/-- Why the compilation stops at a node, if it does. -/
def fault? : Pending → Option CompileError
  | (path, x) =>
    if c.maxDepth < path.length then some (.depthExceeded path c.maxDepth)
    else
      match x with
      | .list _ carried =>
        if (method? authored (c.accessor path) carried).isNone then some (.missingMethod path) else none
      | _ => none

def leaf? : Pending → Option Leaf
  | (path, .scalar m) => some (c.leaf path (.scalar m))
  | (path, .list _ carried) =>
    (method? authored (c.accessor path) carried).map fun m => c.leaf path (.list m)
  | (_, .object _) => none

def visit? : Pending → Option Visit
  | (path, .object props) => some (.descend path props.length)
  | (path, x) => (c.leaf? authored (path, x)).map (.leaf path)

/-- The walk over nodes that wait in order. -/
def pass (nodes : List Pending) : Walk :=
  ⟨(nodes.takeWhile fun s => (c.fault? authored s).isNone).filterMap (c.visit? authored),
    nodes.findSome? (c.fault? authored)⟩

variable {c authored}

theorem fault?_of_deep {path : Path} (deep : c.maxDepth < path.length) (x : Prepared) :
    c.fault? authored (path, x) = some (.depthExceeded path c.maxDepth) :=
  if_pos deep

theorem fault?_object {path : Path} (shallow : ¬ c.maxDepth < path.length) (props : List (String × Prepared)) :
    c.fault? authored (path, .object props) = none :=
  if_neg shallow

theorem fault?_scalar {path : Path} (shallow : ¬ c.maxDepth < path.length) (m : Marker) :
    c.fault? authored (path, .scalar m) = none :=
  if_neg shallow

theorem fault?_list {path : Path} (shallow : ¬ c.maxDepth < path.length) (items : List Prepared)
    (carried : Option Method) :
    c.fault? authored (path, .list items carried) =
      if (method? authored (c.accessor path) carried).isNone then some (.missingMethod path) else none :=
  if_neg shallow

theorem method?_eq_some_iff {path : Path} {carried : Option Method} {m : Method} :
    method? authored path carried = some m ↔
      carried = some m ∨
        carried = none ∧ ∃ o, authored = some o ∧ ∃ items, Path.find? path o = some (.list m items) := by
  cases carried with
  | some n => simp [method?]
  | none =>
    cases authored with
    | none => simp [method?]
    | some o =>
      rw [method?, Option.bind_some]
      cases found : Path.find? path o with
      | none => simp [found]
      | some node => cases node <;> simp [found, Authored.method?]

theorem method?_isSome_iff {path : Path} {carried : Option Method} :
    (method? authored path carried).isSome = true ↔
      carried.isSome = true ∨ ∃ o, authored = some o ∧ ∃ m items, Path.find? path o = some (.list m items) := by
  simp only [Option.isSome_iff_exists, method?_eq_some_iff]
  cases carried with
  | some n => simp
  | none =>
    simp only [reduceCtorEq, exists_false, false_or, true_and]
    exact ⟨fun ⟨m, o, here, found⟩ => ⟨o, here, m, found⟩, fun ⟨o, here, m, found⟩ => ⟨m, o, here, found⟩⟩

theorem fault?_eq_none_iff {s : Pending} :
    c.fault? authored s = none ↔
      s.1.length ≤ c.maxDepth ∧
        ∀ items carried, s.2 = .list items carried → (method? authored (c.accessor s.1) carried).isSome = true := by
  obtain ⟨path, x⟩ := s
  by_cases deep : c.maxDepth < path.length
  · rw [fault?_of_deep deep]
    exact iff_of_false (Option.some_ne_none _) fun sound => Nat.not_lt_of_le sound.1 deep
  · rw [and_iff_right (Nat.le_of_not_lt deep)]
    cases x with
    | list items carried =>
      rw [fault?_list deep]
      cases found : method? authored (c.accessor path) carried <;> simp [found]
    | object props => simp [fault?_object deep]
    | scalar m => simp [fault?_scalar deep]

theorem fault?_eq_depthExceeded_iff {s : Pending} {path : Path} {limit : Nat} :
    c.fault? authored s = some (.depthExceeded path limit) ↔
      path = s.1 ∧ limit = c.maxDepth ∧ c.maxDepth < s.1.length := by
  obtain ⟨own, x⟩ := s
  by_cases deep : c.maxDepth < own.length
  · simp [fault?_of_deep deep, deep, eq_comm]
  · cases x with
    | list items carried =>
      rw [fault?_list deep]
      split <;> simp [deep]
    | object props => simp [fault?_object deep, deep]
    | scalar m => simp [fault?_scalar deep, deep]

theorem eq_list_of_missingMethod {s : Pending} {path : Path}
    (missing : c.fault? authored s = some (.missingMethod path)) : ∃ items, s = (path, .list items none) := by
  obtain ⟨own, x⟩ := s
  by_cases deep : c.maxDepth < own.length
  · rw [fault?_of_deep deep] at missing
    cases missing
  · cases x with
    | list items carried =>
      rw [fault?_list deep] at missing
      cases carried with
      | some m => simp [method?] at missing
      | none =>
        split at missing
        · cases missing
          exact ⟨items, rfl⟩
        · cases missing
    | object props =>
      rw [fault?_object deep] at missing
      cases missing
    | scalar m =>
      rw [fault?_scalar deep] at missing
      cases missing

theorem pass_of_fault {s : Pending} {e : CompileError} (fault : c.fault? authored s = some e)
    (rest : List Pending) : c.pass authored (s :: rest) = ⟨[], some e⟩ := by
  simp [pass, fault]

theorem pass_of_visit {s : Pending} {v : Visit} (sound : c.fault? authored s = none)
    (visit : c.visit? authored s = some v) (rest : List Pending) :
    c.pass authored (s :: rest) = (c.pass authored rest).cons v := by
  simp [pass, sound, visit, Walk.cons]

variable (c authored)

/-- The pending list is worked off in preorder. -/
theorem visitAll_eq_pass (stack : List Pending) :
    c.visitAll authored stack = c.pass authored (Pending.preorder stack) := by
  fun_induction visitAll c authored stack with
  | case1 => rfl
  | case2 path x rest deep =>
    obtain ⟨later, first⟩ := Pending.preorder_cons path x rest
    rw [first, pass_of_fault (fault?_of_deep deep x)]
  | case3 path rest shallow props ih =>
    rw [ih, Pending.preorder_object, pass_of_visit (fault?_object shallow props) rfl]
  | case4 path rest shallow m ih =>
    rw [ih, Pending.preorder_leaf rfl, pass_of_visit (fault?_scalar shallow m) rfl]
  | case5 path rest shallow items carried m found ih =>
    rw [ih, Pending.preorder_leaf rfl, pass_of_visit]
    · simp [fault?_list shallow, found]
    · simp [visit?, leaf?, found]
  | case6 path rest shallow items carried missing =>
    rw [Pending.preorder_leaf rfl, pass_of_fault]
    simp [fault?_list shallow, missing]

/-- What the nodes in order come to: their leaves, or the first fault among them. -/
def outcome (nodes : List Pending) : Except CompileError (List Leaf) :=
  match nodes.findSome? (c.fault? authored) with
  | some e => .error e
  | none => .ok (nodes.filterMap (c.leaf? authored))

theorem visit?_leaf? (s : Pending) : (c.visit? authored s).bind Visit.leaf? = c.leaf? authored s := by
  obtain ⟨path, x⟩ := s
  cases x with
  | object props => rfl
  | scalar m => rfl
  | list items carried =>
    rw [visit?, leaf?]
    · cases method? authored (c.accessor path) carried <;> rfl
    · exact fun props same => nomatch same

theorem plan_pass (nodes : List Pending) : (c.pass authored nodes).plan = (c.outcome authored nodes).map Plan.mk := by
  rw [Walk.plan, outcome, pass]
  cases clean : nodes.findSome? (c.fault? authored) with
  | some e => rfl
  | none =>
    have sound : nodes.takeWhile (fun s => (c.fault? authored s).isNone) = nodes :=
      List.takeWhile_eq_self_iff.mpr fun s member =>
        Option.isNone_iff_eq_none.mpr (List.findSome?_eq_none_iff.mp clean s member)
    simp only [Walk.leaves, sound, List.filterMap_filterMap, visit?_leaf?]
    rfl

theorem compile_eq (x : Prepared) :
    c.compile x authored = (c.outcome authored x.preorder).map Plan.mk := by
  rw [compile, walk, visitAll_eq_pass, Pending.preorder_root, plan_pass]

theorem compile_eq_ok_iff {x : Prepared} {plan : Plan} :
    c.compile x authored = .ok plan ↔
      (∀ s ∈ x.preorder, c.fault? authored s = none) ∧ plan.leaves = x.preorder.filterMap (c.leaf? authored) := by
  rw [compile_eq, outcome, ← List.findSome?_eq_none_iff]
  cases x.preorder.findSome? (c.fault? authored) with
  | some e => simp [Except.map]
  | none =>
    obtain ⟨leaves⟩ := plan
    simp only [Except.map, Except.ok.injEq, Plan.mk.injEq, true_and]
    exact eq_comm

theorem compile_succeeds_iff_sound {x : Prepared} :
    (∃ plan, c.compile x authored = .ok plan) ↔ ∀ s ∈ x.preorder, c.fault? authored s = none := by
  simp only [compile_eq_ok_iff, exists_and_left]
  exact and_iff_left ⟨⟨_⟩, rfl⟩

theorem compile_eq_error_iff {x : Prepared} {e : CompileError} :
    c.compile x authored = .error e ↔ x.preorder.findSome? (c.fault? authored) = some e := by
  rw [compile_eq, outcome]
  cases x.preorder.findSome? (c.fault? authored) with
  | some first => simp [Except.map]
  | none => simp [Except.map]

theorem outcome_append (s t : List Pending) :
    c.outcome authored (s ++ t) = do
      let here ← c.outcome authored s
      let there ← c.outcome authored t
      return here ++ there := by
  simp only [outcome, List.findSome?_append, List.filterMap_append]
  cases s.findSome? (c.fault? authored) with
  | some e => rfl
  | none => cases t.findSome? (c.fault? authored) <;> rfl

end Compiler

end LeafPlan
