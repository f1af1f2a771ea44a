import LeafPlan.Proofs.Plan.Preorder

/-!
# The list of pending nodes replaces a recursion

`Compiler.leavesBelow` walks a schema by plain recursion: an object's leaves are those of its properties
one behind the other. `compile_eq_recursive` shows that the compiler finds the same leaves and stops at
the same node for the same cause.
-/

namespace LeafPlan.Compiler

variable (c : Compiler) (authored : Option Authored)

mutual

/-- The leaves of the node at `path`, or the first cause to stop below it. -/
def leavesBelow (path : Path) (x : Prepared) : Except CompileError (List Leaf) :=
  if c.maxDepth < path.length then .error (.depthExceeded path c.maxDepth)
  else
    match x with
    | .scalar m => .ok [⟨path.getLast?, c.accessor path, .scalar m⟩]
    | .list _ (some m) => .ok [⟨path.getLast?, c.accessor path, .list m⟩]
    | .list _ none =>
      match authored.bind (Path.find? (c.accessor path)) with
      | some (.list m _) => .ok [⟨path.getLast?, c.accessor path, .list m⟩]
      | _ => .error (.missingMethod path)
    | .object props => leavesBelowProps path props

def leavesBelowProps (path : Path) (props : List (String × Prepared)) : Except CompileError (List Leaf) :=
  match props with
  | [] => .ok []
  | (k, x) :: ps => do
    let here ← leavesBelow (path ++ [k]) x
    let there ← leavesBelowProps path ps
    return here ++ there

end

variable {c authored}

theorem outcome_of_fault {s : Pending} {e : CompileError} (fault : c.fault? authored s = some e)
    (rest : List Pending) : c.outcome authored (s :: rest) = .error e := by
  simp [outcome, fault]

theorem outcome_leaf {s : Pending} {l : Leaf} (sound : c.fault? authored s = none)
    (leaf : c.leaf? authored s = some l) : c.outcome authored [s] = .ok [l] := by
  simp [outcome, sound, leaf]

theorem outcome_object {path : Path} (shallow : ¬ c.maxDepth < path.length)
    (props : List (String × Prepared)) (rest : List Pending) :
    c.outcome authored ((path, .object props) :: rest) = c.outcome authored rest := by
  simp only [outcome, List.findSome?_cons, fault?_object shallow, List.filterMap_cons, leaf?]

theorem preorder_below (path : Path) (x : Prepared) :
    ∃ later, x.preorder.map (Pending.below path) = (path, x) :: later := by
  obtain ⟨later, first⟩ := Pending.preorder_cons path x []
  rw [Pending.preorder, List.flatMap_singleton] at first
  exact ⟨later, first⟩

theorem leavesBelow_of_deep {path : Path} (deep : c.maxDepth < path.length) (x : Prepared) :
    c.leavesBelow authored path x = c.outcome authored (x.preorder.map (Pending.below path)) := by
  obtain ⟨later, first⟩ := preorder_below path x
  rw [first, outcome_of_fault (fault?_of_deep deep x), leavesBelow.eq_def, if_pos deep]

theorem leavesBelow_list {path : Path} (shallow : ¬ c.maxDepth < path.length) (items : List Prepared)
    (carried : Option Method) :
    c.leavesBelow authored path (.list items carried) = c.outcome authored [(path, .list items carried)] := by
  have fault : c.fault? authored (path, .list items carried) = _ := fault?_list shallow items carried
  rw [leavesBelow.eq_def, if_neg shallow]
  cases carried with
  | some m => exact (outcome_leaf fault rfl).symm
  | none =>
    cases found : authored.bind (Path.find? (c.accessor path)) with
    | none =>
      simp only [method?, found] at fault
      exact (outcome_of_fault fault []).symm
    | some node =>
      simp only [method?, found] at fault
      cases node with
      | list m authoredItems =>
        exact (outcome_leaf fault (by simp only [leaf?, method?, found]; rfl)).symm
      | _ => exact (outcome_of_fault fault []).symm

variable (c authored)

theorem leavesBelowProps_eq_outcome {props : List (String × Prepared)}
    (each : ∀ q ∈ props, ∀ path, c.leavesBelow authored path q.2 =
      c.outcome authored (q.2.preorder.map (Pending.below path))) (path : Path) :
    c.leavesBelowProps authored path props =
      c.outcome authored ((Prepared.preorderProps props).map (Pending.below path)) := by
  induction props with
  | nil => rfl
  | cons q ps ih =>
    obtain ⟨k, x⟩ := q
    obtain ⟨first, each⟩ := List.forall_mem_cons.mp each
    have moved : (x.preorder.map (Pending.below [k])).map (Pending.below path) =
        x.preorder.map (Pending.below (path ++ [k])) := by
      rw [List.map_map]
      exact List.map_congr_left fun s _ => Pending.below_below path [k] s
    rw [leavesBelowProps, Prepared.preorderProps, List.map_append, outcome_append, moved, first, ih each]

theorem leavesBelow_eq_outcome (x : Prepared) (path : Path) :
    c.leavesBelow authored path x = c.outcome authored (x.preorder.map (Pending.below path)) := by
  have here (path : Path) (y : Prepared) : Pending.below path ([], y) = (path, y) := by
    rw [Pending.below, List.append_nil]
  induction x using Prepared.induction generalizing path with
  | scalar m =>
    by_cases deep : c.maxDepth < path.length
    · exact leavesBelow_of_deep deep _
    · rw [leavesBelow.eq_def, if_neg deep, Prepared.preorder, List.map_singleton, here,
        outcome_leaf (fault?_scalar deep m) rfl]
      rfl
  | list items carried _ =>
    by_cases deep : c.maxDepth < path.length
    · exact leavesBelow_of_deep deep _
    · rw [leavesBelow_list deep, Prepared.preorder, List.map_singleton, here]
  | object props ih =>
    by_cases deep : c.maxDepth < path.length
    · exact leavesBelow_of_deep deep _
    · rw [leavesBelow.eq_def, if_neg deep, Prepared.preorder, List.map_cons, here, outcome_object deep]
      exact leavesBelowProps_eq_outcome c authored ih path

/-- The compiler finds the leaves that the recursion finds. If it fails, then as the recursion does: at
the first node in preorder that has a fault, and with that fault. -/
theorem compile_eq_recursive (x : Prepared) :
    c.compile x authored = (c.leavesBelow authored [] x).map Plan.mk ∧
    ∀ e, c.compile x authored = .error e ↔
      ∃ before s after, x.preorder = before ++ s :: after ∧ c.fault? authored s = some e ∧
        ∀ t ∈ before, c.fault? authored t = none := by
  constructor
  · rw [compile_eq, leavesBelow_eq_outcome, Pending.map_below_nil]
  · intro e
    rw [compile_eq, outcome, ← List.findSome?_eq_some_iff]
    cases x.preorder.findSome? (c.fault? authored) with
    | none => simp [Except.map]
    | some first => simp [Except.map]

end LeafPlan.Compiler
