import LeafPlan.Proofs.Schema.Loaded
import LeafPlan.Proofs.Schema.Prepare

/-!
# How deep schemas are nested

A path into a schema has no more names than the schema is deep, and a loaded schema is no deeper than the value
that it is loaded from.
-/

namespace LeafPlan

namespace Prepared

mutual

/-- How deep lists and objects are nested, inside of lists too. -/
def depth : Prepared → Nat
  | .scalar _ => 0
  | .list items _ => depthItems items + 1
  | .object props => depthProps props + 1

def depthItems : List Prepared → Nat
  | [] => 0
  | x :: xs => max x.depth (depthItems xs)

def depthProps : List (String × Prepared) → Nat
  | [] => 0
  | (_, x) :: ps => max x.depth (depthProps ps)

end

theorem depthItems_le_iff {items : List Prepared} {n : Nat} : depthItems items ≤ n ↔ ∀ x ∈ items, x.depth ≤ n :=
  Deepest.le_iff ⟨rfl, fun _ _ => rfl⟩

theorem depthProps_le_iff {props : List (String × Prepared)} {n : Nat} :
    depthProps props ≤ n ↔ ∀ q ∈ props, q.2.depth ≤ n :=
  Deepest.le_iff ⟨rfl, fun _ _ => rfl⟩

theorem length_le_depth {x y : Prepared} {p : Path} (found : Path.find? p x = some y) : p.length ≤ x.depth := by
  induction p generalizing x with
  | nil => exact Nat.zero_le _
  | cons k p ih =>
    cases x with
    | object props =>
      rw [find?_object] at found
      obtain ⟨z, here, below⟩ := Option.bind_eq_some_iff.mp found
      have within := depthProps_le_iff.mp (Nat.le_refl _) _ (Members.mem_of_find? here)
      exact Nat.succ_le_succ ((ih below).trans within)
    | _ => cases found

end Prepared

namespace Written

theorem Prepares.depth_le {w : Written} {x : Prepared} (prepares : w.Prepares x) : x.depth ≤ w.depth := by
  refine Prepares.induction (P := fun w x => x.depth ≤ w.depth) ?scalar ?list ?object prepares
  case scalar => exact fun m => Nat.zero_le _
  case list =>
    intro items xs each
    refine Nat.succ_le_succ (Prepared.depthItems_le_iff.mpr fun x member => ?_)
    obtain ⟨w, there, within⟩ := forall₂_right each x member
    exact within.trans (depthItems_le_iff.mp (Nat.le_refl _) w there)
  case object =>
    intro members pairs props each settled
    refine Nat.succ_le_succ (Prepared.depthProps_le_iff.mpr fun q member => ?_)
    obtain ⟨m, there, within⟩ := Members.matches_right each q (settled.mem member)
    exact within.trans (depthMembers_le_iff.mp (Nat.le_refl _) m there)

theorem Authors.depth_le {w : Written} {o : Authored} (authors : w.Authors o) : o.prepare.depth ≤ w.depth := by
  refine Authors.induction (P := fun w o => o.prepare.depth ≤ w.depth) ?sentinel ?name ?list ?object authors
  case sentinel => exact fun m => Nat.zero_le _
  case name => exact fun m => Nat.zero_le _
  case list =>
    intro b items xs each
    rw [Authored.prepare, Authored.prepareItems_eq]
    refine Nat.succ_le_succ (Prepared.depthItems_le_iff.mpr (List.forall_mem_map.mpr fun o member => ?_))
    obtain ⟨w, there, within⟩ := forall₂_right each o member
    exact within.trans (depthItems_le_iff.mp (Nat.le_refl _) w (List.mem_cons_of_mem _ there))
  case object =>
    intro members pairs props each settled
    rw [Authored.prepare, Authored.prepareProps_eq]
    refine Nat.succ_le_succ (Prepared.depthProps_le_iff.mpr (List.forall_mem_map.mpr fun q member => ?_))
    obtain ⟨m, there, within⟩ := Members.matches_right each q (settled.mem member)
    exact within.trans (depthMembers_le_iff.mp (Nat.le_refl _) m there)

end Written

/-! ### Chains -/

/-- `n` objects inside of each other. -/
def Prepared.chain : Nat → Prepared
  | 0 => .scalar .number
  | n + 1 => .object [("k", chain n)]

/-- `n` lists inside of each other. -/
def Authored.chain : Nat → Authored
  | 0 => .scalar .number
  | n + 1 => .list Builtin.join.method [chain n]

theorem Prepared.depth_chain (n : Nat) : (chain n).depth = n := by
  induction n with
  | zero => rfl
  | succ n ih => rw [chain, depth, depthProps, depthProps, ih, Nat.max_zero]

theorem Authored.depth_chain (n : Nat) : (chain n).prepare.depth = n := by
  induction n with
  | zero => rfl
  | succ n ih =>
    rw [chain, prepare, prepareItems, prepareItems, Prepared.depth, Prepared.depthItems, Prepared.depthItems, ih,
      Nat.max_zero]

end LeafPlan
