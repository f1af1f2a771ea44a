import LeafPlan.Proofs.Rearranged
import LeafPlan.Proofs.Schema.Distinct

/-!
# Schemas that compare equal

Objects that compare equal have the same properties up to their order. So a path leads to equal nodes in equal
authored schemas, and to equal methods.
-/

namespace LeafPlan

namespace Prepared

theorem keywise : Keywise same sameProps where
  nil _ := rfl
  cons k _ _ qs := by
    rw [sameProps]
    cases Members.find? k qs <;> rfl

theorem sameProps_iff {ps qs : List (String × Prepared)} :
    sameProps ps qs = true ↔ ∀ p ∈ ps, ∃ y, Members.find? p.1 qs = some y ∧ p.2.same y = true :=
  keywise.iff

theorem rearranged_of_same {ps qs : List (String × Prepared)} (distinct : (Members.keys ps).Nodup)
    (same : (Prepared.object ps).same (.object qs) = true) :
    Rearranged (Members.Matches fun x y => x.same y = true) ps qs :=
  Members.rearranged_of_keywise keywise distinct same

end Prepared

namespace Authored

theorem keywise : Keywise same sameProps where
  nil _ := rfl
  cons k _ _ qs := by
    rw [sameProps]
    cases Members.find? k qs <;> rfl

theorem rearranged_of_same {ps qs : List (String × Authored)} (distinct : (Members.keys ps).Nodup)
    (same : (Authored.object ps).same (.object qs) = true) :
    Rearranged (Members.Matches fun x y => x.same y = true) ps qs :=
  Members.rearranged_of_keywise keywise distinct same

theorem find?_of_same {o u : Authored} (distinct : o.Distinct) (distinctToo : u.Distinct) (same : o.same u = true)
    (p : Path) : Option.Rel (fun x y : Authored => x.same y = true) (Path.find? p o) (Path.find? p u) := by
  induction p generalizing o u with
  | nil => exact .some same
  | cons k p ih =>
    cases o with
    | object ps =>
      cases u with
      | object qs =>
        obtain ⟨unique, below⟩ := distinct_object.mp distinct
        obtain ⟨uniqueToo, belowToo⟩ := distinct_object.mp distinctToo
        have children := Members.find?_rearranged uniqueToo (rearranged_of_same unique same) k
        rw [find?_object, find?_object]
        -- equal properties under one name may stand at different places of the two lists
        generalize left : Members.find? k ps = x at children ⊢
        generalize right : Members.find? k qs = y at children ⊢
        cases children with
        | none => exact .none
        | some inside =>
          exact ih (below _ (Members.mem_of_find? left)) (belowToo _ (Members.mem_of_find? right)) inside
      | _ => cases same
    | _ =>
      cases u with
      | object qs => cases same
      | _ => exact .none

theorem method?_of_same {o u : Authored} (same : o.same u = true) :
    Option.Rel (fun m n : Method => (m == n) = true) o.method? u.method? := by
  cases o with
  | list m xs =>
    cases u with
    | list n ys =>
      rw [Authored.same, Bool.and_eq_true] at same
      exact .some same.1
    | _ => cases same
  | _ =>
    cases u with
    | list n ys => cases same
    | _ => exact .none

end Authored

end LeafPlan
