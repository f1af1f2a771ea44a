import LeafPlan.Proofs.Schema.Distinct

/-!
# Prepared forms of authored schemas

`Authored.prepare` keeps the properties of every object in their order. So a path leads to the prepared form of
the node that it leads to in the authored schema. It keeps methods too, so `same_prepare` shows that no difference
between schemas is lost or made.
-/

namespace LeafPlan.Authored

theorem prepareItems_eq (items : List Authored) : prepareItems items = items.map prepare :=
  Mapped.eq ⟨rfl, fun _ _ => rfl⟩ items

theorem prepareProps_eq (props : List (String × Authored)) :
    prepareProps props = props.map fun q => (q.1, q.2.prepare) :=
  Mapped.eq ⟨rfl, fun _ _ => rfl⟩ props

@[simp] theorem keys_prepareProps (props : List (String × Authored)) :
    Members.keys (prepareProps props) = Members.keys props := by
  rw [prepareProps_eq, Members.keys, Members.keys, List.map_map]
  rfl

@[simp] theorem find?_prepareProps (k : String) (props : List (String × Authored)) :
    Members.find? k (prepareProps props) = (Members.find? k props).map prepare := by
  induction props with
  | nil => rfl
  | cons q ps ih =>
    obtain ⟨j, x⟩ := q
    rw [prepareProps, Members.find?_cons, Members.find?_cons, ih]
    split <;> rfl

theorem distinct_prepare {o : Authored} (distinct : o.Distinct) : o.prepare.Distinct := by
  induction o using Authored.induction with
  | scalar m => trivial
  | list m items ih =>
    have below := distinctItems_iff.mp distinct
    rw [prepare, Prepared.Distinct, prepareItems_eq, Prepared.distinctItems_iff, List.forall_mem_map]
    exact fun x member => ih x member (below x member)
  | object props ih =>
    obtain ⟨unique, below⟩ := distinct_object.mp distinct
    rw [prepare, Prepared.distinct_object, keys_prepareProps, prepareProps_eq, List.forall_mem_map]
    exact ⟨unique, fun q member => ih q member (below q member)⟩

@[simp] theorem find?_prepare (p : Path) (o : Authored) : Path.find? p o.prepare = (Path.find? p o).map prepare := by
  induction p generalizing o with
  | nil => rfl
  | cons k p ih =>
    cases o with
    | object props =>
      rw [prepare, Prepared.find?_object, find?_object, find?_prepareProps]
      cases Members.find? k props with
      | none => rfl
      | some x => exact ih x
    | _ => rfl

/-! ### Comparison -/

theorem sameItems_prepare {xs : List Authored}
    (each : ∀ x ∈ xs, ∀ u : Authored, x.prepare.same u.prepare = x.same u) (ys : List Authored) :
    Prepared.sameItems (prepareItems xs) (prepareItems ys) = sameItems xs ys := by
  induction xs generalizing ys with
  | nil => cases ys <;> rfl
  | cons x xs ih =>
    obtain ⟨here, each⟩ := List.forall_mem_cons.mp each
    cases ys with
    | nil => rfl
    | cons y ys => rw [prepareItems, prepareItems, Prepared.sameItems, sameItems, here, ih each]

theorem sameProps_prepare {ps : List (String × Authored)}
    (each : ∀ p ∈ ps, ∀ u : Authored, p.2.prepare.same u.prepare = p.2.same u) (qs : List (String × Authored)) :
    Prepared.sameProps (prepareProps ps) (prepareProps qs) = sameProps ps qs := by
  induction ps with
  | nil => rfl
  | cons p ps ih =>
    obtain ⟨k, x⟩ := p
    obtain ⟨here, each⟩ := List.forall_mem_cons.mp each
    rw [prepareProps, Prepared.sameProps, sameProps, ih each, find?_prepareProps]
    cases Members.find? k qs with
    | none => rfl
    | some y => exact congrArg (· && sameProps ps qs) (here y)

theorem same_prepare (o u : Authored) : o.prepare.same u.prepare = o.same u := by
  induction o using Authored.induction generalizing u with
  | scalar m => cases u <;> rfl
  | list m items ih =>
    cases u with
    | list n others =>
      rw [prepare, prepare, Prepared.same, same, sameItems_prepare ih, Bool.and_comm]
      rfl
    | _ => rfl
  | object props ih =>
    cases u with
    | object others =>
      rw [prepare, prepare, Prepared.same, same, sameProps_prepare ih, prepareProps_eq, prepareProps_eq,
        List.length_map, List.length_map]
    | _ => rfl

end LeafPlan.Authored
