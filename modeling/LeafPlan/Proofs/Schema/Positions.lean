import LeafPlan.Proofs.Schema.Prepare

/-!
# Positions in a schema

A path leads through objects only, a position also into the items that a list declares.
`prepare_preserves_navigation` shows that a schema and its prepared form have the same nodes at the same positions,
with their names and methods, and that prepared forms are equal only where the schemas are.
-/

namespace LeafPlan

/-- A step from a node of a schema to one inside it. -/
inductive SchemaStep where
  | property (name : String)
  | item (index : Nat)

namespace Prepared

def inside? : SchemaStep → Prepared → Option Prepared
  | .property k, .object props => Members.find? k props
  | .item i, .list items _ => items[i]?
  | _, _ => none

/-- The node at a position. -/
def at? : List SchemaStep → Prepared → Option Prepared
  | [], x => some x
  | s :: q, x => (x.inside? s).bind (at? q)

end Prepared

namespace Authored

def inside? : SchemaStep → Authored → Option Authored
  | .property k, .object props => Members.find? k props
  | .item i, .list _ items => items[i]?
  | _, _ => none

/-- The node at a position. -/
def at? : List SchemaStep → Authored → Option Authored
  | [], o => some o
  | s :: q, o => (o.inside? s).bind (at? q)

theorem inside?_prepare (s : SchemaStep) (o : Authored) : o.prepare.inside? s = (o.inside? s).map prepare := by
  cases o with
  | scalar m => cases s <;> rfl
  | list m items =>
    cases s with
    | property k => rfl
    | item i => rw [prepare, prepareItems_eq, Prepared.inside?, inside?, List.getElem?_map]
  | object props =>
    cases s with
    | property k => rw [prepare, Prepared.inside?, inside?, find?_prepareProps]
    | item i => rfl

theorem at?_prepare (q : List SchemaStep) (o : Authored) : Prepared.at? q o.prepare = (at? q o).map prepare := by
  induction q generalizing o with
  | nil => rfl
  | cons s q ih =>
    rw [Prepared.at?, at?, inside?_prepare]
    cases o.inside? s with
    | none => rfl
    | some inner => exact ih inner

theorem prepare_eq_object_iff {o : Authored} {ps : List (String × Prepared)} :
    o.prepare = .object ps ↔ ∃ props, o = .object props ∧ prepareProps props = ps := by
  cases o <;> simp [prepare]

theorem prepare_eq_list_iff {o : Authored} {items : List Prepared} {carried : Option Method} :
    o.prepare = .list items carried ↔ ∃ m authored, o = .list m authored ∧ prepareItems authored = items ∧
      carried = some m := by
  cases o <;> simp [prepare, eq_comm]

/-- Along a path the prepared form has the prepared node, or none where there is none. Objects with the same names in
the same order stand at the same positions, in the items of lists too, and so do lists, where the prepared one
carries the method of the authored one. Two schemas are equal if and only if their prepared forms are. -/
theorem prepare_preserves_navigation (o : Authored) :
    (∀ p : Path, Path.find? p o.prepare = (Path.find? p o).map prepare) ∧
    (∀ q names,
      (∃ props, Prepared.at? q o.prepare = some (.object props) ∧ Members.keys props = names) ↔
        ∃ props, at? q o = some (.object props) ∧ Members.keys props = names) ∧
    (∀ q carried,
      (∃ items, Prepared.at? q o.prepare = some (.list items carried)) ↔
        ∃ m items, at? q o = some (.list m items) ∧ carried = some m) ∧
    ∀ u : Authored, (o.prepare == u.prepare) = true ↔ (o == u) = true := by
  refine ⟨fun p => find?_prepare p o, fun q names => ?_, fun q carried => ?_, fun u => ?_⟩
  · rw [at?_prepare]
    constructor
    · rintro ⟨ps, found, rfl⟩
      obtain ⟨node, here, prepared⟩ := Option.map_eq_some_iff.mp found
      obtain ⟨props, rfl, rfl⟩ := prepare_eq_object_iff.mp prepared
      exact ⟨props, here, (keys_prepareProps props).symm⟩
    · rintro ⟨props, found, rfl⟩
      exact ⟨prepareProps props, Option.map_eq_some_iff.mpr ⟨_, found, rfl⟩, keys_prepareProps props⟩
  · rw [at?_prepare]
    constructor
    · rintro ⟨items, found⟩
      obtain ⟨node, here, prepared⟩ := Option.map_eq_some_iff.mp found
      obtain ⟨m, authored, rfl, -, same⟩ := prepare_eq_list_iff.mp prepared
      exact ⟨m, authored, here, same⟩
    · rintro ⟨m, items, found, rfl⟩
      exact ⟨prepareItems items, Option.map_eq_some_iff.mpr ⟨_, found, rfl⟩⟩
  · exact Bool.eq_iff_iff.mp (same_prepare o u)

end Authored

end LeafPlan
