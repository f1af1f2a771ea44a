import LeafPlan.CommandLine.Table
import LeafPlan.Proofs.Plan.WriteBack

/-!
# Copying through a plan is projecting by the schema

`Prepared.project` cuts a document down to a schema by recursion. `copy_eq_project` shows that writing
what a plan reads from a document into a null comes to the same, and that the copy shows the same row.
-/

namespace LeafPlan

/-- What a plan reads from a document, null where it lacks it, written into a null. -/
def Plan.copy (plan : Plan) (d : Json) : Edited := plan.write ((plan.read d).map fun v => v.getD .null) .null

namespace Prepared

mutual

def hasLeaf : Prepared → Bool
  | .scalar _ => true
  | .list _ _ => true
  | .object props => hasLeafProps props

def hasLeafProps : List (String × Prepared) → Bool
  | [] => false
  | (_, x) :: ps => x.hasLeaf || hasLeafProps ps

end

mutual

/-- A document, or nothing, cut down to a schema. -/
def project : Prepared → Option Json → Json
  | .scalar _, d => d.getD .null
  | .list _ _, d => d.getD .null
  | .object props, d => if hasLeafProps props then .object (projectProps props d) else .null

/-- One member for each property that has a leaf, in order of declaration. -/
def projectProps : List (String × Prepared) → Option Json → Members Json
  | [], _ => []
  | (k, x) :: ps, d =>
    if x.hasLeaf then (k, x.project (d.bind fun v => v.child? k)) :: projectProps ps d
    else projectProps ps d

end

theorem project_of_isLeaf {x : Prepared} (leaf : x.isLeaf = true) (d : Option Json) : x.project d = d.getD .null := by
  cases x with
  | object props => cases leaf
  | _ => rfl

theorem hasLeafProps_eq_false_iff {props : List (String × Prepared)} :
    hasLeafProps props = false ↔ ∀ q ∈ props, q.2.hasLeaf = false := by
  induction props with
  | nil => simp [hasLeafProps]
  | cons q ps ih =>
    obtain ⟨k, x⟩ := q
    rw [hasLeafProps, Bool.or_eq_false_iff, ih, List.forall_mem_cons]

theorem leaves_eq_nil_iff {x : Prepared} : x.leaves = [] ↔ x.hasLeaf = false := by
  induction x using Prepared.induction with
  | object props ih =>
    rw [leaves_object, List.flatMap_eq_nil_iff, hasLeaf, hasLeafProps_eq_false_iff]
    simp only [List.map_eq_nil_iff]
    exact forall₂_congr ih
  | _ =>
    rw [leaves_of_isLeaf rfl]
    simp [hasLeaf]

/-! ### The writes of a copy -/

/-- The value at each leaf of a schema, null where there is none. -/
def writes (x : Prepared) (d : Option Json) : List (Path × Json) :=
  x.leaves.map fun s => (s.1, (d.bind (Path.find? s.1)).getD .null)

theorem writes_object (props : List (String × Prepared)) (d : Option Json) :
    (Prepared.object props).writes d =
      props.flatMap fun q => Path.below q.1 (q.2.writes (d.bind fun v => v.child? q.1)) := by
  rw [writes, leaves_object, List.map_flatMap]
  congr 1
  funext q
  rw [Path.below, writes, List.map_map, List.map_map]
  refine List.map_congr_left fun s _ => ?_
  cases d with
  | none => rfl
  | some v => exact congrArg (fun found => (q.1 :: s.1, Option.getD found .null)) (Path.find?_document q.1 s.1 v)

/-- The members come to stand behind those that are there, in the order of the properties. -/
theorem setAll_writesProps {props : List (String × Prepared)}
    (each : ∀ q ∈ props, ∀ d, Path.setAll (q.2.writes d) .null = ⟨q.2.project d, none⟩) (d : Option Json)
    {members : Members Json} (unique : (Members.keys members ++ Members.keys props).Nodup) :
    Path.setAll (props.flatMap fun q => Path.below q.1 (q.2.writes (d.bind fun v => v.child? q.1)))
      (.object members) = ⟨.object (members ++ projectProps props d), none⟩ := by
  -- What earlier properties left is in `members`, so its keys must stay clear of those to come.
  induction props generalizing members with
  | nil =>
    rw [projectProps, List.append_nil]
    rfl
  | cons q ps ih =>
    obtain ⟨k, x⟩ := q
    obtain ⟨first, each⟩ := List.forall_mem_cons.mp each
    rw [List.flatMap_cons, projectProps]
    cases present : x.hasLeaf with
    | false =>
      have nothing : x.writes (d.bind fun v => v.child? k) = [] := by
        rw [writes, leaves_eq_nil_iff.mpr present, List.map_nil]
      rw [nothing, if_neg Bool.false_ne_true]
      exact ih each (unique.sublist ((List.sublist_cons_self k _).append_left _))
    | true =>
      have nonempty : x.writes (d.bind fun v => v.child? k) ≠ [] := by
        rw [writes, Ne, List.map_eq_nil_iff, leaves_eq_nil_iff, present]
        exact Bool.noConfusion
      have absent : k ∉ Members.keys members := by
        intro member
        exact (List.nodup_append.mp unique).2.2 k member k List.mem_cons_self rfl
      have opened : Path.setAll (Path.below k (x.writes (d.bind fun v => v.child? k))) (.object members) =
          ⟨.object (members ++ [(k, x.project (d.bind fun v => v.child? k))]), none⟩ := by
        rw [Path.setAll_below nonempty rfl, Members.find?_eq_none_iff.mpr absent, Option.getD_none, first]
        exact congrArg (fun m => Edited.mk (.object m) none) (Members.insert_of_not_mem _ absent)
      rw [Path.setAll_append_of_done (by rw [opened]), opened, if_pos rfl, ih each, List.append_assoc]
      · rfl
      · rw [Members.keys, List.map_append, List.append_assoc]
        exact unique

/-- Written into a null, the leaves' values of a document make up its projection. -/
theorem setAll_writes {x : Prepared} (distinct : x.Distinct) (d : Option Json) :
    Path.setAll (x.writes d) .null = ⟨x.project d, none⟩ := by
  induction x using Prepared.induction generalizing d with
  | object props ih =>
    obtain ⟨unique, below⟩ := distinct_object.mp distinct
    rw [project]
    cases present : hasLeafProps props with
    | false =>
      have nothing : (Prepared.object props).leaves = [] := leaves_eq_nil_iff.mpr present
      rw [writes, nothing]
      rfl
    | true =>
      have built := setAll_writesProps (fun q member d => ih q member (below q member) d) d
        (show (Members.keys ([] : Members Json) ++ Members.keys props).Nodup from unique)
      rw [← writes_object, List.nil_append] at built
      -- The first write makes no difference between a null and an empty object.
      rw [if_pos rfl, ← built]
      refine Path.setAll_of_slots ?_ ?_ rfl rfl
      · rw [writes, Ne, List.map_eq_nil_iff, leaves_eq_nil_iff, hasLeaf, present]
        exact Bool.noConfusion
      · intro w member
        rw [writes_object] at member
        obtain ⟨q, -, inside⟩ := List.mem_flatMap.mp member
        obtain ⟨u, -, rfl⟩ := List.mem_map.mp inside
        exact List.cons_ne_nil _ _
  | _ =>
    rw [writes, leaves_of_isLeaf rfl, project_of_isLeaf rfl, List.map_singleton, Path.setAll_singleton]
    cases d <;> rfl

end Prepared

/-! ### What a plan shows of a copy -/

theorem Leaf.render?_of_read? {l : Leaf} {d copied : Json}
    (same : l.read? copied = some ((l.read? d).getD .null)) :
    l.render? copied = some ((l.render? d).getD .null) := by
  rw [render?, render?, same]
  cases l.read? d with
  | some v => rfl
  | none =>
    obtain ⟨name, path, kind⟩ := l
    cases kind <;> rfl

namespace Plan

variable {plan : Plan} {d copied : Json}

theorem read?_of_read (same : plan.read copied = ((plan.read d).map fun v => v.getD .null).map some) :
    ∀ l ∈ plan.leaves, l.read? copied = some ((l.read? d).getD .null) := by
  rw [read, read, List.map_map, List.map_map, List.map_inj_left] at same
  exact same

theorem render_of_read (same : plan.read copied = ((plan.read d).map fun v => v.getD .null).map some) :
    plan.render copied = (plan.render d).map fun v => some (v.getD .null) := by
  rw [render, render, List.map_map]
  exact List.map_congr_left fun l member => Leaf.render?_of_read? (read?_of_read same l member)

theorem row_of_render (same : plan.render copied = (plan.render d).map fun v => some (v.getD .null)) :
    plan.row copied = plan.row d := by
  rw [row, row, same, List.zip_map_right, List.map_map]
  rfl

end Plan

namespace Compiler

variable {x : Prepared} {authored : Option Authored} {n : Nat} {plan : Plan}

theorem copy_of_compile (distinct : x.Distinct) (compiled : Compiler.compile ⟨id, n⟩ x authored = .ok plan)
    (d : Json) : plan.copy d = ⟨x.project (some d), none⟩ := by
  have paths := map_path_leaves compiled
  have arity : ((plan.read d).map fun v => v.getD .null).length = plan.size := by
    rw [List.length_map, Plan.read, List.length_map, Plan.size]
  rw [Plan.copy, Plan.write_of_length arity, Plan.read_eq_map, paths, List.map_map, List.map_map, List.zip_map']
  exact Prepared.setAll_writes distinct (some d)

/-- A copy through a compiled plan never fails. It is the projection of the document by the schema, shows
what the document shows with null for what is absent, and is its own copy. -/
theorem copy_eq_project (distinct : x.Distinct) (compiled : Compiler.compile ⟨id, n⟩ x authored = .ok plan)
    (d : Json) :
    plan.copy d = ⟨x.project (some d), none⟩ ∧
      plan.render (x.project (some d)) = (plan.render d).map (fun v => some (v.getD .null)) ∧
      plan.row (x.project (some d)) = plan.row d ∧
      plan.copy (x.project (some d)) = plan.copy d := by
  have copied := copy_of_compile distinct compiled d
  have shown := Plan.read_write (paths_apart distinct compiled) (congrArg Edited.stopped copied)
  have result : (plan.write ((plan.read d).map fun v => v.getD .null) .null).document = x.project (some d) :=
    congrArg Edited.document copied
  rw [result] at shown
  have rendered := Plan.render_of_read shown
  refine ⟨copied, rendered, Plan.row_of_render rendered, ?_⟩
  rw [Plan.copy, shown, List.map_map]
  exact congrArg (fun values => plan.write values .null) (List.map_id _)

/-- The copy has the members of the schema in its order, not those of the document. -/
theorem copy_eq_project_invoice :
    let d : Json :=
      .object [("paid", .bool true), ("due", .string "May"), ("buyer", .object [("tags", .array [.string "a"])])]
    let copied : Json :=
      .object
        [("id", .null), ("buyer", .object [("name", .null), ("tags", .array [.string "a"])]), ("paid", .bool true)]
    Prepared.invoice.Distinct ∧ Compiler.compile ⟨id, 2⟩ Prepared.invoice none = .ok Plan.invoice ∧
      Plan.invoice.copy d = ⟨copied, none⟩ ∧ Plan.invoice.row copied = Plan.invoice.row d := by
  intro d copied
  obtain ⟨copy, -, row, -⟩ := copy_eq_project Prepared.distinct_invoice compile_invoice d
  exact ⟨Prepared.distinct_invoice, compile_invoice, copy, row⟩

end Compiler

end LeafPlan
