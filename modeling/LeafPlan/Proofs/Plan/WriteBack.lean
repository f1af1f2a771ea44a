import LeafPlan.Proofs.Path.Writes
import LeafPlan.Proofs.Plan.Leaves

/-!
# Reading what a plan wrote

The paths of a compiled plan part pairwise, so a plan reads back every value that it wrote. Writing back
what was read changes nothing.
-/

namespace LeafPlan

namespace Plan

theorem writeAll_eq_setAll (writes : List (Leaf × Json)) (d : Json) :
    writeAll writes d = Path.setAll (writes.map fun w => (w.1.path, w.2)) d := by
  induction writes generalizing d with
  | nil => rfl
  | cons w rest ih =>
    obtain ⟨l, v⟩ := w
    rw [writeAll, List.map_cons, Path.setAll]
    dsimp only
    obtain ⟨document, stopped⟩ := Path.set v l.path d
    cases stopped with
    | none => exact ih document
    | some e => rfl

theorem write_of_length {plan : Plan} {values : List Json} (arity : values.length = plan.size) (d : Json) :
    plan.write values d = Path.setAll ((plan.leaves.map Leaf.path).zip values) d := by
  rw [write, if_pos arity, writeAll_eq_setAll, List.zip_map_left]
  rfl

theorem length_of_write {plan : Plan} {values : List Json} {d : Json}
    (done : (plan.write values d).stopped = none) : values.length = plan.size := by
  rw [write] at done
  split at done
  · assumption
  · cases done

theorem read_eq_map (plan : Plan) (d : Json) :
    plan.read d = (plan.leaves.map Leaf.path).map fun p => Path.find? p d := by
  rw [read, List.map_map]
  rfl

theorem length_of_read {plan : Plan} {values : List Json} {d : Json} (present : plan.read d = values.map some) :
    values.length = plan.size := by
  have lengths := congrArg List.length present
  rw [read, List.length_map, List.length_map] at lengths
  exact lengths.symm

theorem read_eq_iff {plan : Plan} {values : List Json} (arity : values.length = plan.size) {d : Json} :
    plan.read d = values.map some ↔
      ∀ w ∈ (plan.leaves.map Leaf.path).zip values, Path.find? w.1 d = some w.2 := by
  obtain ⟨leaves⟩ := plan
  rw [read]
  rw [size] at arity
  induction leaves generalizing values with
  | nil =>
    obtain rfl := List.eq_nil_of_length_eq_zero arity
    simp
  | cons l rest ih =>
    cases values with
    | nil => cases arity
    | cons v values =>
      rw [List.map_cons, List.map_cons, List.map_cons, List.zip_cons_cons, List.forall_mem_cons,
        List.cons.injEq, ih (Nat.succ.inj arity)]
      rfl

theorem map_fst_writes {plan : Plan} {values : List Json} (arity : values.length = plan.size) :
    ((plan.leaves.map Leaf.path).zip values).map Prod.fst = plan.leaves.map Leaf.path := by
  refine List.map_fst_zip (Nat.le_of_eq ?_)
  rw [List.length_map, arity, size]

theorem writes_apart {plan : Plan} (apart : plan.leaves.Pairwise fun l m => Path.Apart l.path m.path)
    {values : List Json} (arity : values.length = plan.size) :
    ((plan.leaves.map Leaf.path).zip values).Pairwise fun w u => Path.Apart w.1 u.1 := by
  have parts := List.pairwise_map.mpr apart
  rw [← map_fst_writes arity] at parts
  exact List.pairwise_map.mp parts

/-- No write is lost and none is overwritten. -/
theorem read_write {plan : Plan} (apart : plan.leaves.Pairwise fun l m => Path.Apart l.path m.path)
    {values : List Json} {d : Json} (done : (plan.write values d).stopped = none) :
    plan.read (plan.write values d).document = values.map some := by
  have arity := length_of_write done
  rw [read_eq_iff arity]
  rw [write_of_length arity] at done ⊢
  exact Path.find?_setAll (writes_apart apart arity) done

theorem find?_write_of_apart {plan : Plan} {q : Path} (apart : ∀ l ∈ plan.leaves, Path.Apart l.path q)
    (values : List Json) (d : Json) : Path.find? q (plan.write values d).document = Path.find? q d := by
  rw [write]
  split
  · rw [writeAll_eq_setAll]
    refine Path.find?_setAll_of_apart ?_ d
    intro w member
    obtain ⟨⟨l, v⟩, zipped, rfl⟩ := List.mem_map.mp member
    exact apart l (List.of_mem_zip zipped).1
  · rfl

theorem write_read {plan : Plan} {values : List Json} {d : Json} (present : plan.read d = values.map some) :
    plan.write values d = ⟨d, none⟩ := by
  have arity := length_of_read present
  rw [write_of_length arity]
  exact Path.setAll_of_find? ((read_eq_iff arity).mp present)

end Plan

namespace Compiler

/-- Values that a compiled plan has written are read back slot by slot, and what stands at a path that
parts from all the plan's paths stays. Writing back what all the slots hold leaves a document as it is. -/
theorem write_read_back {x : Prepared} (distinct : x.Distinct) {authored : Option Authored} {n : Nat}
    {plan : Plan} (compiled : Compiler.compile ⟨id, n⟩ x authored = .ok plan) (target : Json) :
    (∀ values, (plan.write values target).stopped = none →
      plan.read (plan.write values target).document = values.map some ∧
      ∀ q : Path, (∀ l ∈ plan.leaves, ¬ q <+: l.path ∧ ¬ l.path <+: q) →
        Path.find? q (plan.write values target).document = Path.find? q target) ∧
    ∀ values, plan.read target = values.map some → plan.write values target = ⟨target, none⟩ := by
  refine ⟨fun values done => ⟨?_, fun q parts => ?_⟩, fun values present => Plan.write_read present⟩
  · exact Plan.read_write (paths_apart distinct compiled) done
  · exact Plan.find?_write_of_apart (fun l member => (parts l member).symm) values target

/-- The null opens, the other member stays, and the new members stand behind. -/
theorem write_read_back_invoice :
    let values : List Json := [.number (.int 7), .string "Ann", .array [], .bool true]
    let target : Json := .object [("buyer", .null), ("due", .string "May"), ("paid", .null)]
    let written : Json :=
      .object
        [("buyer", .object [("name", .string "Ann"), ("tags", .array [])]), ("due", .string "May"),
          ("paid", .bool true), ("id", .number (.int 7))]
    Prepared.invoice.Distinct ∧ Compiler.compile ⟨id, 2⟩ Prepared.invoice none = .ok Plan.invoice ∧
      Plan.invoice.write values target = ⟨written, none⟩ ∧ Plan.invoice.read written = values.map some ∧
      Path.find? ["due"] written = Path.find? ["due"] target ∧
      Plan.invoice.write values written = ⟨written, none⟩ := by
  intro values target written
  have result : Plan.invoice.write values target = ⟨written, none⟩ := rfl
  have forth := (write_read_back Prepared.distinct_invoice compile_invoice target).1 values (by rw [result])
  rw [result] at forth
  have back := (write_read_back Prepared.distinct_invoice compile_invoice written).2 values forth.1
  exact ⟨Prepared.distinct_invoice, compile_invoice, result, forth.1, forth.2 ["due"] (by decide), back⟩

end Compiler

end LeafPlan
