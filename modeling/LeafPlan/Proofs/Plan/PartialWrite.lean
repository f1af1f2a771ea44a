import LeafPlan.Proofs.Path.Blocked
import LeafPlan.Proofs.Plan.WriteBack

/-!
# Writes that fail

Whether a plan can be written into a document does not depend on the values. `write_succeeds_or_stops`
decides it leaf by leaf on the document as it was before, and says what a write that fails leaves behind.
-/

namespace LeafPlan

namespace Plan

variable {plan : Plan} {values : List Json}

theorem write_of_arity (other : values.length ≠ plan.size) (target : Json) :
    plan.write values target = ⟨target, some (.arity plan.size values.length)⟩ :=
  if_neg other

theorem write_stopped_iff (apart : plan.leaves.Pairwise fun l m => Path.Apart l.path m.path)
    (arity : values.length = plan.size) (target : Json) :
    (plan.write values target).stopped = none ↔ ∀ l ∈ plan.leaves, l.path.Settable target := by
  rw [write_of_length arity, Path.setAll_stopped_iff (writes_apart apart arity)]
  -- both sides ask the paths of the writes, which are those of the leaves
  rw [← List.forall_mem_map (P := fun p => Path.Settable p target), map_fst_writes arity, List.forall_mem_map]

theorem write_take (arity : values.length = plan.size) (i : Nat) (target : Json) :
    (Plan.mk (plan.leaves.take i)).write (values.take i) target =
      Path.setAll (((plan.leaves.map Leaf.path).zip values).take i) target := by
  have short : (values.take i).length = (Plan.mk (plan.leaves.take i)).size := by
    rw [size, List.length_take, List.length_take, arity, size]
  rw [write_of_length short, List.zip_eq_zipWith, List.zip_eq_zipWith, List.take_zipWith, List.map_take]

theorem write_of_stopped (apart : plan.leaves.Pairwise fun l m => Path.Apart l.path m.path)
    (arity : values.length = plan.size) {target : Json} {e : AccessError}
    (stopped : (plan.write values target).stopped = some e) :
    ∃ i l q, plan.leaves[i]? = some l ∧ (∀ m ∈ plan.leaves.take i, m.path.Settable target) ∧
      e = .notObject q ∧ q.Blocks l.path target ∧
      (Plan.mk (plan.leaves.take i)).write (values.take i) target =
        ⟨(plan.write values target).document, none⟩ := by
  rw [write_of_length arity] at stopped ⊢
  obtain ⟨i, p, v, q, here, before, failure, blocks, alone⟩ :=
    Path.setAll_of_stopped (writes_apart apart arity) stopped
  obtain ⟨path, -⟩ := List.getElem?_zip_eq_some.mp here
  rw [List.getElem?_map] at path
  obtain ⟨l, leaf, rfl⟩ := Option.map_eq_some_iff.mp path
  refine ⟨i, l, q, leaf, ?_, failure, blocks, ?_⟩
  · rw [← List.forall_mem_map (P := fun p => Path.Settable p target), List.map_take, ← map_fst_writes arity,
      ← List.map_take, List.forall_mem_map]
    exact before
  · rw [write_take arity, alone]

end Plan

namespace Compiler

/-- A plan is written in full if each of its paths alone could be set in the document as it was before,
whatever the values are. Else the write stops at the first leaf whose path could not, reports the shortest
prefix that is in the way, and leaves what the leaves before it make of the document. Without one value for
each leaf nothing is written. -/
theorem write_succeeds_or_stops {x : Prepared} (distinct : x.Distinct) {authored : Option Authored} {n : Nat}
    {plan : Plan} (compiled : Compiler.compile ⟨id, n⟩ x authored = .ok plan) (target : Json) (values : List Json) :
    (values.length = plan.size →
      ((plan.write values target).stopped = none ↔ ∀ l ∈ plan.leaves, l.path.Settable target) ∧
      ∀ e, (plan.write values target).stopped = some e →
        ∃ i l q, plan.leaves[i]? = some l ∧ (∀ m ∈ plan.leaves.take i, m.path.Settable target) ∧
          e = .notObject q ∧ q.Blocks l.path target ∧
          (∀ r : Path, r.Blocks l.path target → q.length ≤ r.length) ∧
          (Plan.mk (plan.leaves.take i)).write (values.take i) target =
            ⟨(plan.write values target).document, none⟩) ∧
    (values.length ≠ plan.size →
      plan.write values target = ⟨target, some (.arity plan.size values.length)⟩) := by
  have apart := paths_apart distinct compiled
  refine ⟨fun arity => ⟨Plan.write_stopped_iff apart arity target, fun e stopped => ?_⟩,
    fun other => Plan.write_of_arity other target⟩
  obtain ⟨i, l, q, leaf, before, failure, blocks, alone⟩ := Plan.write_of_stopped apart arity stopped
  refine ⟨i, l, q, leaf, before, failure, blocks, fun r other => ?_, alone⟩
  rw [blocks.unique other]

/-- The buyer is a text, so only the number gets in. -/
theorem write_succeeds_or_stops_invoice :
    let values : List Json := [.number (.int 7), .string "Ann", .array [], .bool true]
    let target : Json := .object [("buyer", .string "Ann"), ("paid", .null)]
    let left : Json := .object [("buyer", .string "Ann"), ("paid", .null), ("id", .number (.int 7))]
    Prepared.invoice.Distinct ∧ Compiler.compile ⟨id, 2⟩ Prepared.invoice none = .ok Plan.invoice ∧
      Plan.invoice.write values target = ⟨left, some (.notObject ["buyer"])⟩ ∧
      (¬ ∀ l ∈ Plan.invoice.leaves, l.path.Settable target) ∧
      (∃ i l, Plan.invoice.leaves[i]? = some l ∧ Path.Blocks ["buyer"] l.path target ∧
        (Plan.mk (Plan.invoice.leaves.take i)).write (values.take i) target = ⟨left, none⟩) ∧
      Plan.invoice.write [] target = ⟨target, some (.arity 4 0)⟩ := by
  intro values target left
  have result : Plan.invoice.write values target = ⟨left, some (.notObject ["buyer"])⟩ := rfl
  obtain ⟨succeeds, stops⟩ :=
    (write_succeeds_or_stops Prepared.distinct_invoice compile_invoice target values).1 rfl
  obtain ⟨i, l, q, leaf, -, failure, blocks, -, alone⟩ := stops _ (by rw [result])
  obtain rfl : ["buyer"] = q := AccessError.notObject.inj failure
  refine ⟨Prepared.distinct_invoice, compile_invoice, result, ?_, ⟨i, l, leaf, blocks, alone⟩, ?_⟩
  · rw [← succeeds, result]
    exact Option.some_ne_none _
  · exact (write_succeeds_or_stops Prepared.distinct_invoice compile_invoice target []).2 (by decide)

end Compiler

end LeafPlan
