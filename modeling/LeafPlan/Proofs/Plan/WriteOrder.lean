import LeafPlan.Proofs.Json.Same
import LeafPlan.Proofs.Plan.WriteBack

/-!
# The order of writes

Writes along paths that part pairwise share no more than the objects on their ways, which the first of them to
come there makes. `writes_in_any_order` shows that their order decides the order of members and nothing else.
-/

namespace LeafPlan

namespace Path

variable {writes others : List (Path × Json)} {d : Json}

theorem pairwise_of_perm (order : others.Perm writes) (apart : writes.Pairwise fun w u => Apart w.1 u.1) :
    others.Pairwise fun w u => Apart w.1 u.1 :=
  (order.pairwise_iff fun parts => parts.symm).mpr apart

theorem setAll_stopped_of_perm (order : others.Perm writes) (apart : writes.Pairwise fun w u => Apart w.1 u.1) :
    (setAll writes d).stopped = none ↔ (setAll others d).stopped = none := by
  rw [setAll_stopped_iff apart, setAll_stopped_iff (pairwise_of_perm order apart)]
  exact forall_congr' fun w => imp_congr_left order.symm.mem_iff

/-- A path that goes on from a written one leads into the value, one that stops short of it leads to an object, and
any other leads to what was there before. None of that depends on the order. -/
theorem alike_setAll_of_perm (order : others.Perm writes) (apart : writes.Pairwise fun w u => Apart w.1 u.1)
    (done : (setAll writes d).stopped = none) :
    Json.Alike (setAll writes d).document (setAll others d).document := by
  have found := find?_setAll apart done
  have foundToo := find?_setAll (pairwise_of_perm order apart) ((setAll_stopped_of_perm order apart).mp done)
  intro q
  by_cases inside : ∃ w ∈ writes, w.1 <+: q
  · obtain ⟨w, member, r, rfl⟩ := inside
    rw [find?_append, find?_append, found w member, foundToo w (order.mem_iff.mpr member)]
  · by_cases short : ∃ w ∈ writes, q <+: w.1
    · obtain ⟨w, member, r, path⟩ := short
      have further : r ≠ [] := by
        rintro rfl
        rw [List.append_nil] at path
        exact inside ⟨w, member, path ▸ List.prefix_rfl⟩
      obtain ⟨ms, here⟩ := object_of_find?_append further (path ▸ found w member)
      obtain ⟨ns, hereToo⟩ := object_of_find?_append further (path ▸ foundToo w (order.mem_iff.mpr member))
      rw [here, hereToo]
      rfl
    · have parts : ∀ w ∈ writes, Apart w.1 q := fun w member =>
        ⟨fun above => inside ⟨w, member, above⟩, fun above => short ⟨w, member, above⟩⟩
      have partsToo : ∀ w ∈ others, Apart w.1 q := fun w member => parts w (order.mem_iff.mp member)
      rw [find?_setAll_of_apart parts, find?_setAll_of_apart partsToo]

theorem same_setAll_of_perm (order : others.Perm writes) (apart : writes.Pairwise fun w u => Apart w.1 u.1)
    (distinct : d.Distinct) (values : ∀ w ∈ writes, w.2.Distinct) (done : (setAll writes d).stopped = none) :
    (setAll writes d).document.same (setAll others d).document = true := by
  have valuesToo : ∀ w ∈ others, w.2.Distinct := fun w member => values w (order.mem_iff.mp member)
  exact Json.same_of_alike (distinct_setAll distinct values) (distinct_setAll distinct valuesToo)
    (alike_setAll_of_perm order apart done)

end Path

/-- Values written along paths none of which leads through another's end, as the paths of a compiled plan are, are
all written in one order if and only if they are in any other. Then the documents that they leave are equal but
for the order of members. -/
theorem writes_in_any_order {d : Json} (distinct : d.Distinct) :
    (∀ writes others : List (Path × Json), writes.Pairwise (fun w u => ¬ w.1 <+: u.1 ∧ ¬ u.1 <+: w.1) →
      (∀ w ∈ writes, w.2.Distinct) → others.Perm writes →
        ((Path.setAll writes d).stopped = none ↔ (Path.setAll others d).stopped = none) ∧
        ((Path.setAll writes d).stopped = none →
          (Path.setAll writes d).document.same (Path.setAll others d).document = true)) ∧
    ∀ (x : Prepared) (authored : Option Authored) (n : Nat) (plan : Plan), x.Distinct →
      Compiler.compile ⟨id, n⟩ x authored = .ok plan →
      ∀ values : List Json, values.length = plan.size → (∀ v ∈ values, v.Distinct) →
      ∀ others : List (Path × Json), others.Perm ((plan.leaves.map Leaf.path).zip values) →
        ((plan.write values d).stopped = none ↔ (Path.setAll others d).stopped = none) ∧
        ((plan.write values d).stopped = none →
          (plan.write values d).document.same (Path.setAll others d).document = true) := by
  have general (writes others : List (Path × Json)) (apart : writes.Pairwise fun w u => Path.Apart w.1 u.1)
      (values : ∀ w ∈ writes, w.2.Distinct) (order : others.Perm writes) :=
    And.intro (Path.setAll_stopped_of_perm (d := d) order apart)
      (Path.same_setAll_of_perm order apart distinct values)
  refine ⟨general, ?_⟩
  intro x authored n plan schema compiled values arity each others order
  rw [Plan.write_of_length arity]
  refine general _ others (Plan.writes_apart (Compiler.paths_apart schema compiled) arity) ?_ order
  exact fun w member => each w.2 (List.of_mem_zip member).2

/-- The note is made by whichever of its two writes comes first, so its members change places. -/
theorem writes_in_any_order_invoice :
    let d : Json := .object [("buyer", .null), ("due", .string "May")]
    let writes : List (Path × Json) := [(["note", "by"], .string "Eve"), (["paid"], .null), (["note", "on"], .bool true)]
    let others : List (Path × Json) := [(["note", "on"], .bool true), (["note", "by"], .string "Eve"), (["paid"], .null)]
    let left : Json :=
      .object
        [("buyer", .null), ("due", .string "May"), ("note", .object [("by", .string "Eve"), ("on", .bool true)]),
          ("paid", .null)]
    let leftToo : Json :=
      .object
        [("buyer", .null), ("due", .string "May"), ("note", .object [("on", .bool true), ("by", .string "Eve")]),
          ("paid", .null)]
    let values : List Json := [.number (.int 7), .string "Ann", .array [], .bool true]
    d.Distinct ∧ writes.Pairwise (fun w u => ¬ w.1 <+: u.1 ∧ ¬ u.1 <+: w.1) ∧ (∀ w ∈ writes, w.2.Distinct) ∧
      others.Perm writes ∧ Path.setAll writes d = ⟨left, none⟩ ∧ Path.setAll others d = ⟨leftToo, none⟩ ∧
      left.same leftToo = true ∧
      Prepared.invoice.Distinct ∧ Compiler.compile ⟨id, 2⟩ Prepared.invoice none = .ok Plan.invoice ∧
      (Plan.invoice.write values d).document.same
        (Path.setAll ((Plan.invoice.leaves.map Leaf.path).zip values).reverse d).document = true := by
  intro d writes others left leftToo values
  have distinct : d.Distinct := by decide +zetaReduce
  have apart : writes.Pairwise fun w u => ¬ w.1 <+: u.1 ∧ ¬ u.1 <+: w.1 := by decide +zetaReduce
  have each : ∀ w ∈ writes, w.2.Distinct := by decide +zetaReduce
  have order : others.Perm writes := (List.perm_append_singleton _ [_, _]).symm
  have first : Path.setAll writes d = ⟨left, none⟩ := rfl
  have second : Path.setAll others d = ⟨leftToo, none⟩ := rfl
  obtain ⟨any, plans⟩ := writes_in_any_order distinct
  have equal := (any writes others apart each order).2 (by rw [first])
  rw [first, second] at equal
  have written := plans _ _ _ _ Prepared.distinct_invoice Compiler.compile_invoice values rfl
    (by decide +zetaReduce) _ (List.reverse_perm _)
  exact ⟨distinct, apart, each, order, first, second, equal, Prepared.distinct_invoice, Compiler.compile_invoice,
    written.2 rfl⟩

end LeafPlan
