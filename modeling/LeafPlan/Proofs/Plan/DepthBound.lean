import LeafPlan.Proofs.Plan.Leaves

/-!
# What the bound on the depth does

The bound only cuts: `depth_bound_only_cuts` shows that raising it changes no answer but the one that the
bound was exceeded, that this answer names the first node one step too deep, and when there is a plan.
-/

namespace LeafPlan

namespace Prepared

variable {x : Prepared} {before after : List Pending}

theorem order_of_split (distinct : x.Distinct) {s : Pending} (split : x.preorder = before ++ s :: after) :
    ∀ t ∈ after, (s.1 <+: t.1 ∧ s.1 ≠ t.1) ∨ x.DeclaredBefore s.1 t.1 := by
  have ordered := preorder_pairwise distinct
  rw [split, List.pairwise_append, List.pairwise_cons] at ordered
  exact ordered.2.1.1

/-- An object stands in front of its properties. -/
theorem parent_before (distinct : x.Distinct) {p : Path} {k : String} {y : Prepared}
    (split : x.preorder = before ++ (p ++ [k], y) :: after) : ∃ z, (p, z) ∈ before := by
  have member : (p ++ [k], y) ∈ x.preorder := by
    rw [split]
    exact List.mem_append_right _ List.mem_cons_self
  have found := (mem_preorder_iff distinct).mp member
  rw [Path.find?_append] at found
  obtain ⟨z, parent, -⟩ := Option.bind_eq_some_iff.mp found
  have longer : p.length < (p ++ [k]).length := by
    rw [List.length_append, List.length_singleton]
    exact Nat.lt_succ_self _
  have present := (mem_preorder_iff distinct).mpr parent
  rw [split, List.mem_append, List.mem_cons] at present
  rcases present with there | here | later
  · exact ⟨z, there⟩
  · exact absurd (congrArg List.length (Prod.mk.inj here).1) (Nat.ne_of_lt longer)
  · rcases order_of_split distinct split _ later with ⟨inside, -⟩ | declared
    · exact absurd inside.length_le (Nat.not_le_of_lt longer)
    · exact (declared.apart.2 (List.prefix_append p [k])).elim

/-- The first node that is too deep is one step too deep, and stands first in the order of declaration
among the nodes of its depth. -/
theorem first_too_deep (distinct : x.Distinct) {p : Path} {y : Prepared} {m : Nat}
    (split : x.preorder = before ++ (p, y) :: after) (shallow : ∀ s ∈ before, s.1.length ≤ m)
    (deep : m < p.length) :
    p.length = m + 1 ∧
      ∀ q z, Path.find? q x = some z → q.length = m + 1 → q ≠ p → x.DeclaredBefore p q := by
  have depth : p.length = m + 1 := by
    -- the parent stands in front of the node, so it is not too deep
    rcases List.eq_nil_or_concat p with rfl | ⟨parent, k, same⟩
    · exact (Nat.not_lt_zero m deep).elim
    · rw [List.concat_eq_append] at same
      subst same
      obtain ⟨z, above⟩ := parent_before distinct split
      have bound := shallow _ above
      rw [List.length_append, List.length_singleton] at deep ⊢
      dsimp only at bound
      omega
  refine ⟨depth, fun q z found same other => ?_⟩
  have present := (mem_preorder_iff distinct).mpr found
  -- a node as deep stands behind the first one, and not below it
  rw [split, List.mem_append, List.mem_cons] at present
  rcases present with there | here | later
  · have bound := shallow _ there
    dsimp only at bound
    omega
  · exact (other (Prod.mk.inj here).1).elim
  · refine (order_of_split distinct split _ later).resolve_left ?_
    rintro ⟨above, differs⟩
    exact differs (above.eq_of_length (depth.trans same.symm))

end Prepared

namespace Compiler

variable {accessor : Path → Path} {authored : Option Authored} {m n : Nat}

theorem fault?_of_le (le : m ≤ n) {s : Pending} (within : s.1.length ≤ m) :
    fault? ⟨accessor, n⟩ authored s = fault? ⟨accessor, m⟩ authored s := by
  have shallow : ¬ m < s.1.length := Nat.not_lt_of_le within
  have shallower : ¬ n < s.1.length := Nat.not_lt_of_le (within.trans le)
  exact (if_neg shallower).trans (if_neg shallow).symm

theorem findSome?_fault_of_le (le : m ≤ n) {nodes : List Pending}
    (within : ∀ path limit, nodes.findSome? (fault? ⟨accessor, m⟩ authored) ≠ some (.depthExceeded path limit)) :
    nodes.findSome? (fault? ⟨accessor, n⟩ authored) = nodes.findSome? (fault? ⟨accessor, m⟩ authored) := by
  induction nodes with
  | nil => rfl
  | cons s rest ih =>
    have shallow : s.1.length ≤ m := by
      refine Nat.le_of_not_lt fun deep => within s.1 m ?_
      rw [List.findSome?_cons, fault?_eq_depthExceeded_iff.mpr ⟨rfl, rfl, deep⟩]
    rw [List.findSome?_cons] at within
    rw [List.findSome?_cons, List.findSome?_cons, fault?_of_le le shallow]
    cases fault : fault? ⟨accessor, m⟩ authored s with
    | some e => rfl
    | none =>
      rw [fault] at within
      exact ih within

theorem compile_of_le (le : m ≤ n) {x : Prepared}
    (within : ∀ path limit, Compiler.compile ⟨accessor, m⟩ x authored ≠ .error (.depthExceeded path limit)) :
    Compiler.compile ⟨accessor, n⟩ x authored = Compiler.compile ⟨accessor, m⟩ x authored := by
  have same := findSome?_fault_of_le le fun path limit failed =>
    within path limit ((compile_eq_error_iff _ _).mpr failed)
  have leaves : leaf? ⟨accessor, n⟩ authored = leaf? ⟨accessor, m⟩ authored := by
    funext ⟨path, y⟩
    cases y <;> rfl
  rw [compile_eq, compile_eq, outcome, outcome, same, leaves]

theorem split_of_depthExceeded {x : Prepared} {path : Path} {limit : Nat}
    (exceeded : Compiler.compile ⟨accessor, m⟩ x authored = .error (.depthExceeded path limit)) :
    limit = m ∧ m < path.length ∧ ∃ before y after, x.preorder = before ++ (path, y) :: after ∧
      ∀ s ∈ before, s.1.length ≤ m := by
  have first := (compile_eq_error_iff _ _).mp exceeded
  obtain ⟨before, ⟨own, y⟩, after, split, fault, sound⟩ := List.findSome?_eq_some_iff.mp first
  obtain ⟨rfl, rfl, deep⟩ := fault?_eq_depthExceeded_iff.mp fault
  refine ⟨rfl, deep, before, y, after, split, fun s member => ?_⟩
  exact (fault?_eq_none_iff.mp (sound s member)).1

theorem compile_succeeds_iff {x : Prepared} (distinct : x.Distinct) :
    (∃ plan, Compiler.compile ⟨accessor, m⟩ x authored = .ok plan) ↔
      (∀ q y, Path.find? q x = some y → q.length ≤ m) ∧
      ∀ q items carried, Path.find? q x = some (.list items carried) →
        (method? authored (accessor q) carried).isSome = true := by
  simp only [compile_succeeds_iff_sound, fault?_eq_none_iff, ← Prepared.mem_preorder_iff distinct]
  constructor
  · intro each
    exact ⟨fun q y member => (each _ member).1, fun q items carried member => (each _ member).2 items carried rfl⟩
  · rintro ⟨shallow, methods⟩ ⟨q, y⟩ member
    refine ⟨shallow q y member, ?_⟩
    rintro items carried rfl
    exact methods q items carried member

/-- Where a compilation does not exceed the bound, it comes to the same under any larger one. Where it does,
the path it names leads to the first node in order of declaration that lies one name too deep, and its message
shows the names of this path with dots between them. There is a plan
if and only if no node outside lists lies deeper than the bound and every list has a method, its own or an
authored one where the accessor leads. -/
theorem depth_bound_only_cuts {x : Prepared} (distinct : x.Distinct) (authored : Option Authored)
    (accessor : Path → Path) (m : Nat) :
    (∀ n, m ≤ n →
      (∀ path limit, Compiler.compile ⟨accessor, m⟩ x authored ≠ .error (.depthExceeded path limit)) →
      Compiler.compile ⟨accessor, n⟩ x authored = Compiler.compile ⟨accessor, m⟩ x authored) ∧
    (∀ path limit, Compiler.compile ⟨accessor, m⟩ x authored = .error (.depthExceeded path limit) →
      limit = m ∧ path.length = m + 1 ∧ (∃ y, Path.find? path x = some y) ∧
      (∀ q z, Path.find? q x = some z → q.length = m + 1 → q ≠ path → x.DeclaredBefore path q) ∧
      path.display = ".".intercalate path ∧
      (CompileError.depthExceeded path limit).message =
        s!"schema nesting exceeds {m} levels at `{path.display}`") ∧
    ((∃ plan, Compiler.compile ⟨accessor, m⟩ x authored = .ok plan) ↔
      (∀ q y, Path.find? q x = some y → q.length ≤ m) ∧
      ∀ q items carried, Path.find? q x = some (.list items carried) →
        carried.isSome = true ∨
          ∃ o, authored = some o ∧ ∃ method items, Path.find? (accessor q) o = some (.list method items)) := by
  refine ⟨fun n le within => compile_of_le le within, fun path limit exceeded => ?_, ?_⟩
  · obtain ⟨rfl, deep, before, y, after, split, shallow⟩ := split_of_depthExceeded exceeded
    have member : (path, y) ∈ x.preorder := by
      rw [split]
      exact List.mem_append_right _ List.mem_cons_self
    obtain ⟨depth, first⟩ := Prepared.first_too_deep distinct split shallow deep
    have named : path ≠ [] := List.ne_nil_of_length_eq_add_one depth
    exact ⟨rfl, depth, ⟨y, (Prepared.mem_preorder_iff distinct).mp member⟩, first, Path.display_of_ne_nil named,
      CompileError.message_depthExceeded path limit⟩
  · simp only [compile_succeeds_iff distinct, method?_isSome_iff]

/-- With the bound at one name the buyer's name is too deep, and with more than two nothing changes. -/
theorem depth_bound_only_cuts_invoice :
    Prepared.invoice.Distinct ∧
      Compiler.compile ⟨id, 1⟩ Prepared.invoice none = .error (.depthExceeded ["buyer", "name"] 1) ∧
      (CompileError.depthExceeded ["buyer", "name"] 1).message = "schema nesting exceeds 1 levels at `buyer.name`" ∧
      Prepared.invoice.DeclaredBefore ["buyer", "name"] ["buyer", "notes"] ∧
      Compiler.compile ⟨id, 2⟩ Prepared.invoice none = .ok Plan.invoice ∧
      Compiler.compile ⟨id, 9⟩ Prepared.invoice none = .ok Plan.invoice ∧
      ∀ q y, Path.find? q Prepared.invoice = some y → q.length ≤ 2 := by
  have exceeded : Compiler.compile ⟨id, 1⟩ Prepared.invoice none =
      .error (.depthExceeded ["buyer", "name"] 1) := by
    rw [compile_eq]
    rfl
  obtain ⟨-, first, -⟩ := depth_bound_only_cuts Prepared.distinct_invoice none id 1
  obtain ⟨-, -, -, before, shown, message⟩ := first _ _ exceeded
  have text : (CompileError.depthExceeded ["buyer", "name"] 1).message =
      "schema nesting exceeds 1 levels at `buyer.name`" := by
    rw [message, shown]
    rfl
  obtain ⟨raised, -, succeeds⟩ := depth_bound_only_cuts Prepared.distinct_invoice none id 2
  have same := raised 9 (by decide) fun path limit failed => by
    rw [compile_invoice] at failed
    cases failed
  refine ⟨Prepared.distinct_invoice, exceeded, text, before _ _ rfl rfl (by decide), compile_invoice,
    same.trans compile_invoice, (succeeds.mp ⟨_, compile_invoice⟩).1⟩

end Compiler

end LeafPlan
