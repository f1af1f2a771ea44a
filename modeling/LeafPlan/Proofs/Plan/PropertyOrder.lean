import LeafPlan.Proofs.Plan.Agreement
import LeafPlan.Proofs.Schema.Same

/-!
# The order of properties

Schemas that compare equal may declare their properties in different orders. `compile_of_same` shows that
the order of the properties decides the order of a plan's leaves and nothing else about it.
-/

namespace LeafPlan

namespace Prepared

theorem preorder_rearranged {x y : Prepared} (distinct : x.Distinct) (distinctToo : y.Distinct)
    (same : x.same y = true) :
    Rearranged (fun s t : Pending => s.1 = t.1 ∧ s.2.same t.2 = true) x.preorder y.preorder := by
  induction x using Prepared.induction generalizing y with
  | object ps ih =>
    cases y with
    | object qs =>
      obtain ⟨unique, below⟩ := distinct_object.mp distinct
      obtain ⟨-, belowToo⟩ := distinct_object.mp distinctToo
      rw [preorder_object, preorder_object]
      -- the properties trade places, and below each of them the nodes do
      refine .cons ⟨rfl, same⟩ (.flatMap ?_)
      refine (rearranged_of_same unique same).imp_of_mem ?_
      rintro _ member _ memberToo ⟨k, children⟩
      refine (ih _ member (below _ member) (belowToo _ memberToo) children).map ?_
      rintro s t ⟨paths, nodes⟩
      exact ⟨congrArg (k :: ·) paths, nodes⟩
    | _ => cases same
  | _ =>
    cases y with
    | object qs => cases same
    | _ => exact .cons ⟨rfl, same⟩ .nil

end Prepared

namespace Compiler

variable {authored other : Option Authored}

theorem authored_rel (distinct : ∀ o ∈ authored, o.Distinct) (distinctToo : ∀ o ∈ other, o.Distinct)
    (same : (authored == other) = true) (path : Path) :
    Option.Rel (fun m n : Method => (m == n) = true) (method? authored path none) (method? other path none) := by
  cases authored with
  | none =>
    cases other with
    | none => exact .none
    | some u => cases same
  | some o =>
    cases other with
    | none => cases same
    | some u =>
      have nodes := Authored.find?_of_same (distinct o rfl) (distinctToo u rfl) same path
      rw [method?, method?, Option.bind_some, Option.bind_some]
      generalize Path.find? path o = node at nodes ⊢
      generalize Path.find? path u = nodeToo at nodes ⊢
      cases nodes with
      | none => exact .none
      | some equal => exact Authored.method?_of_same equal

/-- Let two authored schemas compare equal. Then of two schemas that compare equal both have a plan or none has,
and the leaves of the one plan, put into another order, equal those of the other. One and the same schema has
equal plans, or the same error. -/
theorem compile_of_same (distinctAuthored : ∀ o ∈ authored, o.Distinct) (distinctOther : ∀ o ∈ other, o.Distinct)
    (sameAuthored : (authored == other) = true) (c : Compiler) :
    (∀ x y : Prepared, x.Distinct → y.Distinct → (x == y) = true →
      ((∃ plan, c.compile x authored = .ok plan) ↔ ∃ plan, c.compile y other = .ok plan) ∧
      ∀ plan planToo, c.compile x authored = .ok plan → c.compile y other = .ok planToo →
        ∃ leaves, leaves.Perm planToo.leaves ∧ (plan.leaves == leaves) = true) ∧
    ∀ x : Prepared,
      (∀ e, c.compile x authored = .error e ↔ c.compile x other = .error e) ∧
      ∀ plan, c.compile x authored = .ok plan →
        ∃ planToo, c.compile x other = .ok planToo ∧ (plan == planToo) = true := by
  have methods := authored_rel distinctAuthored distinctOther sameAuthored
  constructor
  · intro x y distinct distinctToo same
    have nodes : Rearranged (c.Agrees authored other fun l m => (l == m) = true) x.preorder y.preorder := by
      refine (Prepared.preorder_rearranged distinct distinctToo same).imp_of_mem ?_
      rintro ⟨path, x⟩ - ⟨pathToo, y⟩ - ⟨rfl, nodes⟩
      exact agrees_of_alike (Prepared.alike_of_same nodes) fun _ _ => methods _
    refine ⟨?_, fun plan planToo compiled compiledToo => ?_⟩
    · rw [compile_succeeds_iff_sound, compile_succeeds_iff_sound]
      exact nodes.forall_iff fun s t agrees => by rw [agrees.1]
    · rw [((compile_eq_ok_iff c authored).mp compiled).2, ((compile_eq_ok_iff c other).mp compiledToo).2]
      obtain ⟨leaves, each, order⟩ := nodes.filterMap fun s t agrees => agrees.2
      exact ⟨leaves, order, Leaf.beq_of_forall₂ each⟩
  · intro x
    have nodes : List.Forall₂ (c.Agrees authored other fun l m => (l == m) = true) x.preorder x.preorder :=
      List.forall₂_same.mpr fun s _ => agrees_of_alike (Prepared.alike_refl s.2) fun _ _ => methods _
    obtain ⟨errors, plans⟩ := compile_of_agrees nodes
    refine ⟨errors, fun plan compiled => ?_⟩
    obtain ⟨planToo, compiledToo, leaves⟩ := plans plan compiled
    exact ⟨planToo, compiledToo, Leaf.beq_of_forall₂ leaves⟩

/-- The second schemas declare the list first, so its leaf comes first, or its path is the one too deep. -/
theorem compile_of_same_note :
    let join := Builtin.join.method
    let x : Prepared := .object [("id", .scalar .number), ("tags", .list [] none)]
    let y : Prepared := .object [("tags", .list [] none), ("id", .scalar .number)]
    let o : Authored := .object [("id", .scalar .number), ("tags", .list join [])]
    let u : Authored := .object [("tags", .list join []), ("id", .scalar .number)]
    let number : Leaf := ⟨some "id", ["id"], .scalar .number⟩
    let tags : Leaf := ⟨some "tags", ["tags"], .list join⟩
    o.Distinct ∧ u.Distinct ∧ (some o == some u) = true ∧ x.Distinct ∧ y.Distinct ∧ (x == y) = true ∧
      Compiler.compile ⟨id, 1⟩ x (some o) = .ok ⟨[number, tags]⟩ ∧
      Compiler.compile ⟨id, 1⟩ y (some u) = .ok ⟨[tags, number]⟩ ∧
      (∃ leaves, leaves.Perm [tags, number] ∧ ([number, tags] == leaves) = true) ∧
      Compiler.compile ⟨id, 0⟩ x (some u) = .error (.depthExceeded ["id"] 0) ∧
      Compiler.compile ⟨id, 0⟩ y (some u) = .error (.depthExceeded ["tags"] 0) := by
  intro join x y o u number tags
  have distinctO : o.Distinct := by decide +zetaReduce
  have distinctU : u.Distinct := by decide +zetaReduce
  have distinctX : x.Distinct := by decide +zetaReduce
  have distinctY : y.Distinct := by decide +zetaReduce
  have compiledX : Compiler.compile ⟨id, 1⟩ x (some o) = .ok ⟨[number, tags]⟩ := by
    rw [compile_eq]
    rfl
  have compiledY : Compiler.compile ⟨id, 1⟩ y (some u) = .ok ⟨[tags, number]⟩ := by
    rw [compile_eq]
    rfl
  have exceeded : Compiler.compile ⟨id, 0⟩ x (some o) = .error (.depthExceeded ["id"] 0) := by
    rw [compile_eq]
    rfl
  have exceededToo : Compiler.compile ⟨id, 0⟩ y (some u) = .error (.depthExceeded ["tags"] 0) := by
    rw [compile_eq]
    rfl
  have onlyO : ∀ z ∈ some o, z.Distinct := fun _ is => Option.some.inj is ▸ distinctO
  have onlyU : ∀ z ∈ some u, z.Distinct := fun _ is => Option.some.inj is ▸ distinctU
  have law := compile_of_same onlyO onlyU rfl
  obtain ⟨-, permuted⟩ := (law ⟨id, 1⟩).1 x y distinctX distinctY rfl
  exact ⟨distinctO, distinctU, rfl, distinctX, distinctY, rfl, compiledX, compiledY,
    permuted _ _ compiledX compiledY, (((law ⟨id, 0⟩).2 x).1 _).mp exceeded, exceededToo⟩

end Compiler

end LeafPlan
