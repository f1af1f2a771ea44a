import LeafPlan.Proofs.Plan.Preorder

/-!
# The leaves of a plan

The leaves of a schema are the nodes where paths end. Their paths part pairwise, and where two of them
part the first one's name is declared earlier. `compile_leaves_reached` says so of a compiled plan.
-/

namespace LeafPlan

namespace Prepared

def isList : Prepared → Bool
  | .list _ _ => true
  | _ => false

/-- The nodes of a schema are what walks along paths reach. -/
theorem mem_preorder_iff {x : Prepared} (distinct : x.Distinct) {p : Path} {y : Prepared} :
    (p, y) ∈ x.preorder ↔ Path.find? p x = some y := by
  induction x using Prepared.induction generalizing p with
  | object props ih =>
    obtain ⟨unique, below⟩ := distinct_object.mp distinct
    rw [preorder_object, List.mem_cons, List.mem_flatMap]
    cases p with
    | nil =>
      constructor
      · rintro (here | ⟨q, -, inside⟩)
        · exact congrArg some (Prod.mk.inj here).2.symm
        · obtain ⟨s, -, same⟩ := List.mem_map.mp inside
          cases same
      · intro found
        rw [Option.some.inj found]
        exact Or.inl rfl
    | cons k p =>
      rw [find?_object]
      constructor
      · rintro (here | ⟨⟨k, x⟩, member, inside⟩)
        · cases here
        · obtain ⟨⟨q, z⟩, node, same⟩ := List.mem_map.mp inside
          obtain ⟨path, rfl⟩ := Prod.mk.inj same
          obtain ⟨rfl, rfl⟩ := List.cons.inj path
          rw [(Members.find?_eq_some_iff unique).mpr member]
          exact (ih _ member (below _ member)).mp node
      · intro found
        obtain ⟨x, child, found⟩ := Option.bind_eq_some_iff.mp found
        have member := Members.mem_of_find? child
        have inside := (ih _ member (below _ member)).mpr found
        exact Or.inr ⟨(k, x), member, List.mem_map.mpr ⟨(p, y), inside, rfl⟩⟩
  | _ =>
    rw [preorder_of_isLeaf rfl, List.mem_singleton, Prod.mk.injEq]
    cases p with
    | nil =>
      constructor
      · rintro ⟨-, rfl⟩
        rfl
      · exact fun found => ⟨rfl, (Option.some.inj found).symm⟩
    | cons k p =>
      rw [find?_cons_of_isLeaf rfl]
      simp

theorem mem_leaves_iff {x : Prepared} (distinct : x.Distinct) {p : Path} {y : Prepared} :
    (p, y) ∈ x.leaves ↔ Path.find? p x = some y ∧ y.isLeaf = true := by
  rw [leaves, List.mem_filter, mem_preorder_iff distinct]

/-! ### Where paths part -/

/-- The paths part in an object of the schema that declares the first one's name earlier. -/
def DeclaredBefore (x : Prepared) (p q : Path) : Prop :=
  ∃ (r s t : Path) (k j : String) (props : List (String × Prepared)),
    p = r ++ k :: s ∧ q = r ++ j :: t ∧ k ≠ j ∧ Path.find? r x = some (.object props) ∧
      [k, j].Sublist (Members.keys props)

theorem DeclaredBefore.apart {x : Prepared} {p q : Path} (before : x.DeclaredBefore p q) : Path.Apart p q := by
  obtain ⟨r, s, t, k, j, -, rfl, rfl, other, -⟩ := before
  constructor
  · rw [List.prefix_append_right_inj, List.cons_prefix_cons]
    exact fun same => other same.1
  · rw [List.prefix_append_right_inj, List.cons_prefix_cons]
    exact fun same => other same.1.symm

theorem DeclaredBefore.below {x : Prepared} {props : List (String × Prepared)} {k : String} {p q : Path}
    (child : Members.find? k props = some x) (before : x.DeclaredBefore p q) :
    (Prepared.object props).DeclaredBefore (k :: p) (k :: q) := by
  obtain ⟨r, s, t, l, j, inner, rfl, rfl, other, found, order⟩ := before
  refine ⟨k :: r, s, t, l, j, inner, rfl, rfl, other, ?_, order⟩
  rw [find?_object, child]
  exact found

/-- A node stands in front of the nodes below it, and in front of what is declared later. -/
theorem preorder_pairwise {x : Prepared} (distinct : x.Distinct) :
    x.preorder.Pairwise fun s t => (s.1 <+: t.1 ∧ s.1 ≠ t.1) ∨ x.DeclaredBefore s.1 t.1 := by
  induction x using Prepared.induction with
  | object props ih =>
    obtain ⟨unique, below⟩ := distinct_object.mp distinct
    rw [preorder_object, List.pairwise_cons, List.pairwise_flatMap]
    -- Two nodes below one property meet or part further down; those of two properties part here.
    refine ⟨fun t inside => Or.inl ⟨List.nil_prefix, ?_⟩, ?_, ?_⟩
    · obtain ⟨q, -, inside⟩ := List.mem_flatMap.mp inside
      obtain ⟨s, -, rfl⟩ := List.mem_map.mp inside
      exact (List.cons_ne_nil q.1 s.1).symm
    · rintro ⟨k, x⟩ member
      have child := (Members.find?_eq_some_iff unique).mpr member
      refine List.pairwise_map.mpr ((ih _ member (below _ member)).imp ?_)
      rintro s t (⟨above, other⟩ | before)
      · exact Or.inl ⟨List.cons_prefix_cons.mpr ⟨rfl, above⟩, fun same => other (List.cons.inj same).2⟩
      · exact Or.inr (before.below child)
    · rw [List.pairwise_iff_forall_sublist]
      rintro ⟨k, x⟩ ⟨j, y⟩ order s first t second
      obtain ⟨⟨p, z⟩, -, rfl⟩ := List.mem_map.mp first
      obtain ⟨⟨q, w⟩, -, rfl⟩ := List.mem_map.mp second
      have declared : [k, j].Sublist (Members.keys props) := order.map Prod.fst
      have other : k ≠ j := by
        simpa using declared.nodup unique
      exact Or.inr ⟨[], p, q, k, j, props, rfl, rfl, other, rfl, declared⟩
  | _ =>
    rw [preorder_of_isLeaf rfl]
    exact List.pairwise_singleton _ _

theorem not_prefix_of_isLeaf {x y z : Prepared} {p q : Path} (found : Path.find? p x = some y)
    (leaf : y.isLeaf = true) (longer : Path.find? q x = some z) : ¬ (p <+: q ∧ p ≠ q) := by
  rintro ⟨⟨r, rfl⟩, other⟩
  rw [Path.find?_append, found, Option.bind_some] at longer
  cases r with
  | nil => exact other (List.append_nil p).symm
  | cons k r =>
    rw [find?_cons_of_isLeaf leaf] at longer
    cases longer

theorem leaves_pairwise {x : Prepared} (distinct : x.Distinct) :
    x.leaves.Pairwise fun s t => x.DeclaredBefore s.1 t.1 := by
  refine ((preorder_pairwise distinct).filter _).imp_of_mem ?_
  intro s t first second order
  obtain ⟨found, leaf⟩ := (mem_leaves_iff distinct).mp first
  obtain ⟨later, -⟩ := (mem_leaves_iff distinct).mp second
  exact order.resolve_left (not_prefix_of_isLeaf found leaf later)

end Prepared

namespace Compiler

variable {c : Compiler} {authored : Option Authored} {x : Prepared} {plan : Plan}

theorem leaf?_of_sound {s : Pending} (sound : c.fault? authored s = none) (leaf : s.2.isLeaf = true) :
    ∃ l, c.leaf? authored s = some l ∧ l.path = c.accessor s.1 ∧ l.kind.marker? = s.2.marker? ∧
      l.kind.isList = s.2.isList := by
  obtain ⟨path, y⟩ := s
  cases y with
  | object props => cases leaf
  | scalar m => exact ⟨_, rfl, rfl, rfl, rfl⟩
  | list items carried =>
    cases found : method? authored (c.accessor path) carried with
    | some m => exact ⟨_, by rw [leaf?, found]; rfl, rfl, rfl, rfl⟩
    | none =>
      simp only [fault?, found, Option.isNone_none] at sound
      split at sound <;> cases sound

theorem leaf?_of_not_isLeaf {s : Pending} (inner : s.2.isLeaf = false) : c.leaf? authored s = none := by
  obtain ⟨path, y⟩ := s
  cases y with
  | object props => rfl
  | _ => cases inner

theorem outline_leaves (compiled : c.compile x authored = .ok plan) :
    plan.leaves.map (fun l => (l.path, l.kind.marker?, l.kind.isList)) =
      x.leaves.map fun s => (c.accessor s.1, s.2.marker?, s.2.isList) := by
  obtain ⟨sound, leaves⟩ := (compile_eq_ok_iff c authored).mp compiled
  rw [leaves, Prepared.leaves]
  generalize x.preorder = nodes at sound ⊢
  induction nodes with
  | nil => rfl
  | cons s rest ih =>
    obtain ⟨here, sound⟩ := List.forall_mem_cons.mp sound
    cases leaf : s.2.isLeaf with
    | false =>
      rw [List.filterMap_cons_none (leaf?_of_not_isLeaf leaf), List.filter_cons_of_neg (by simp [leaf]), ih sound]
    | true =>
      obtain ⟨l, becomes, path, marker, isList⟩ := leaf?_of_sound here leaf
      rw [List.filterMap_cons_some becomes, List.filter_cons, if_pos leaf, List.map_cons, List.map_cons, ih sound,
        path, marker, isList]

theorem map_path_leaves {n : Nat} (compiled : Compiler.compile ⟨id, n⟩ x authored = .ok plan) :
    plan.leaves.map Leaf.path = x.leaves.map Prod.fst := by
  have outline := congrArg (List.map Prod.fst) (outline_leaves compiled)
  rw [List.map_map, List.map_map] at outline
  exact outline

theorem paths_declared {n : Nat} (distinct : x.Distinct)
    (compiled : Compiler.compile ⟨id, n⟩ x authored = .ok plan) :
    plan.leaves.Pairwise fun l m => x.DeclaredBefore l.path m.path := by
  have ordered := List.pairwise_map.mpr (Prepared.leaves_pairwise distinct)
  rw [← map_path_leaves compiled] at ordered
  exact List.pairwise_map.mp ordered

theorem paths_apart {n : Nat} (distinct : x.Distinct)
    (compiled : Compiler.compile ⟨id, n⟩ x authored = .ok plan) :
    plan.leaves.Pairwise fun l m => Path.Apart l.path m.path :=
  (paths_declared distinct compiled).imp fun before => before.apart

theorem filter_eq_singleton {leaves : List Leaf} (apart : leaves.Pairwise fun l m => Path.Apart l.path m.path)
    {l : Leaf} (member : l ∈ leaves) : leaves.filter (fun m => m.path = l.path) = [l] := by
  induction leaves with
  | nil => cases member
  | cons first rest ih =>
    obtain ⟨parts, apart⟩ := List.pairwise_cons.mp apart
    rcases List.mem_cons.mp member with rfl | later
    · have noneLater : rest.filter (fun m => m.path = l.path) = [] := by
        refine List.filter_eq_nil_iff.mpr fun m present same => (parts m present).1 ?_
        exact of_decide_eq_true same ▸ List.prefix_refl _
      rw [List.filter_cons, if_pos (decide_eq_true rfl), noneLater]
    · have other : first.path ≠ l.path := by
        intro same
        exact (parts l later).1 (same ▸ List.prefix_refl _)
      rw [List.filter_cons_of_neg (by simpa using other), ih apart later]

/-- The leaves of a plan are what paths reach in its schema: one for each path to a scalar or a list, with
its marker. No path leads through another's end, and the order is the order of declaration. -/
theorem compile_leaves_reached {n : Nat} (distinct : x.Distinct)
    (compiled : Compiler.compile ⟨id, n⟩ x authored = .ok plan) :
    (∀ p : Path, (∃ l ∈ plan.leaves, l.path = p) ↔ ∃ y, Path.find? p x = some y ∧ y.isLeaf = true) ∧
    (∀ (p : Path) (y : Prepared), Path.find? p x = some y → y.isLeaf = true →
      ∃ l, plan.leaves.filter (fun m => m.path = p) = [l] ∧ l.kind.marker? = y.marker? ∧
        l.kind.isList = y.isList) ∧
    (plan.leaves.Pairwise fun l m => ¬ l.path <+: m.path ∧ ¬ m.path <+: l.path) ∧
    plan.leaves.Pairwise fun l m => x.DeclaredBefore l.path m.path := by
  have outline := outline_leaves compiled
  have reached (p : Path) (y : Prepared) (found : Path.find? p x = some y) (leaf : y.isLeaf = true) :
      ∃ l ∈ plan.leaves, l.path = p ∧ l.kind.marker? = y.marker? ∧ l.kind.isList = y.isList := by
    have member := (Prepared.mem_leaves_iff distinct).mpr ⟨found, leaf⟩
    have shown : (p, y.marker?, y.isList) ∈ plan.leaves.map fun l => (l.path, l.kind.marker?, l.kind.isList) := by
      rw [outline]
      exact List.mem_map.mpr ⟨(p, y), member, rfl⟩
    obtain ⟨l, present, same⟩ := List.mem_map.mp shown
    obtain ⟨path, kind⟩ := Prod.mk.inj same
    obtain ⟨marker, isList⟩ := Prod.mk.inj kind
    exact ⟨l, present, path, marker, isList⟩
  refine ⟨fun p => ⟨?_, ?_⟩, ?_, paths_apart distinct compiled, paths_declared distinct compiled⟩
  · rintro ⟨l, present, rfl⟩
    have shown : l.path ∈ x.leaves.map Prod.fst := map_path_leaves compiled ▸ List.mem_map_of_mem present
    obtain ⟨⟨p, y⟩, member, same⟩ := List.mem_map.mp shown
    obtain rfl : p = l.path := same
    exact ⟨y, (Prepared.mem_leaves_iff distinct).mp member⟩
  · rintro ⟨y, found, leaf⟩
    obtain ⟨l, present, path, -⟩ := reached p y found leaf
    exact ⟨l, present, path⟩
  · intro p y found leaf
    obtain ⟨l, present, rfl, kind⟩ := reached p y found leaf
    exact ⟨l, filter_eq_singleton (paths_apart distinct compiled) present, kind⟩

end Compiler

/-! ### A schema with an object inside, an empty object and a list -/

def Prepared.invoice : Prepared :=
  .object
    [("id", .scalar .number),
      ("buyer",
        .object
          [("name", .scalar .string), ("notes", .object []),
            ("tags", .list [.scalar .string] (some Builtin.join.method))]),
      ("paid", .scalar .boolean)]

def Plan.invoice : Plan :=
  ⟨[⟨some "id", ["id"], .scalar .number⟩, ⟨some "name", ["buyer", "name"], .scalar .string⟩,
    ⟨some "tags", ["buyer", "tags"], .list Builtin.join.method⟩, ⟨some "paid", ["paid"], .scalar .boolean⟩]⟩

theorem Prepared.distinct_invoice : Prepared.invoice.Distinct := by decide

theorem Compiler.compile_invoice : Compiler.compile ⟨id, 2⟩ Prepared.invoice none = .ok Plan.invoice := by
  rw [compile_eq]
  rfl

/-- The buyer's leaves stand between the invoice's own, and the empty object has none. -/
theorem Compiler.compile_leaves_reached_invoice :
    Prepared.invoice.Distinct ∧ Compiler.compile ⟨id, 2⟩ Prepared.invoice none = .ok Plan.invoice ∧
      (∃ l ∈ Plan.invoice.leaves, l.path = ["buyer", "tags"]) ∧
      (¬ ∃ l ∈ Plan.invoice.leaves, l.path = ["buyer", "notes"]) ∧
      Plan.invoice.leaves.Pairwise fun l m => Prepared.invoice.DeclaredBefore l.path m.path := by
  obtain ⟨reached, -, -, ordered⟩ := compile_leaves_reached Prepared.distinct_invoice compile_invoice
  refine ⟨Prepared.distinct_invoice, compile_invoice, (reached _).mpr ⟨_, rfl, rfl⟩, ?_, ordered⟩
  intro present
  obtain ⟨y, found, leaf⟩ := (reached _).mp present
  obtain rfl := Option.some.inj found
  cases leaf

end LeafPlan
