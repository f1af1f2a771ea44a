import LeafPlan.Proofs.Plan.Leaves
import LeafPlan.Proofs.Schema.Prepare
import LeafPlan.Proofs.Schema.RoundTrip

/-!
# Where the methods of a plan come from

A plan has no methods but those of its schemas: `Compiler.method_of_compile` finds each one at its leaf's path, in the
prepared schema or in the authored one. A text names builtin methods only, and a prepared schema's text names none.
-/

namespace LeafPlan

/-- If it is a list's kind, its method is builtin. -/
def LeafKind.IsBuiltin (k : LeafKind) : Prop := ∀ m, k = .list m → ∃ b : Builtin, m = b.method

/-! ### Methods of loaded schemas -/

theorem Written.Prepares.bare {w : Written} {x : Prepared} (prepares : w.Prepares x) : x.EachList (· = none) := by
  refine Prepares.induction (P := fun _ x => x.EachList (· = none)) ?scalar ?list ?object prepares
  case scalar => exact fun m => trivial
  case list =>
    intro items xs each
    refine ⟨rfl, Prepared.eachListItems_iff.mpr fun x member => ?_⟩
    obtain ⟨w, -, bare⟩ := forall₂_right each x member
    exact bare
  case object =>
    intro members pairs props each settled
    refine Prepared.eachListProps_iff.mpr fun q member => ?_
    obtain ⟨m, -, bare⟩ := Members.matches_right each q (settled.mem member)
    exact bare

theorem Written.Authors.builtin {w : Written} {o : Authored} (authors : w.Authors o) :
    o.prepare.EachList fun method => ∃ b : Builtin, method = some b.method := by
  refine Authors.induction (P := fun _ o => o.prepare.EachList fun method => ∃ b : Builtin, method = some b.method)
    ?sentinel ?name ?list ?object authors
  case sentinel => exact fun m => trivial
  case name => exact fun m => trivial
  case list =>
    intro b items xs each
    refine ⟨⟨b, rfl⟩, ?_⟩
    rw [Authored.prepareItems_eq, Prepared.eachListItems_iff, List.forall_mem_map]
    intro o member
    obtain ⟨w, -, builtin⟩ := forall₂_right each o member
    exact builtin
  case object =>
    intro members pairs props each settled
    rw [Authored.prepare, Prepared.EachList, Authored.prepareProps_eq, Prepared.eachListProps_iff, List.forall_mem_map]
    intro q member
    obtain ⟨m, -, builtin⟩ := Members.matches_right each q (settled.mem member)
    exact builtin

theorem Prepared.bare_of_load {t : Text} {x : Prepared} (loaded : load t = .ok x) : x.EachList (· = none) := by
  obtain ⟨s, w, rest, -, -, -, prepares⟩ := load_eq_ok_iff.mp loaded
  exact prepares.bare

theorem Authored.builtin_of_load {t : Text} {o : Authored} (loaded : load t = .ok o) :
    o.prepare.EachList fun method => ∃ b : Builtin, method = some b.method := by
  obtain ⟨s, w, rest, -, -, -, authors⟩ := load_eq_ok_iff.mp loaded
  exact authors.builtin

theorem Prepared.EachList.carried {P : Option Method → Prop} {x : Prepared} (each : x.EachList P) {p : Path}
    {items : List Prepared} {method : Option Method} (found : Path.find? p x = some (.list items method)) :
    P method := by
  induction p generalizing x with
  | nil =>
    obtain rfl := Option.some.inj found
    exact each.1
  | cons k p ih =>
    cases x with
    | object props =>
      rw [find?_object] at found
      obtain ⟨y, child, below⟩ := Option.bind_eq_some_iff.mp found
      exact ih (eachListProps_iff.mp each _ (Members.mem_of_find? child)) below
    | _ =>
      rw [find?_cons_of_isLeaf rfl] at found
      cases found

/-! ### Methods of leaves -/

namespace Compiler

variable {c : Compiler} {authored : Option Authored} {x : Prepared} {plan : Plan} {s : Pending} {l : Leaf} {m : Method}

theorem eq_leaf_of_leaf? (becomes : c.leaf? authored s = some l) : l = c.leaf s.1 l.kind := by
  obtain ⟨path, y⟩ := s
  cases y with
  | scalar n => exact (Option.some.inj becomes) ▸ rfl
  | list items carried =>
    obtain ⟨n, -, rfl⟩ := Option.map_eq_some_iff.mp becomes
    rfl
  | object props => cases becomes

theorem method?_of_leaf? (becomes : c.leaf? authored s = some l) (kind : l.kind = .list m) :
    ∃ items carried, s.2 = .list items carried ∧ method? authored (c.accessor s.1) carried = some m := by
  obtain ⟨path, y⟩ := s
  cases y with
  | scalar n =>
    obtain rfl := Option.some.inj becomes
    cases kind
  | list items carried =>
    obtain ⟨n, found, rfl⟩ := Option.map_eq_some_iff.mp becomes
    obtain rfl := LeafKind.list.inj kind
    exact ⟨items, carried, rfl, found⟩
  | object props => cases becomes

theorem exists_node_of_compile (compiled : c.compile x authored = .ok plan) (member : l ∈ plan.leaves) :
    ∃ s ∈ x.preorder, c.leaf? authored s = some l := by
  rw [((compile_eq_ok_iff c authored).mp compiled).2] at member
  exact List.mem_filterMap.mp member

/-- A leaf's name is the last one of its path, and the root has none. -/
theorem name_of_compile {n : Nat} (compiled : Compiler.compile ⟨id, n⟩ x authored = .ok plan)
    (member : l ∈ plan.leaves) : l.name = l.path.getLast? := by
  obtain ⟨s, -, becomes⟩ := exists_node_of_compile compiled member
  rw [eq_leaf_of_leaf? becomes]
  rfl

/-- Every method of a plan stands in the prepared schema or in the authored one, at its leaf's path. -/
theorem method_of_compile {n : Nat} (distinct : x.Distinct)
    (compiled : Compiler.compile ⟨id, n⟩ x authored = .ok plan) (member : l ∈ plan.leaves) (kind : l.kind = .list m) :
    (∃ items, Path.find? l.path x = some (.list items (some m))) ∨
      ∃ o, authored = some o ∧ ∃ items, Path.find? l.path o = some (.list m items) := by
  obtain ⟨⟨path, y⟩, node, becomes⟩ := exists_node_of_compile compiled member
  have place : l.path = path := congrArg Leaf.path (eq_leaf_of_leaf? becomes)
  have reached := (Prepared.mem_preorder_iff distinct).mp node
  obtain ⟨items, carried, rfl, found⟩ := method?_of_leaf? becomes kind
  rw [place]
  rcases method?_eq_some_iff.mp found with rfl | ⟨-, recovered⟩
  · exact Or.inl ⟨items, reached⟩
  · exact Or.inr recovered

/-- The plan of schemas whose lists carry builtin methods, if any, has no other methods. -/
theorem isBuiltin_of_compile {n : Nat} {o : Authored} (distinct : x.Distinct)
    (carried : ∀ p items m, Path.find? p x = some (.list items (some m)) → ∃ b : Builtin, m = b.method)
    (named : o.prepare.EachList fun method => ∃ b : Builtin, method = some b.method)
    (compiled : Compiler.compile ⟨id, n⟩ x (some o) = .ok plan) (member : l ∈ plan.leaves) : l.kind.IsBuiltin := by
  intro m kind
  rcases method_of_compile distinct compiled member kind with ⟨items, found⟩ | ⟨u, same, items, found⟩
  · exact carried l.path items m found
  · obtain rfl := Option.some.inj same
    have prepared : Path.find? l.path o.prepare = some (Authored.list m items).prepare := by
      rw [Authored.find?_prepare, found, Option.map_some]
    obtain ⟨b, method⟩ := named.carried prepared
    exact ⟨b, Option.some.inj method⟩

end Compiler

end LeafPlan
