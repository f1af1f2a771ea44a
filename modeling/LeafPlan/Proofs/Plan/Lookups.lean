import LeafPlan.Proofs.Plan.Agreement
import LeafPlan.Proofs.Plan.Leaves
import LeafPlan.Proofs.Rearranged

/-!
# What a compiler reads of an authored schema

A compiler looks up one method for each list that carries none, and nothing else. `compile_reads_lookups`
shows that authored schemas which agree on those methods lead to the same answer, whatever else they say,
and that the items of lists never matter.
-/

namespace LeafPlan

namespace Prepared

/-- The second schema is the first one with other items in its lists. -/
inductive Reitemed : Prepared → Prepared → Prop
  | scalar (m : Marker) : Reitemed (.scalar m) (.scalar m)
  | list (items others : List Prepared) (carried : Option Method) :
    Reitemed (.list items carried) (.list others carried)
  | object {props others : List (String × Prepared)} (each : List.Forall₂ (Members.Matches Reitemed) props others) :
    Reitemed (.object props) (.object others)

theorem reitemed_refl (x : Prepared) : x.Reitemed x := by
  induction x using Prepared.induction with
  | scalar m => exact .scalar m
  | list items carried _ => exact .list items items carried
  | object props ih => exact .object (List.forall₂_same.mpr fun q member => .intro q.1 (ih q member))

theorem preorder_of_reitemed {x y : Prepared} (reitemed : x.Reitemed y) :
    List.Forall₂ (fun s t : Pending => s.1 = t.1 ∧ s.2.Reitemed t.2) x.preorder y.preorder := by
  induction x using Prepared.induction generalizing y with
  | scalar m =>
    cases reitemed with
    | scalar => exact .cons ⟨rfl, .scalar m⟩ .nil
  | list items carried _ =>
    cases reitemed with
    | list _ others => exact .cons ⟨rfl, .list items others carried⟩ .nil
  | object props ih =>
    have here := reitemed
    cases reitemed with
    | object each =>
      rw [preorder_object, preorder_object]
      refine .cons ⟨rfl, here⟩ (List.rel_flatMap (forall₂_imp_of_mem ?_ each) fun _ _ pieces => pieces)
      rintro _ member _ - ⟨k, inside⟩
      refine List.rel_map ?_ (ih _ member inside)
      rintro s t ⟨paths, nodes⟩
      exact ⟨congrArg (k :: ·) paths, nodes⟩

end Prepared

namespace Authored

/-- The second schema is the first one with other items in its lists. -/
inductive Reitemed : Authored → Authored → Prop
  | scalar (m : Marker) : Reitemed (.scalar m) (.scalar m)
  | list (method : Method) (items others : List Authored) : Reitemed (.list method items) (.list method others)
  | object {props others : List (String × Authored)} (each : List.Forall₂ (Members.Matches Reitemed) props others) :
    Reitemed (.object props) (.object others)

/-- The handle of the method that stands at a path, if a list is there. -/
def handleAt? (o : Option Authored) (path : Path) : Option Handle :=
  ((o.bind (Path.find? path)).bind method?).map Method.handle

theorem find?_of_reitemed {o u : Authored} (reitemed : o.Reitemed u) (p : Path) :
    Option.Rel Reitemed (Path.find? p o) (Path.find? p u) := by
  induction p generalizing o u with
  | nil => exact .some reitemed
  | cons k p ih =>
    cases reitemed with
    | scalar m => exact .none
    | list method items others => exact .none
    | object each =>
      have children := Members.find?_of_matches each k
      rw [find?_object, find?_object]
      generalize Members.find? k _ = x at children ⊢
      generalize Members.find? k _ = y at children ⊢
      cases children with
      | none => exact .none
      | some inside => exact ih inside

theorem method?_of_reitemed {o u : Authored} (reitemed : o.Reitemed u) : o.method? = u.method? := by
  cases reitemed <;> rfl

end Authored

namespace Compiler

variable {c : Compiler} {authored other : Option Authored}

theorem method?_of_reitemed (reitemed : Option.Rel Authored.Reitemed authored other) (path : Path) :
    method? authored path none = method? other path none := by
  cases reitemed with
  | none => rfl
  | @some o u nodes =>
    have found := Authored.find?_of_reitemed nodes path
    rw [method?, method?, Option.bind_some, Option.bind_some]
    generalize Path.find? path o = x at found ⊢
    generalize Path.find? path u = y at found ⊢
    cases found with
    | none => rfl
    | some inside => exact Authored.method?_of_reitemed inside

theorem rel_of_handleAt? {path : Path}
    (same : Authored.handleAt? authored path = Authored.handleAt? other path) :
    Option.Rel (fun m n : Method => (m == n) = true) (method? authored path none) (method? other path none) := by
  rw [Authored.handleAt?, Authored.handleAt?] at same
  rw [method?, method?]
  generalize (authored.bind (Path.find? path)).bind Authored.method? = m at same ⊢
  generalize (other.bind (Path.find? path)).bind Authored.method? = n at same ⊢
  cases m with
  | none =>
    cases n with
    | none => exact .none
    | some n => cases same
  | some m =>
    cases n with
    | none => cases same
    | some n =>
      have handles : m.handle = n.handle := Option.some.inj same
      exact .some (beq_iff_eq.mpr handles : (m.handle == n.handle) = true)

theorem agrees_of_reitemed {path : Path} {x y : Prepared} (reitemed : x.Reitemed y)
    (found : ∀ items, x = .list items none →
      method? authored (c.accessor path) none = method? other (c.accessor path) none) :
    c.Agrees authored other Eq (path, x) (path, y) := by
  cases reitemed with
  | scalar m => exact ⟨rfl, .some rfl⟩
  | list items others carried =>
    have methods : method? authored (c.accessor path) carried = method? other (c.accessor path) carried := by
      cases carried with
      | none => exact found items rfl
      | some m => rfl
    refine agrees_list (Q := Eq) (fun m n same => by rw [same]) ?_ items others
    rw [methods]
    cases method? other (c.accessor path) carried with
    | none => exact .none
    | some m => exact .some rfl
  | object each => exact ⟨rfl, .none⟩

/-- Schemas that differ in the items of lists come to the same where the same methods are looked up. -/
theorem compile_of_reitemed {x y : Prepared} (reitemed : x.Reitemed y)
    (found : ∀ s ∈ x.preorder, ∀ items, s.2 = .list items none →
      method? authored (c.accessor s.1) none = method? other (c.accessor s.1) none) :
    c.compile x authored = c.compile y other := by
  refine compile_eq_of_agrees (forall₂_imp_of_mem ?_ (Prepared.preorder_of_reitemed reitemed))
  rintro ⟨path, z⟩ member ⟨pathToo, zToo⟩ - ⟨same, nodes⟩
  obtain rfl : path = pathToo := same
  exact agrees_of_reitemed nodes (found _ member)

theorem carried_of_compile_none {x : Prepared} {plan : Plan} (compiled : c.compile x none = .ok plan)
    {s : Pending} (member : s ∈ x.preorder) (items : List Prepared) : s.2 ≠ .list items none := by
  intro lacking
  have sound := ((compile_eq_ok_iff c none).mp compiled).1 s member
  have found := (fault?_eq_none_iff.mp sound).2 items none lacking
  cases found

/-- Authored schemas lead to equal answers if they have the same handle, or none, wherever a list without a
method is looked up. A schema that has a plan by itself has that plan beside any authored schema, and other items
in the lists of either schema change nothing. -/
theorem compile_reads_lookups (c : Compiler) :
    (∀ x : Prepared, x.Distinct → ∀ authored other : Option Authored,
      (∀ q items, Path.find? q x = some (.list items none) →
        Authored.handleAt? authored (c.accessor q) = Authored.handleAt? other (c.accessor q)) →
      (∀ e, c.compile x authored = .error e ↔ c.compile x other = .error e) ∧
      ∀ plan, c.compile x authored = .ok plan →
        ∃ planToo, c.compile x other = .ok planToo ∧ (plan == planToo) = true) ∧
    (∀ x plan, c.compile x none = .ok plan → ∀ authored, c.compile x authored = .ok plan) ∧
    ∀ x y authored other, x.Reitemed y → Option.Rel Authored.Reitemed authored other →
      c.compile x authored = c.compile y other := by
  refine ⟨fun x distinct authored other same => ?_, fun x plan compiled authored => ?_, ?_⟩
  · have nodes : List.Forall₂ (c.Agrees authored other fun l m => (l == m) = true) x.preorder x.preorder := by
      refine List.forall₂_same.mpr fun s member => agrees_of_alike (Prepared.alike_refl s.2) fun items lacking => ?_
      have found := (Prepared.mem_preorder_iff distinct).mp member
      rw [lacking] at found
      exact rel_of_handleAt? (same s.1 items found)
    obtain ⟨errors, plans⟩ := compile_of_agrees nodes
    refine ⟨errors, fun plan compiled => ?_⟩
    obtain ⟨planToo, compiledToo, leaves⟩ := plans plan compiled
    exact ⟨planToo, compiledToo, Leaf.beq_of_forall₂ leaves⟩
  · rw [← compiled]
    refine (compile_of_reitemed (Prepared.reitemed_refl x) fun s member items lacking => ?_).symm
    exact (carried_of_compile_none compiled member items lacking).elim
  · intro x y authored other reitemed reitemedToo
    exact compile_of_reitemed reitemed fun s _ _ _ => method?_of_reitemed reitemedToo (c.accessor s.1)

/-- The accessors lead below `root`, and only the codes are looked up there: that the second authored schema takes
the tags for a truth value goes unnoticed. -/
theorem compile_reads_lookups_codes :
    let join := Builtin.join.method
    let json := Builtin.json.method
    let c : Compiler := ⟨fun path => "root" :: path, 1⟩
    let tags : String × Prepared := ("tags", .list [] (some json))
    let x : Prepared := .object [tags, ("codes", .list [.scalar .number] none)]
    let y : Prepared := .object [tags, ("codes", .list [] none)]
    let o : Authored := .object [("root", .object [("codes", .list join [])])]
    let u : Authored := .object [("root", .object [("tags", .scalar .boolean), ("codes", .list join [.object []])])]
    let v : Authored := .object [("root", .object [("codes", .list join [.scalar .string])])]
    let leaf : Leaf := ⟨some "tags", ["root", "tags"], .list json⟩
    let plan : Plan := ⟨[leaf, ⟨some "codes", ["root", "codes"], .list join⟩]⟩
    x.Distinct ∧
      (∀ q items, Path.find? q x = some (.list items none) →
        Authored.handleAt? (some o) (c.accessor q) = Authored.handleAt? (some u) (c.accessor q)) ∧
      c.compile x (some o) = .ok plan ∧
      (∃ planToo, c.compile x (some u) = .ok planToo ∧ (plan == planToo) = true) ∧
      c.compile (.object [tags]) none = .ok ⟨[leaf]⟩ ∧ c.compile (.object [tags]) (some u) = .ok ⟨[leaf]⟩ ∧
      x.Reitemed y ∧ o.Reitemed v ∧ c.compile y (some v) = .ok plan := by
  intro join json c tags x y o u v leaf plan
  have distinct : x.Distinct := by decide +zetaReduce
  have same : ∀ q items, Path.find? q x = some (.list items none) →
      Authored.handleAt? (some o) (c.accessor q) = Authored.handleAt? (some u) (c.accessor q) := by
    intro q items found
    have nodes : x.preorder = [([], x), (["tags"], tags.2), (["codes"], .list [.scalar .number] none)] := rfl
    have member := (Prepared.mem_preorder_iff distinct).mpr found
    obtain ⟨rfl, -⟩ : q = ["codes"] ∧ items = [.scalar .number] := by
      simpa [nodes, x, tags] using member
    rfl
  have compiled : c.compile x (some o) = .ok plan := by
    rw [compile_eq]
    rfl
  have compiledAlone : c.compile (.object [tags]) none = .ok ⟨[leaf]⟩ := by
    rw [compile_eq]
    rfl
  have reitemed : x.Reitemed y := by
    refine .object (.cons (.intro "tags" (Prepared.reitemed_refl _)) (.cons (.intro "codes" ?_) .nil))
    exact .list [.scalar .number] [] none
  have reitemedToo : o.Reitemed v :=
    .object (.cons (.intro "root" (.object (.cons (.intro "codes" (.list join [] [.scalar .string])) .nil))) .nil)
  obtain ⟨lookups, alone, items⟩ := compile_reads_lookups c
  exact ⟨distinct, same, compiled, (lookups x distinct _ _ same).2 plan compiled, compiledAlone,
    alone _ _ compiledAlone (some u), reitemed, reitemedToo,
    (items x y _ _ reitemed (.some reitemedToo)).symm.trans compiled⟩

end Compiler

end LeafPlan
