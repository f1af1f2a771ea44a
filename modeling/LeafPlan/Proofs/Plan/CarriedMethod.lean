import LeafPlan.Proofs.Plan.Agreement
import LeafPlan.Proofs.Plan.Leaves
import LeafPlan.Proofs.Rearranged
import LeafPlan.Proofs.Schema.Prepare

/-!
# Methods carried and methods looked up

The prepared form of an authored schema carries the method of every list. `compile_stripped` shows that a
compiler finds the methods again in the authored schema wherever they were taken away.
-/

namespace LeafPlan

namespace Prepared

/-- The second schema is the first one without the methods of some of its lists. -/
inductive Strips : Prepared → Prepared → Prop
  | scalar (m : Marker) : Strips (.scalar m) (.scalar m)
  | list {items others : List Prepared} {m n : Option Method} (inside : List.Forall₂ Strips items others)
    (kept : n = m ∨ n = none) : Strips (.list items m) (.list others n)
  | object {props others : List (String × Prepared)} (each : List.Forall₂ (Members.Matches Strips) props others) :
    Strips (.object props) (.object others)

end Prepared

namespace Authored

/-- The prepared form of the authored node at a path, and the same form stripped. -/
inductive Recovers (o : Authored) : Pending → Pending → Prop
  | intro (path : Path) {z : Authored} {y : Prepared} (found : Path.find? path o = some z)
    (strips : z.prepare.Strips y) : Recovers o (path, z.prepare) (path, y)

theorem Recovers.below {props : List (String × Authored)} {k : String} {o : Authored}
    (child : Members.find? k props = some o) {s t : Pending} (recovers : Recovers o s t) :
    Recovers (.object props) (Pending.below [k] s) (Pending.below [k] t) := by
  obtain ⟨path, found, strips⟩ := recovers
  refine .intro (k :: path) ?_ strips
  rw [find?_object, child]
  exact found

theorem preorder_of_strips {o : Authored} (distinct : o.Distinct) {x : Prepared} (strips : o.prepare.Strips x) :
    List.Forall₂ (Recovers o) o.prepare.preorder x.preorder := by
  induction o using Authored.induction generalizing x with
  | scalar m =>
    cases strips with
    | scalar => exact .cons (.intro [] rfl (.scalar m)) .nil
  | list m items _ =>
    cases strips with
    | list inside kept => exact .cons (.intro [] rfl (.list inside kept)) .nil
  | object props ih =>
    obtain ⟨unique, below⟩ := distinct_object.mp distinct
    have here : Recovers (.object props) _ _ := .intro [] rfl strips
    cases strips with
    | object each =>
      rw [prepareProps_eq, List.forall₂_map_left_iff] at each
      rw [prepare, Prepared.preorder_object, Prepared.preorder_object, prepareProps_eq]
      -- the stripped properties stand opposite the authored ones, in the same order
      refine .cons ?_ (List.rel_flatMap (List.forall₂_map_left_iff.mpr ?_) fun _ _ pieces => pieces)
      · rw [← prepareProps_eq]
        exact here
      · refine forall₂_imp_of_mem ?_ each
        rintro ⟨k, z⟩ member _ - ⟨_, stripped⟩
        have child := (Members.find?_eq_some_iff unique).mpr member
        exact List.rel_map (fun _ _ recovers => recovers.below child) (ih _ member (below _ member) stripped)

end Authored

namespace Compiler

variable {n : Nat}

theorem method?_of_strips {o : Authored} {path : Path} {m : Method} {items : List Authored}
    (found : Path.find? path o = some (.list m items)) {carried : Option Method}
    (kept : carried = some m ∨ carried = none) : method? (some o) path carried = some m := by
  rcases kept with rfl | rfl
  · rfl
  · rw [method?, Option.bind_some, found]
    rfl

theorem agrees_of_recovers {o : Authored} {s t : Pending} (recovers : o.Recovers s t) :
    Agrees ⟨id, n⟩ none (some o) Eq s t := by
  obtain @⟨path, z, y, found, strips⟩ := recovers
  cases z with
  | scalar m =>
    cases strips with
    | scalar => exact ⟨rfl, .some rfl⟩
  | list m items =>
    cases strips with
    | @list _ others _ carried inside kept =>
      have methods : Option.Rel Eq (method? none path (some m)) (method? (some o) path carried) := by
        rw [method?_of_strips found kept]
        exact .some rfl
      exact agrees_list (fun m n same => by rw [same]) methods _ _
  | object props =>
    cases strips with
    | object each => exact ⟨rfl, .none⟩

theorem missingMethod_of_compile {x : Prepared} {c : Compiler} {authored : Option Authored} {path : Path}
    (missing : c.compile x authored = .error (.missingMethod path)) :
    ∃ items, (path, .list items none) ∈ x.preorder := by
  have first := (compile_eq_error_iff c authored).mp missing
  obtain ⟨s, member, fault⟩ := List.exists_of_findSome?_eq_some first
  obtain ⟨items, rfl⟩ := eq_list_of_missingMethod fault
  exact ⟨items, member⟩

/-- Compiled against its authored schema, a prepared form from which methods were taken away comes to what the
whole form comes to by itself, and no method is ever missing. -/
theorem compile_stripped {o : Authored} (distinct : o.Distinct) (n : Nat) {x : Prepared}
    (strips : o.prepare.Strips x) :
    Compiler.compile ⟨id, n⟩ x (some o) = Compiler.compile ⟨id, n⟩ o.prepare none ∧
      ∀ path, Compiler.compile ⟨id, n⟩ x (some o) ≠ .error (.missingMethod path) ∧
        Compiler.compile ⟨id, n⟩ o.prepare none ≠ .error (.missingMethod path) := by
  have same : Compiler.compile ⟨id, n⟩ o.prepare none = Compiler.compile ⟨id, n⟩ x (some o) :=
    compile_eq_of_agrees ((Authored.preorder_of_strips distinct strips).imp fun _ _ => agrees_of_recovers)
  have carried : ∀ path, Compiler.compile ⟨id, n⟩ o.prepare none ≠ .error (.missingMethod path) := by
    intro path missing
    obtain ⟨items, member⟩ := missingMethod_of_compile missing
    have found := (Prepared.mem_preorder_iff (Authored.distinct_prepare distinct)).mp member
    rw [Authored.find?_prepare] at found
    obtain ⟨z, -, prepared⟩ := Option.map_eq_some_iff.mp found
    cases z <;> cases prepared
  exact ⟨same.symm, fun path => ⟨same ▸ carried path, carried path⟩⟩

/-- The tags have lost their method and the codes have kept theirs. -/
theorem compile_stripped_note :
    let join := Builtin.join.method
    let json := Builtin.json.method
    let o : Authored := .object [("tags", .list join [.scalar .string]), ("codes", .list json [.list join []])]
    let x : Prepared :=
      .object [("tags", .list [.scalar .string] none), ("codes", .list [.list [] none] (some json))]
    let plan : Plan := ⟨[⟨some "tags", ["tags"], .list join⟩, ⟨some "codes", ["codes"], .list json⟩]⟩
    o.Distinct ∧ o.prepare.Strips x ∧ Compiler.compile ⟨id, 1⟩ x (some o) = .ok plan ∧
      Compiler.compile ⟨id, 1⟩ o.prepare none = .ok plan ∧
      Compiler.compile ⟨id, 1⟩ x none = .error (.missingMethod ["tags"]) := by
  intro join json o x plan
  have distinct : o.Distinct := by decide +zetaReduce
  have tags : (Authored.list join [.scalar .string]).prepare.Strips (.list [.scalar .string] none) :=
    .list (.cons (.scalar .string) .nil) (.inr rfl)
  have codes : (Authored.list json [.list join []]).prepare.Strips (.list [.list [] none] (some json)) :=
    .list (.cons (.list .nil (.inr rfl)) .nil) (.inl rfl)
  have strips : o.prepare.Strips x := .object (.cons (.intro "tags" tags) (.cons (.intro "codes" codes) .nil))
  have compiled : Compiler.compile ⟨id, 1⟩ x (some o) = .ok plan := by
    rw [compile_eq]
    rfl
  refine ⟨distinct, strips, compiled, (compile_stripped distinct 1 strips).1.symm.trans compiled, ?_⟩
  rw [compile_eq]
  rfl

end Compiler

end LeafPlan
