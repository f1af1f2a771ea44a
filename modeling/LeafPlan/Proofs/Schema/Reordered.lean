import LeafPlan.Proofs.Schema.Prepare
import LeafPlan.Proofs.Schema.Same

/-!
# Reordered schemas

`same_is_reordering` shows that the comparison of schemas is an equivalence, and that two schemas compare equal if
and only if the one comes from the other by putting the properties of objects into another order.
-/

namespace LeafPlan

/-- How a tree is made of lists, which have methods, and of objects, and which methods count as one. -/
structure TreeForm (α β : Type) where
  list : List α → β → α
  object : List (String × α) → α
  alike : β → β → Prop

namespace TreeForm

variable {α β γ δ : Type}

/-- The second tree is the first one with the properties of objects permuted, at any depth and any number of times.
A list keeps its method, or has one that counts as the same. -/
inductive Reorders (t : TreeForm α β) : α → α → Prop
  | refl (x : α) : Reorders t x x
  | trans {x y z : α} (first : Reorders t x y) (second : Reorders t y z) : Reorders t x z
  | properties {ps qs : List (String × α)} (order : ps.Perm qs) : Reorders t (t.object ps) (t.object qs)
  | property (before after : List (String × α)) (k : String) {x y : α} (below : Reorders t x y) :
    Reorders t (t.object (before ++ (k, x) :: after)) (t.object (before ++ (k, y) :: after))
  | item (before after : List α) (m : β) {x y : α} (below : Reorders t x y) :
    Reorders t (t.list (before ++ x :: after) m) (t.list (before ++ y :: after) m)
  | method (items : List α) {m n : β} (kept : t.alike m n) : Reorders t (t.list items m) (t.list items n)

namespace Reorders

variable {t : TreeForm α β} {u : TreeForm γ δ} {x y : α}

theorem symm (turned : ∀ m n, t.alike m n → t.alike n m) (reorders : t.Reorders x y) : t.Reorders y x := by
  induction reorders with
  | refl x => exact .refl x
  | trans _ _ first second => exact .trans second first
  | properties order => exact .properties order.symm
  | property before after k _ ih => exact .property before after k ih
  | item before after m _ ih => exact .item before after m ih
  | method items kept => exact .method items (turned _ _ kept)

/-- Items are reordered one after another, behind those that are done. -/
theorem items (before : List α) {xs ys : List α} (each : List.Forall₂ t.Reorders xs ys) (m : β) :
    t.Reorders (t.list (before ++ xs) m) (t.list (before ++ ys) m) := by
  induction each generalizing before with
  | nil => exact .refl _
  | @cons x y xs ys here _ ih =>
    have rest := ih (before ++ [y])
    rw [List.append_assoc, List.append_assoc] at rest
    exact .trans (.item before xs m here) rest

theorem list_of_forall₂ {xs ys : List α} {m n : β} (each : List.Forall₂ t.Reorders xs ys) (kept : t.alike m n) :
    t.Reorders (t.list xs m) (t.list ys n) :=
  .trans (.items [] each m) (.method ys kept)

theorem props (before : List (String × α)) {ps qs : List (String × α)}
    (each : List.Forall₂ (Members.Matches t.Reorders) ps qs) :
    t.Reorders (t.object (before ++ ps)) (t.object (before ++ qs)) := by
  induction each generalizing before with
  | nil => exact .refl _
  | @cons p q ps qs here _ ih =>
    have rest := ih (before ++ [q])
    rw [List.append_assoc, List.append_assoc] at rest
    obtain ⟨k, below⟩ := here
    exact .trans (.property before ps k below) rest

theorem object_of_rearranged {ps qs : List (String × α)} (rearranged : Rearranged (Members.Matches t.Reorders) ps qs) :
    t.Reorders (t.object ps) (t.object qs) := by
  obtain ⟨zs, each, order⟩ := rearranged
  exact .trans (.props [] each) (.properties order)

theorem map {f : α → γ} {g : β → δ} (list : ∀ items m, f (t.list items m) = u.list (items.map f) (g m))
    (object : ∀ ps, f (t.object ps) = u.object (ps.map fun q => (q.1, f q.2)))
    (alike : ∀ m n, t.alike m n → u.alike (g m) (g n)) (reorders : t.Reorders x y) : u.Reorders (f x) (f y) := by
  induction reorders with
  | refl x => exact .refl _
  | trans _ _ first second => exact .trans first second
  | properties order =>
    rw [object, object]
    exact .properties (order.map _)
  | property before after k _ ih =>
    rw [object, object, List.map_append, List.map_append]
    exact .property _ _ k ih
  | item before after m _ ih =>
    rw [list, list, List.map_append, List.map_append]
    exact .item _ _ (g m) ih
  | method items kept =>
    rw [list, list]
    exact .method _ (alike _ _ kept)

end Reorders

end TreeForm

namespace Prepared

abbrev form : TreeForm Prepared (Option Method) := ⟨.list, .object, fun m n => (m == n) = true⟩

def Reorders (x y : Prepared) : Prop := form.Reorders x y

/-! ### The comparison -/

theorem carried_beq_iff {m n : Option Method} : (m == n) = true ↔ m.map Method.handle = n.map Method.handle := by
  cases m with
  | none => cases n <;> simp
  | some m =>
    cases n with
    | none => simp
    | some n =>
      show (m.handle == n.handle) = true ↔ _
      simp

theorem sameItems_iff {xs ys : List Prepared} :
    sameItems xs ys = true ↔ List.Forall₂ (fun x y => x.same y = true) xs ys :=
  Zipwise.iff ⟨rfl, fun _ _ => rfl, fun _ _ => rfl, fun _ _ _ _ => rfl⟩

theorem same_refl {x : Prepared} (distinct : x.Distinct) : x.same x = true := by
  induction x using Prepared.induction with
  | scalar m => exact beq_self_eq_true m
  | list items m ih =>
    rw [same, Bool.and_eq_true, sameItems_iff, List.forall₂_same, carried_beq_iff]
    exact ⟨fun x member => ih x member (distinctItems_iff.mp distinct x member), rfl⟩
  | object props ih =>
    obtain ⟨unique, below⟩ := distinct_object.mp distinct
    rw [same, Bool.and_eq_true, beq_iff_eq, sameProps_iff]
    exact ⟨rfl, fun p member => ⟨p.2, (Members.find?_eq_some_iff unique).mpr member, ih p member (below p member)⟩⟩

theorem items_same_refl {items : List Prepared} (distinct : ∀ x ∈ items, x.Distinct) :
    List.Forall₂ (fun x y : Prepared => x.same y = true) items items :=
  List.forall₂_same.mpr fun x member => same_refl (distinct x member)

theorem sameItems_trans {xs ys zs : List Prepared}
    (each : ∀ x ∈ xs, ∀ y z : Prepared, x.same y = true → y.same z = true → x.same z = true)
    (first : sameItems xs ys = true) (second : sameItems ys zs = true) : sameItems xs zs = true := by
  rw [sameItems_iff] at first second ⊢
  induction first generalizing zs with
  | nil => exact second
  | cons here _ ih =>
    obtain ⟨join, each⟩ := List.forall_mem_cons.mp each
    cases second with
    | cons there second => exact .cons (join _ _ here there) (ih each second)

theorem same_trans {x y z : Prepared} (first : x.same y = true) (second : y.same z = true) : x.same z = true := by
  induction x using Prepared.induction generalizing y z with
  | scalar m =>
    cases y with
    | scalar n =>
      obtain rfl : m = n := beq_iff_eq.mp first
      exact second
    | _ => cases first
  | list items m ih =>
    cases y with
    | list others n =>
      cases z with
      | list rest k =>
        rw [same, Bool.and_eq_true, carried_beq_iff] at first second ⊢
        exact ⟨sameItems_trans (fun x member y z => ih x member) first.1 second.1, first.2.trans second.2⟩
      | _ => cases second
    | _ => cases first
  | object ps ih =>
    cases y with
    | object qs =>
      cases z with
      | object rs =>
        rw [same, Bool.and_eq_true, beq_iff_eq, sameProps_iff] at first second ⊢
        refine ⟨first.1.trans second.1, fun p member => ?_⟩
        obtain ⟨y, found, here⟩ := first.2 p member
        obtain ⟨z, foundToo, there⟩ := second.2 _ (Members.mem_of_find? found)
        exact ⟨z, foundToo, ih p member here there⟩
      | _ => cases second
    | _ => cases first

theorem same_of_rearranged {ps qs : List (String × Prepared)} (distinct : (Members.keys ps).Nodup)
    (rearranged : Rearranged (Members.Matches fun x y => x.same y = true) ps qs) :
    (Members.keys qs).Nodup ∧ (Prepared.object ps).same (.object qs) = true := by
  have distinctToo : (Members.keys qs).Nodup := by
    obtain ⟨zs, each, order⟩ := rearranged
    rw [Members.keys_of_matches each] at distinct
    exact (order.map Prod.fst).nodup_iff.mp distinct
  have lengths : ps.length = qs.length := by
    obtain ⟨zs, each, order⟩ := rearranged
    exact each.length_eq.trans order.length_eq
  rw [same, Bool.and_eq_true, beq_iff_eq, sameProps_iff]
  refine ⟨distinctToo, lengths, fun p member => ?_⟩
  have related := Members.find?_rearranged distinctToo rearranged p.1
  rw [(Members.find?_eq_some_iff distinct).mpr member] at related
  generalize Members.find? p.1 qs = found at related
  cases related with
  | some here => exact ⟨_, rfl, here⟩

/-! ### Reordering -/

theorem reorders_of_same {x y : Prepared} (distinct : x.Distinct) (same : x.same y = true) : x.Reorders y := by
  induction x using Prepared.induction generalizing y with
  | scalar m =>
    cases y with
    | scalar n =>
      obtain rfl : m = n := beq_iff_eq.mp same
      exact .refl _
    | _ => cases same
  | list items m ih =>
    cases y with
    | list others n =>
      rw [Prepared.same, Bool.and_eq_true, sameItems_iff] at same
      have below := distinctItems_iff.mp distinct
      refine .list_of_forall₂ (forall₂_imp_of_mem (fun x member y _ here => ?_) same.1) same.2
      exact ih x member (below x member) here
    | _ => cases same
  | object ps ih =>
    cases y with
    | object qs =>
      obtain ⟨unique, below⟩ := distinct_object.mp distinct
      refine .object_of_rearranged ((rearranged_of_same unique same).imp_of_mem fun p member q _ here => ?_)
      obtain ⟨k, inside⟩ := here
      exact .intro k (ih _ member (below _ member) inside)
    | _ => cases same

theorem same_of_reorders {x y : Prepared} (reorders : x.Reorders y) (distinct : x.Distinct) :
    y.Distinct ∧ x.same y = true := by
  have unchanged {props : List (String × Prepared)} (below : ∀ q ∈ props, q.2.Distinct) :
      List.Forall₂ (Members.Matches fun x y : Prepared => x.same y = true) props props :=
    List.forall₂_same.mpr fun q member => .intro q.1 (same_refl (below q member))
  induction reorders with
  | refl x => exact ⟨distinct, same_refl distinct⟩
  | trans _ _ first second =>
    obtain ⟨distinctY, here⟩ := first distinct
    obtain ⟨distinctZ, there⟩ := second distinctY
    exact ⟨distinctZ, same_trans here there⟩
  | @properties ps qs order =>
    obtain ⟨unique, below⟩ := distinct_object.mp distinct
    obtain ⟨uniqueToo, same⟩ := same_of_rearranged unique ⟨ps, unchanged below, order⟩
    exact ⟨distinct_object.mpr ⟨uniqueToo, fun q member => below q (order.mem_iff.mpr member)⟩, same⟩
  | property before after k _ ih =>
    obtain ⟨unique, below⟩ := distinct_object.mp distinct
    obtain ⟨front, back⟩ := List.forall_mem_append.mp below
    obtain ⟨here, back⟩ := List.forall_mem_cons.mp back
    obtain ⟨distinctY, inside⟩ := ih here
    have each := List.rel_append (unchanged front) (.cons (.intro k inside) (unchanged back))
    obtain ⟨uniqueToo, same⟩ := same_of_rearranged unique ⟨_, each, List.Perm.refl _⟩
    refine ⟨distinct_object.mpr ⟨uniqueToo, ?_⟩, same⟩
    exact List.forall_mem_append.mpr ⟨front, List.forall_mem_cons.mpr ⟨distinctY, back⟩⟩
  | item before after m _ ih =>
    obtain ⟨front, back⟩ := List.forall_mem_append.mp (distinctItems_iff.mp distinct)
    obtain ⟨here, back⟩ := List.forall_mem_cons.mp back
    obtain ⟨distinctY, inside⟩ := ih here
    refine ⟨distinctItems_iff.mpr ?_, ?_⟩
    · exact List.forall_mem_append.mpr ⟨front, List.forall_mem_cons.mpr ⟨distinctY, back⟩⟩
    · rw [same, Bool.and_eq_true, sameItems_iff, carried_beq_iff]
      exact ⟨List.rel_append (items_same_refl front) (.cons inside (items_same_refl back)), rfl⟩
  | method items kept =>
    refine ⟨distinct, ?_⟩
    rw [same, Bool.and_eq_true, sameItems_iff]
    exact ⟨items_same_refl (distinctItems_iff.mp distinct), kept⟩

theorem same_iff_reorders {x y : Prepared} (distinct : x.Distinct) : x.same y = true ↔ x.Reorders y :=
  ⟨reorders_of_same distinct, fun reorders => (same_of_reorders reorders distinct).2⟩

theorem same_symm {x y : Prepared} (distinct : x.Distinct) (same : x.same y = true) : y.same x = true := by
  have reorders := reorders_of_same distinct same
  obtain ⟨distinctToo, -⟩ := same_of_reorders reorders distinct
  have back : y.Reorders x := reorders.symm fun m n kept => carried_beq_iff.mpr (carried_beq_iff.mp kept).symm
  exact (same_of_reorders back distinctToo).2

end Prepared

namespace Authored

abbrev form : TreeForm Authored Method := ⟨fun items m => .list m items, .object, fun m n => (m == n) = true⟩

def Reorders (o u : Authored) : Prop := form.Reorders o u

theorem sameItems_iff {xs ys : List Authored} :
    sameItems xs ys = true ↔ List.Forall₂ (fun x y => x.same y = true) xs ys :=
  Zipwise.iff ⟨rfl, fun _ _ => rfl, fun _ _ => rfl, fun _ _ _ _ => rfl⟩

theorem reorders_prepare {o u : Authored} (reorders : o.Reorders u) : o.prepare.Reorders u.prepare := by
  have list (items : List Authored) (m : Method) :
      prepare (.list m items) = .list (items.map prepare) (some m) := by
    rw [prepare, prepareItems_eq]
  have object (props : List (String × Authored)) :
      prepare (.object props) = .object (props.map fun q => (q.1, q.2.prepare)) := by
    rw [prepare, prepareProps_eq]
  exact reorders.map list object fun m n kept => kept

theorem reorders_of_same {o u : Authored} (distinct : o.Distinct) (same : o.same u = true) : o.Reorders u := by
  induction o using Authored.induction generalizing u with
  | scalar m =>
    cases u with
    | scalar n =>
      obtain rfl : m = n := beq_iff_eq.mp same
      exact .refl _
    | _ => cases same
  | list m items ih =>
    cases u with
    | list n others =>
      rw [Authored.same, Bool.and_eq_true, sameItems_iff] at same
      have below := distinctItems_iff.mp distinct
      refine .list_of_forall₂ (forall₂_imp_of_mem (fun x member y _ here => ?_) same.2) same.1
      exact ih x member (below x member) here
    | _ => cases same
  | object ps ih =>
    cases u with
    | object qs =>
      obtain ⟨unique, below⟩ := distinct_object.mp distinct
      refine .object_of_rearranged ((rearranged_of_same unique same).imp_of_mem fun p member q _ here => ?_)
      obtain ⟨k, inside⟩ := here
      exact .intro k (ih _ member (below _ member) inside)
    | _ => cases same

theorem same_of_reorders {o u : Authored} (reorders : o.Reorders u) (distinct : o.Distinct) : o.same u = true := by
  rw [← same_prepare]
  exact (Prepared.same_of_reorders (reorders_prepare reorders) (distinct_prepare distinct)).2

end Authored

/-- Among schemas that declare no property twice, prepared or authored, the comparison is an equivalence. Two schemas
compare equal if and only if the one comes from the other by permuting the properties of objects, at any depth: the
order of items, the markers and the handles of methods stay. -/
theorem same_is_reordering :
    (Equivalence fun x y : { x : Prepared // x.Distinct } => (x.1 == y.1) = true) ∧
    (Equivalence fun o u : { o : Authored // o.Distinct } => (o.1 == u.1) = true) ∧
    (∀ x y : Prepared, x.Distinct → ((x == y) = true ↔ x.Reorders y)) ∧
    ∀ o u : Authored, o.Distinct → ((o == u) = true ↔ o.Reorders u) := by
  refine ⟨⟨fun x => ?_, fun {x y} here => ?_, fun {x y z} here there => ?_⟩,
    ⟨fun o => ?_, fun {o u} here => ?_, fun {o u v} here there => ?_⟩, fun x y distinct => ?_, fun o u distinct => ?_⟩
  · exact Prepared.same_refl x.2
  · exact Prepared.same_symm x.2 here
  · exact Prepared.same_trans here there
  · exact (Authored.same_prepare o.1 o.1).symm.trans (Prepared.same_refl (Authored.distinct_prepare o.2))
  · have prepared := (Authored.same_prepare o.1 u.1).trans here
    exact (Authored.same_prepare u.1 o.1).symm.trans
      (Prepared.same_symm (Authored.distinct_prepare o.2) prepared)
  · have first := (Authored.same_prepare o.1 u.1).trans here
    have second := (Authored.same_prepare u.1 v.1).trans there
    exact (Authored.same_prepare o.1 v.1).symm.trans (Prepared.same_trans first second)
  · exact Prepared.same_iff_reorders distinct
  · exact ⟨Authored.reorders_of_same distinct, fun reorders => Authored.same_of_reorders reorders distinct⟩

/-- Properties trade places in the schema and in an item of its list. A list without its method, or with its items in
another order, is another one. -/
theorem same_is_reordering_nested :
    let point : Prepared := .object [("x", .scalar .number), ("y", .scalar .string)]
    let turned : Prepared := .object [("y", .scalar .string), ("x", .scalar .number)]
    let join := Builtin.join.method
    let x : Prepared := .object [("id", .scalar .number), ("path", .list [point, .scalar .number] (some join))]
    let y : Prepared := .object [("path", .list [turned, .scalar .number] (some join)), ("id", .scalar .number)]
    let bare : Prepared := .object [("id", .scalar .number), ("path", .list [point, .scalar .number] none)]
    let swapped : Prepared := .object [("id", .scalar .number), ("path", .list [.scalar .number, point] (some join))]
    let o : Authored := .object [("id", .scalar .number), ("path", .list join [.scalar .string])]
    let u : Authored := .object [("path", .list join [.scalar .string]), ("id", .scalar .number)]
    x.Distinct ∧ x.Reorders y ∧ ¬ x.Reorders bare ∧ ¬ x.Reorders swapped ∧ o.Distinct ∧ o.Reorders u := by
  intro point turned join x y bare swapped o u
  have distinct : x.Distinct := by decide +zetaReduce
  have distinctToo : o.Distinct := by decide +zetaReduce
  obtain ⟨-, -, prepared, authored⟩ := same_is_reordering
  refine ⟨distinct, (prepared x y distinct).mp rfl, ?_, ?_, distinctToo, (authored o u distinctToo).mp rfl⟩
  · intro reorders
    cases (prepared x bare distinct).mpr reorders
  · intro reorders
    cases (prepared x swapped distinct).mpr reorders

end LeafPlan
