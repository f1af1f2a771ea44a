import LeafPlan.Proofs.Members
import Mathlib.Data.List.Forall2

/-!
# Conditions and comparisons made item by item

A function on a tree whose nodes hold lists comes with functions on those lists. Here is what such a function on
lists comes to, whatever the tree is: a condition on all items, the greatest of their depths, the list of what becomes
of each, a comparison of items in pairs, or a comparison of members that are looked up by their keys.
-/

namespace LeafPlan

variable {α β : Type}

/-- `all` puts the condition to one item after another. -/
structure Itemwise (P : α → Prop) (all : List α → Prop) : Prop where
  nil : all []
  cons : ∀ a l, all (a :: l) ↔ P a ∧ all l

theorem Itemwise.iff {P : α → Prop} {all : List α → Prop} (items : Itemwise P all) {l : List α} :
    all l ↔ ∀ a ∈ l, P a := by
  induction l with
  | nil => exact iff_of_true items.nil (List.forall_mem_nil P)
  | cons a l ih => rw [items.cons, ih, List.forall_mem_cons]

/-- `deepest` is the greatest depth of any item. -/
structure Deepest (depth : α → Nat) (deepest : List α → Nat) : Prop where
  nil : deepest [] = 0
  cons : ∀ a l, deepest (a :: l) = max (depth a) (deepest l)

theorem Deepest.le_iff {depth : α → Nat} {deepest : List α → Nat} (items : Deepest depth deepest) {l : List α}
    {n : Nat} : deepest l ≤ n ↔ ∀ a ∈ l, depth a ≤ n := by
  have bounded : Itemwise (fun a => depth a ≤ n) fun l => deepest l ≤ n :=
    ⟨items.nil ▸ Nat.zero_le n, fun a l => by rw [items.cons, Nat.max_le]⟩
  exact bounded.iff

/-- `all` takes one item after another through `f`. -/
structure Mapped (f : α → β) (all : List α → List β) : Prop where
  nil : all [] = []
  cons : ∀ a l, all (a :: l) = f a :: all l

theorem Mapped.eq {f : α → β} {all : List α → List β} (items : Mapped f all) (l : List α) : all l = l.map f := by
  induction l with
  | nil => exact items.nil
  | cons a l ih => rw [items.cons, ih, List.map_cons]

/-- `all` puts what `f` makes of the items one behind another. -/
structure Joined (f : α → List β) (all : List α → List β) : Prop where
  nil : all [] = []
  cons : ∀ a l, all (a :: l) = f a ++ all l

theorem Joined.eq {f : α → List β} {all : List α → List β} (items : Joined f all) (l : List α) :
    all l = l.flatMap f := by
  induction l with
  | nil => exact items.nil
  | cons a l ih => rw [items.cons, ih, List.flatMap_cons]

/-- `all` compares lists by comparing their items in pairs. -/
structure Zipwise (same : α → β → Bool) (all : List α → List β → Bool) : Prop where
  nil : all [] [] = true
  short : ∀ b m, all [] (b :: m) = false
  long : ∀ a l, all (a :: l) [] = false
  cons : ∀ a l b m, all (a :: l) (b :: m) = (same a b && all l m)

theorem Zipwise.iff {same : α → β → Bool} {all : List α → List β → Bool} (items : Zipwise same all) {l : List α}
    {m : List β} : all l m = true ↔ List.Forall₂ (fun a b => same a b = true) l m := by
  induction l generalizing m with
  | nil =>
    cases m with
    | nil => simp [items.nil]
    | cons b m => simp [items.short]
  | cons a l ih =>
    cases m with
    | nil => simp [items.long]
    | cons b m => rw [items.cons, Bool.and_eq_true, ih, List.forall₂_cons]

/-- `all` looks up one key after another, and compares what is under it. -/
structure Keywise (same : α → β → Bool) (all : Members α → Members β → Bool) : Prop where
  nil : ∀ n, all [] n = true
  cons : ∀ k v m n, all ((k, v) :: m) n = ((Members.find? k n).any (same v) && all m n)

theorem Keywise.iff {same : α → β → Bool} {all : Members α → Members β → Bool} (members : Keywise same all)
    {m : Members α} {n : Members β} :
    all m n = true ↔ ∀ p ∈ m, ∃ w, Members.find? p.1 n = some w ∧ same p.2 w = true := by
  induction m with
  | nil => exact iff_of_true (members.nil n) (List.forall_mem_nil _)
  | cons p m ih =>
    obtain ⟨k, v⟩ := p
    rw [members.cons, Bool.and_eq_true, ih, List.forall_mem_cons, Option.any_eq_true]

end LeafPlan
