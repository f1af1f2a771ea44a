import LeafPlan.Proofs.Itemwise
import Mathlib.Data.List.Nodup
import Mathlib.Data.List.Perm.Subperm

/-!
# Lists that match up to their order

`Rearranged R xs ys` says that the items of `ys`, put into another order, are related one by one to those of
`xs`. Members with distinct keys are rearranged where each key leads to a related value in the others.
-/

namespace LeafPlan

variable {α β γ δ : Type} {R : α → β → Prop} {S : γ → δ → Prop}

theorem forall₂_imp_of_mem {R' : α → β → Prop} {xs : List α} {ys : List β}
    (weaker : ∀ x ∈ xs, ∀ y ∈ ys, R x y → R' x y) (each : List.Forall₂ R xs ys) : List.Forall₂ R' xs ys := by
  refine List.forall₂_iff_zip.mpr ⟨each.length_eq, fun {x y} zipped => ?_⟩
  obtain ⟨left, right⟩ := List.of_mem_zip zipped
  exact weaker x left y right (List.forall₂_zip each zipped)

theorem forall₂_left {xs : List α} {ys : List β} (each : List.Forall₂ R xs ys) : ∀ x ∈ xs, ∃ y ∈ ys, R x y := by
  induction each with
  | nil => exact fun x member => nomatch member
  | cons here _ ih =>
    refine List.forall_mem_cons.mpr ⟨⟨_, List.mem_cons_self, here⟩, fun x member => ?_⟩
    obtain ⟨y, there, related⟩ := ih x member
    exact ⟨y, List.mem_cons_of_mem _ there, related⟩

theorem forall₂_right {xs : List α} {ys : List β} (each : List.Forall₂ R xs ys) : ∀ y ∈ ys, ∃ x ∈ xs, R x y :=
  forall₂_left each.flip

def Rearranged (R : α → β → Prop) (xs : List α) (ys : List β) : Prop :=
  ∃ zs, List.Forall₂ R xs zs ∧ zs.Perm ys

namespace Rearranged

theorem nil : Rearranged R [] [] := ⟨[], .nil, .nil⟩

theorem cons {x : α} {y : β} {xs : List α} {ys : List β} (here : R x y) (there : Rearranged R xs ys) :
    Rearranged R (x :: xs) (y :: ys) := by
  obtain ⟨zs, each, order⟩ := there
  exact ⟨y :: zs, .cons here each, order.cons y⟩

theorem append {xs us : List α} {ys vs : List β} (first : Rearranged R xs ys) (second : Rearranged R us vs) :
    Rearranged R (xs ++ us) (ys ++ vs) := by
  obtain ⟨zs, each, order⟩ := first
  obtain ⟨ws, eachMore, orderMore⟩ := second
  exact ⟨zs ++ ws, List.rel_append each eachMore, order.append orderMore⟩

theorem imp_of_mem {R' : α → β → Prop} {xs : List α} {ys : List β}
    (weaker : ∀ x ∈ xs, ∀ y ∈ ys, R x y → R' x y) (rearranged : Rearranged R xs ys) : Rearranged R' xs ys := by
  obtain ⟨zs, each, order⟩ := rearranged
  refine ⟨zs, forall₂_imp_of_mem (fun x member z present => ?_) each, order⟩
  exact weaker x member z (order.mem_iff.mp present)

theorem map {f : α → γ} {g : β → δ} (related : ∀ x y, R x y → S (f x) (g y)) {xs : List α} {ys : List β}
    (rearranged : Rearranged R xs ys) : Rearranged S (xs.map f) (ys.map g) := by
  obtain ⟨zs, each, order⟩ := rearranged
  exact ⟨zs.map g, List.rel_map related each, order.map g⟩

theorem filterMap {f : α → Option γ} {g : β → Option δ} (related : ∀ x y, R x y → Option.Rel S (f x) (g y))
    {xs : List α} {ys : List β} (rearranged : Rearranged R xs ys) :
    Rearranged S (xs.filterMap f) (ys.filterMap g) := by
  obtain ⟨zs, each, order⟩ := rearranged
  exact ⟨zs.filterMap g, List.rel_filterMap related each, order.filterMap g⟩

theorem flatMap {f : α → List γ} {g : β → List δ} {xs : List α} {ys : List β}
    (rearranged : Rearranged (fun x y => Rearranged S (f x) (g y)) xs ys) :
    Rearranged S (xs.flatMap f) (ys.flatMap g) := by
  obtain ⟨zs, each, order⟩ := rearranged
  suffices pieces : Rearranged S (xs.flatMap f) (zs.flatMap g) by
    obtain ⟨ws, items, reordered⟩ := pieces
    exact ⟨ws, items, reordered.trans (order.flatMap_right g)⟩
  clear order
  induction each with
  | nil => exact nil
  | cons here _ ih => exact append here ih

theorem forall_iff {P : α → Prop} {Q : β → Prop} (related : ∀ x y, R x y → (P x ↔ Q y)) {xs : List α} {ys : List β}
    (rearranged : Rearranged R xs ys) : (∀ x ∈ xs, P x) ↔ ∀ y ∈ ys, Q y := by
  obtain ⟨zs, each, order⟩ := rearranged
  have here : (∀ x ∈ xs, P x) ↔ ∀ z ∈ zs, Q z := by
    clear order
    induction each with
    | nil => simp
    | cons first _ ih => rw [List.forall_mem_cons, List.forall_mem_cons, related _ _ first, ih]
  exact here.trans (forall_congr' fun z => imp_congr_left order.mem_iff)

end Rearranged

namespace Members

/-- The same key and related values. -/
inductive Matches (R : α → β → Prop) : String × α → String × β → Prop
  | intro (k : String) {v : α} {w : β} (related : R v w) : Matches R (k, v) (k, w)

theorem matches_left {m : Members α} {n : Members β} (each : List.Forall₂ (Matches R) m n) :
    ∀ p ∈ m, ∃ q ∈ n, R p.2 q.2 := by
  intro p member
  obtain ⟨q, there, matched⟩ := forall₂_left each p member
  cases matched with
  | intro k related => exact ⟨_, there, related⟩

theorem matches_right {m : Members α} {n : Members β} (each : List.Forall₂ (Matches R) m n) :
    ∀ q ∈ n, ∃ p ∈ m, R p.2 q.2 := by
  intro q member
  obtain ⟨p, there, matched⟩ := forall₂_right each q member
  cases matched with
  | intro k related => exact ⟨_, there, related⟩

/-- Members that stand between related ones are gathered into a list of their own. -/
theorem exists_matches {f : γ → β} {m : Members α} {n : Members β} {T : α → γ → Prop}
    (each : List.Forall₂ (Matches fun v w => ∃ u, T v u ∧ f u = w) m n) :
    ∃ l : Members γ, List.Forall₂ (Matches T) m l ∧ l.map (fun q => (q.1, f q.2)) = n := by
  induction each with
  | nil => exact ⟨[], .nil, rfl⟩
  | cons here _ ih =>
    obtain ⟨k, u, first, rfl⟩ := here
    obtain ⟨l, below, rfl⟩ := ih
    exact ⟨(k, u) :: l, .cons (.intro k first) below, rfl⟩

theorem keys_of_matches {m : Members α} {n : Members β} (each : List.Forall₂ (Matches R) m n) :
    keys m = keys n := by
  induction each with
  | nil => rfl
  | cons here _ ih =>
    obtain ⟨k, -⟩ := here
    exact congrArg (k :: ·) ih

theorem find?_of_matches {m : Members α} {n : Members β} (each : List.Forall₂ (Matches R) m n) (k : String) :
    Option.Rel R (find? k m) (find? k n) := by
  induction each with
  | nil => exact .none
  | cons here _ ih =>
    obtain ⟨j, related⟩ := here
    rw [find?_cons, find?_cons]
    split
    · exact .some related
    · exact ih

theorem find?_of_perm {m n : Members α} (distinct : (keys m).Nodup) (order : m.Perm n) (k : String) :
    find? k m = find? k n := by
  have distinctToo : (keys n).Nodup := (order.map Prod.fst).nodup_iff.mp distinct
  refine Option.ext fun v => ?_
  rw [find?_eq_some_iff distinct, find?_eq_some_iff distinctToo, order.mem_iff]

theorem find?_rearranged {m : Members α} {n : Members β} (distinct : (keys n).Nodup)
    (rearranged : Rearranged (Matches R) m n) (k : String) : Option.Rel R (find? k m) (find? k n) := by
  obtain ⟨r, each, order⟩ := rearranged
  have found := find?_of_matches each k
  rwa [find?_of_perm ((order.map Prod.fst).nodup_iff.mpr distinct) order] at found

/-- As many members, and a related value under each key. -/
theorem rearranged_of_find? {m : Members α} {n : Members β} (distinct : (keys m).Nodup)
    (lengths : m.length = n.length) (each : ∀ p ∈ m, ∃ w, find? p.1 n = some w ∧ R p.2 w) :
    Rearranged (Matches R) m n := by
  have chosen : ∃ r : Members β, List.Forall₂ (Matches R) m r ∧ r ⊆ n := by
    clear distinct lengths
    induction m with
    | nil => exact ⟨[], .nil, List.nil_subset _⟩
    | cons p rest ih =>
      obtain ⟨⟨w, found, related⟩, each⟩ := List.forall_mem_cons.mp each
      obtain ⟨r, matched, inside⟩ := ih each
      exact ⟨(p.1, w) :: r, .cons (.intro p.1 related) matched, List.cons_subset.mpr ⟨mem_of_find? found, inside⟩⟩
  obtain ⟨r, matched, inside⟩ := chosen
  have unique : r.Nodup := by
    rw [keys_of_matches matched] at distinct
    exact distinct.of_map Prod.fst
  -- `r` lies in `n` without repetition and is as long, so it is all of `n`
  refine ⟨r, matched, (List.subperm_of_subset unique inside).perm_of_length_le (Nat.le_of_eq ?_)⟩
  rw [← lengths, matched.length_eq]

theorem rearranged_of_keywise {same : α → β → Bool} {all : Members α → Members β → Bool} (members : Keywise same all)
    {m : Members α} {n : Members β} (distinct : (keys m).Nodup) (equal : (m.length == n.length && all m n) = true) :
    Rearranged (Matches fun v w => same v w = true) m n := by
  rw [Bool.and_eq_true, beq_iff_eq, members.iff] at equal
  exact rearranged_of_find? distinct equal.1 equal.2

end Members

end LeafPlan
