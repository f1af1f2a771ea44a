import Mathlib.Data.List.Forall2

/-!
# Results taken apart

When a computation that may fail has a result, and what its parts have then; when it fails, and which of its parts
fails first.
-/

namespace LeafPlan

variable {ε δ α β : Type}

theorem bind_eq_ok_iff {x : Except ε α} {f : α → Except ε β} {b : β} :
    x >>= f = .ok b ↔ ∃ a, x = .ok a ∧ f a = .ok b := by
  cases x with
  | error e => exact iff_of_false nofun nofun
  | ok a =>
    constructor
    · exact fun result => ⟨a, rfl, result⟩
    · rintro ⟨c, same, result⟩
      obtain rfl := Except.ok.inj same
      exact result

theorem bind_eq_error_iff {x : Except ε α} {f : α → Except ε β} {e : ε} :
    x >>= f = .error e ↔ x = .error e ∨ ∃ a, x = .ok a ∧ f a = .error e := by
  cases x with
  | error d =>
    constructor
    · exact fun stopped => Or.inl (congrArg _ (Except.error.inj stopped))
    · rintro (here | ⟨a, passed, -⟩)
      · exact congrArg _ (Except.error.inj here)
      · cases passed
  | ok a =>
    constructor
    · exact fun stopped => Or.inr ⟨a, rfl, stopped⟩
    · rintro (here | ⟨b, passed, stopped⟩)
      · cases here
      · obtain rfl := Except.ok.inj passed
        exact stopped

theorem bind_congr_of_ok {x : Except ε α} {f g : α → Except ε β} (same : ∀ a, x = .ok a → f a = g a) :
    x >>= f = x >>= g := by
  cases x with
  | error e => rfl
  | ok a => exact same a rfl

theorem pure_eq_ok_iff {a b : α} : (pure a : Except ε α) = .ok b ↔ a = b :=
  ⟨Except.ok.inj, congrArg _⟩

theorem exists_bind_pure_eq_ok_iff {x : Except ε α} {g : α → β} :
    (∃ b, (do return g (← x)) = (.ok b : Except ε β)) ↔ ∃ a, x = .ok a := by
  simp only [bind_eq_ok_iff, pure_eq_ok_iff]
  constructor
  · rintro ⟨_, a, passed, rfl⟩
    exact ⟨a, passed⟩
  · rintro ⟨a, passed⟩
    exact ⟨_, a, passed, rfl⟩

theorem bind_pure_eq_error_iff {x : Except ε α} {g : α → β} {e : ε} :
    (do return g (← x)) = (.error e : Except ε β) ↔ x = .error e :=
  bind_eq_error_iff.trans (or_iff_left nofun)

theorem mapError_eq_ok_iff {x : Except ε α} {f : ε → δ} {a : α} : x.mapError f = .ok a ↔ x = .ok a := by
  cases x with
  | error e => exact iff_of_false nofun nofun
  | ok b => exact ⟨fun result => congrArg _ (Except.ok.inj result), fun result => congrArg _ (Except.ok.inj result)⟩

theorem mapError_eq_error_iff {x : Except ε α} {f : ε → δ} {e : δ} :
    x.mapError f = .error e ↔ ∃ d, x = .error d ∧ e = f d := by
  cases x with
  | error d =>
    constructor
    · exact fun stopped => ⟨d, rfl, (Except.error.inj stopped).symm⟩
    · rintro ⟨c, here, rfl⟩
      rw [Except.error.inj here]
      rfl
  | ok a => exact iff_of_false nofun fun ⟨_, failed, _⟩ => nomatch failed

theorem mapM_eq_ok_iff {f : α → Except ε β} {xs : List α} {ys : List β} :
    xs.mapM f = .ok ys ↔ List.Forall₂ (fun x y => f x = .ok y) xs ys := by
  induction xs generalizing ys with
  | nil =>
    rw [List.forall₂_nil_left_iff, eq_comm]
    exact ⟨Except.ok.inj, congrArg _⟩
  | cons x xs ih =>
    rw [List.mapM_cons, List.forall₂_cons_left_iff]
    simp only [bind_eq_ok_iff, pure_eq_ok_iff, ih]
    constructor
    · rintro ⟨y, here, ys, below, rfl⟩
      exact ⟨y, ys, here, below, rfl⟩
    · rintro ⟨y, ys, here, below, rfl⟩
      exact ⟨y, here, ys, below, rfl⟩

theorem exists_mapM_eq_ok_iff {f : α → Except ε β} {xs : List α} :
    (∃ ys, xs.mapM f = .ok ys) ↔ ∀ x ∈ xs, ∃ y, f x = .ok y := by
  induction xs with
  | nil => exact ⟨fun _ x member => (List.not_mem_nil member).elim, fun _ => ⟨[], rfl⟩⟩
  | cons x xs ih =>
    rw [List.forall_mem_cons, ← ih]
    simp only [mapM_eq_ok_iff, List.forall₂_cons_left_iff]
    constructor
    · rintro ⟨_, y, ys, here, below, rfl⟩
      exact ⟨⟨y, here⟩, ys, below⟩
    · rintro ⟨⟨y, here⟩, ys, below⟩
      exact ⟨_, y, ys, here, below, rfl⟩

/-- The error of a list that is read item by item is that of the first item with one. -/
theorem mapM_eq_error_iff {f : α → Except ε β} {xs : List α} {e : ε} :
    xs.mapM f = .error e ↔
      ∃ before x after, xs = before ++ x :: after ∧ (∀ y ∈ before, ∃ b, f y = .ok b) ∧ f x = .error e := by
  induction xs with
  | nil =>
    refine iff_of_false nofun ?_
    rintro ⟨before, x, after, split, -⟩
    exact List.append_ne_nil_of_right_ne_nil before (List.cons_ne_nil x after) split.symm
  | cons x xs ih =>
    rw [List.mapM_cons, bind_eq_error_iff]
    constructor
    · rintro (stopped | ⟨b, here, below⟩)
      · exact ⟨[], x, xs, rfl, List.forall_mem_nil _, stopped⟩
      · obtain ⟨before, y, after, rfl, clear, stopped⟩ := ih.mp (bind_pure_eq_error_iff.mp below)
        exact ⟨x :: before, y, after, rfl, List.forall_mem_cons.mpr ⟨⟨b, here⟩, clear⟩, stopped⟩
    · rintro ⟨before, y, after, split, clear, stopped⟩
      cases before with
      | nil =>
        obtain ⟨rfl, rfl⟩ := List.cons.inj split
        exact Or.inl stopped
      | cons z before =>
        obtain ⟨rfl, rfl⟩ := List.cons.inj split
        obtain ⟨⟨b, here⟩, clear⟩ := List.forall_mem_cons.mp clear
        have failed := ih.mpr ⟨before, y, after, rfl, clear, stopped⟩
        exact Or.inr ⟨b, here, bind_pure_eq_error_iff.mpr failed⟩

theorem mapM_congr {f g : α → Except ε β} {xs : List α} (same : ∀ x ∈ xs, f x = g x) : xs.mapM f = xs.mapM g := by
  induction xs with
  | nil => rfl
  | cons x xs ih =>
    obtain ⟨here, same⟩ := List.forall_mem_cons.mp same
    rw [List.mapM_cons, List.mapM_cons, here, ih same]

end LeafPlan
