import LeafPlan.Path.Edit
import LeafPlan.Proofs.Members

/-!
# Reading behind a write

`Path.find?` sees the value that `Path.set` wrote, and what it saw before at every path that parts from
the written one. Writing the value that is there changes nothing. `Path.set_find_lens` has the laws of the two
together: documents are equal there with the order of their members.
-/

namespace LeafPlan

namespace Json

theorem slots?_of_child? {d c : Json} {k : String} (found : d.child? k = some c) :
    ∃ members, d = .object members ∧ Members.find? k members = some c := by
  cases d with
  | object members => exact ⟨members, rfl, found⟩
  | _ => cases found

theorem child?_of_slots? {d : Json} {members : Members Json} (slots : d.slots? = some members) (k : String) :
    d.child? k = Members.find? k members := by
  cases d with
  | null =>
    obtain rfl := Option.some.inj slots
    rfl
  | object own =>
    obtain rfl := Option.some.inj slots
    rfl
  | _ => cases slots

end Json

namespace Path

/-! ### Looking up -/

section

variable {α : Type} [Branching α]

theorem find?_cons (k : String) (p : Path) (x : α) :
    find? (k :: p) x = (Branching.child? x k).bind (find? p) := by
  rw [find?]
  cases Branching.child? x k <;> rfl

theorem find?_append (p q : Path) (x : α) : find? (p ++ q) x = (find? p x).bind (find? q) := by
  induction p generalizing x with
  | nil => rfl
  | cons k p ih =>
    rw [List.cons_append, find?_cons, find?_cons, Option.bind_assoc]
    exact congrArg _ (funext ih)

end

theorem find?_document (k : String) (p : Path) (d : Json) :
    find? (k :: p) d = (d.child? k).bind (find? p) :=
  find?_cons k p d

/-- Whatever a path goes on from is an object. -/
theorem object_of_find?_append {q s : Path} {d v : Json} (further : s ≠ []) (found : find? (q ++ s) d = some v) :
    ∃ members, find? q d = some (.object members) := by
  rw [find?_append] at found
  obtain ⟨c, here, below⟩ := Option.bind_eq_some_iff.mp found
  cases s with
  | nil => exact (further rfl).elim
  | cons k s =>
    rw [find?_document] at below
    obtain ⟨b, child, -⟩ := Option.bind_eq_some_iff.mp below
    obtain ⟨members, rfl, -⟩ := Json.slots?_of_child? child
    exact ⟨members, here⟩

/-! ### Paths that part -/

/-- Neither path leads through the end of the other. -/
def Apart (p q : Path) : Prop := ¬ p <+: q ∧ ¬ q <+: p

theorem Apart.symm {p q : Path} (apart : Apart p q) : Apart q p := ⟨apart.2, apart.1⟩

theorem not_apart_nil (q : Path) : ¬ Apart [] q := fun apart => apart.1 List.nil_prefix

theorem apart_cons_iff {k j : String} {p q : Path} : Apart (k :: p) (j :: q) ↔ (k = j → Apart p q) := by
  simp only [Apart, List.cons_prefix_cons, not_and]
  constructor
  · rintro ⟨left, right⟩ same
    exact ⟨left same, right same.symm⟩
  · intro apart
    exact ⟨fun same => (apart same).1, fun same => (apart same.symm).2⟩

/-! ### One write -/

theorem set_cons {d : Json} {members : Members Json} (slots : d.slots? = some members) (v : Json)
    (k : String) (p : Path) :
    set v (k :: p) d =
      let below := set v p ((Members.find? k members).getD .null)
      ⟨.object (Members.insert k below.document members), below.stopped.map (AccessError.under k)⟩ := by
  rw [set, slots]

theorem set_cons_of_closed {d : Json} (closed : d.slots? = none) (v : Json) (k : String) (p : Path) :
    set v (k :: p) d = ⟨d, some (.notObject [])⟩ := by
  rw [set, closed]

theorem find?_set {v d : Json} {p : Path} (done : (set v p d).stopped = none) :
    find? p (set v p d).document = some v := by
  induction p generalizing d with
  | nil => rfl
  | cons k p ih =>
    cases slots : d.slots? with
    | none =>
      rw [set_cons_of_closed slots] at done
      cases done
    | some members =>
      rw [set_cons slots] at done ⊢
      have below := ih (Option.map_eq_none_iff.mp done)
      rw [find?_document, Json.child?, Members.find?_insert_self]
      exact below

/-- A write is not seen along a path that parts from the written one, even if it fails. -/
theorem find?_set_of_apart {p q : Path} (apart : Apart p q) (v d : Json) :
    find? q (set v p d).document = find? q d := by
  induction p generalizing q d with
  | nil => exact (not_apart_nil q apart).elim
  | cons k p ih =>
    cases q with
    | nil => exact (not_apart_nil _ apart.symm).elim
    | cons j q =>
      cases slots : d.slots? with
      | none => rw [set_cons_of_closed slots]
      | some members =>
        rw [set_cons slots, find?_document, find?_document, Json.child?_of_slots? slots, Json.child?]
        by_cases same : k = j
        · subst j
          rw [Members.find?_insert_self, Option.bind_some, ih (apart_cons_iff.mp apart rfl)]
          cases Members.find? k members with
          | some c => rfl
          | none =>
            -- `q` goes on below a null that the write opened
            cases q with
            | nil => exact (not_apart_nil _ (apart_cons_iff.mp apart rfl).symm).elim
            | cons => rfl
        · rw [Members.find?_insert_of_ne same]

theorem set_of_find? {v d : Json} {p : Path} (found : find? p d = some v) : set v p d = ⟨d, none⟩ := by
  induction p generalizing d with
  | nil =>
    obtain rfl := Option.some.inj found
    rfl
  | cons k p ih =>
    rw [find?_document] at found
    obtain ⟨c, child, below⟩ := Option.bind_eq_some_iff.mp found
    obtain ⟨members, rfl, here⟩ := Json.slots?_of_child? child
    rw [set_cons rfl, here, Option.getD_some, ih below]
    simp only [Members.insert_of_find? here, Option.map_none]

/-- Whether a write gets through, and what stops it, does not hang on the value. -/
theorem stopped_set_eq (v w : Json) (p : Path) (d : Json) : (set v p d).stopped = (set w p d).stopped := by
  induction p generalizing d with
  | nil => rfl
  | cons k p ih =>
    cases slots : d.slots? with
    | none => rw [set_cons_of_closed slots, set_cons_of_closed slots]
    | some members =>
      rw [set_cons slots, set_cons slots]
      exact congrArg (Option.map (AccessError.under k)) (ih _)

/-- Where a value is found, another one can be written. -/
theorem set_eq_of_find? {v d : Json} {p : Path} (found : find? p d = some v) (w : Json) :
    set w p d = ⟨(set w p d).document, none⟩ := by
  have done : (set w p d).stopped = none := by rw [stopped_set_eq w v, set_of_find? found]
  rw [← done]

/-- The second of two writes at a path is as if it were the only one. -/
theorem set_set (v w : Json) (p : Path) (d : Json) : set w p (set v p d).document = set w p d := by
  induction p generalizing d with
  | nil => rfl
  | cons k p ih =>
    cases slots : d.slots? with
    | none => rw [set_cons_of_closed slots]
    | some members =>
      -- the first write has opened the object, and the second finds its value under the key
      rw [set_cons slots, set_cons slots, set_cons rfl, Members.find?_insert_self, Option.getD_some, ih]
      simp only [Members.insert_insert]

theorem find?_set_below {v d : Json} {p : Path} (done : (set v p d).stopped = none) (r : Path) :
    find? (p ++ r) (set v p d).document = find? r v := by
  rw [find?_append, find?_set done, Option.bind_some]

/-- The place that a path leads to holds what is found there, and filling it writes at the path. -/
theorem place?_eq (p : Path) (d : Json) :
    place? p d = (find? p d).map fun v => ⟨v, fun w => (set w p d).document⟩ := by
  induction p generalizing d with
  | nil => rfl
  | cons k p ih =>
    cases d with
    | object members =>
      rw [place?, find?_document, Json.child?]
      cases here : Members.find? k members with
      | none => rfl
      | some c =>
        -- the object is made again around the child
        simp only [ih, Option.map_map, Option.bind_some, set_cons (d := .object members) rfl, here, Option.getD_some]
        rfl
    | _ => rfl

/-! ### Laws -/

/-- What is written at a path is found there, and below the path is found what the value holds. A second write has
the outcome that it would have had without the first. Writing what is found leaves the document as it is. -/
theorem set_find_lens (p : Path) (d : Json) :
    (∀ v, (set v p d).stopped = none →
      find? p (set v p d).document = some v ∧
      (∀ r : Path, find? (p ++ r) (set v p d).document = find? r v) ∧
      ∀ w, (set w p (set v p d).document).stopped = none ∧ set w p (set v p d).document = set w p d) ∧
    ∀ v, find? p d = some v → set v p d = ⟨d, none⟩ := by
  refine ⟨fun v done => ⟨find?_set done, find?_set_below done, fun w => ?_⟩, fun v found => set_of_find? found⟩
  have through : (set w p d).stopped = none := (stopped_set_eq w v p d).trans done
  rw [set_set]
  exact ⟨through, rfl⟩

/-- The null in the middle opens and keeps its place. -/
theorem set_find_lens_null :
    let d : Json := .object [("x", .bool true), ("a", .null), ("y", .array [])]
    let around (v : Json) : Json := .object [("x", .bool true), ("a", .object [("b", v)]), ("y", .array [])]
    let v : Json := .object [("c", .number (.int 1))]
    let p : Path := ["a", "b"]
    set v p d = ⟨around v, none⟩ ∧ find? p (around v) = some v ∧
      find? ["a", "b", "c"] (around v) = some (.number (.int 1)) ∧ find? ["a", "b", "e"] (around v) = none ∧
      set (.string "w") p (around v) = set (.string "w") p d ∧
      set (.string "w") p d = ⟨around (.string "w"), none⟩ ∧ set v p (around v) = ⟨around v, none⟩ := by
  intro d around v p
  have written : set v p d = ⟨around v, none⟩ := rfl
  obtain ⟨found, below, again⟩ := (set_find_lens p d).1 v (by rw [written])
  rw [written] at found below again
  have back := (set_find_lens p (around v)).2 v found
  exact ⟨written, found, below ["c"], below ["e"], (again (.string "w")).2, rfl, back⟩

end Path

end LeafPlan
