import LeafPlan.Proofs.Json.Distinct
import LeafPlan.Proofs.Path.Blocked

/-!
# What writes keep

A write keeps every object that it does not replace: the keys of the object stay in their order, and a key that
is new stands behind them. A run of writes keeps what each of its writes keeps.
-/

namespace LeafPlan

namespace Json

theorem distinct_of_child? {d c : Json} {k : String} (distinct : d.Distinct) (found : d.child? k = some c) :
    c.Distinct := by
  obtain ⟨members, rfl, here⟩ := slots?_of_child? found
  exact (distinct_object.mp distinct).2 (k, c) (Members.mem_of_find? here)

theorem distinct_of_slots? {d : Json} {members : Members Json} (distinct : d.Distinct)
    (slots : d.slots? = some members) : (Json.object members).Distinct := by
  cases d with
  | null =>
    obtain rfl := Option.some.inj slots
    exact distinct_object.mpr ⟨List.nodup_nil, fun m member => nomatch member⟩
  | object own =>
    obtain rfl := Option.some.inj slots
    exact distinct
  | _ => cases slots

theorem distinct_insert {k : String} {v : Json} {members : Members Json} (distinct : (Json.object members).Distinct)
    (value : v.Distinct) : (Json.object (Members.insert k v members)).Distinct := by
  obtain ⟨unique, below⟩ := distinct_object.mp distinct
  refine distinct_object.mpr ⟨Members.nodup_keys_insert k v unique, ?_⟩
  intro m member
  rcases Members.mem_insert member with rfl | old
  · exact value
  · exact below m old

end Json

namespace Path

/-! ### One write -/

theorem distinct_of_find? {p : Path} {d v : Json} (distinct : d.Distinct) (found : find? p d = some v) :
    v.Distinct := by
  induction p generalizing d with
  | nil =>
    obtain rfl := Option.some.inj found
    exact distinct
  | cons k p ih =>
    rw [find?_document] at found
    obtain ⟨c, child, below⟩ := Option.bind_eq_some_iff.mp found
    exact ih (Json.distinct_of_child? distinct child) below

theorem distinct_set {p : Path} {v d : Json} (distinct : d.Distinct) (value : v.Distinct) :
    (set v p d).document.Distinct := by
  induction p generalizing d with
  | nil => exact value
  | cons k p ih =>
    cases slots : d.slots? with
    | none =>
      rw [set_cons_of_closed slots]
      exact distinct
    | some members =>
      rw [set_cons slots]
      have opened := Json.distinct_of_slots? distinct slots
      refine Json.distinct_insert opened (ih ?_)
      cases here : Members.find? k members with
      | none => trivial
      | some c => exact (Json.distinct_object.mp opened).2 (k, c) (Members.mem_of_find? here)

/-- An object at `r` is one still, and its keys stand in front of those that have come. -/
def Keeps (r : Path) (d e : Json) : Prop :=
  ∀ members, find? r d = some (.object members) →
    ∃ later, find? r e = some (.object later) ∧ Members.keys members <+: Members.keys later

theorem Keeps.refl (r : Path) (d : Json) : Keeps r d d :=
  fun members found => ⟨members, found, List.prefix_rfl⟩

theorem Keeps.trans {r : Path} {c d e : Json} (first : Keeps r c d) (second : Keeps r d e) : Keeps r c e := by
  intro members found
  obtain ⟨between, there, front⟩ := first members found
  obtain ⟨later, behind, longer⟩ := second between there
  exact ⟨later, behind, front.trans longer⟩

theorem keeps_of_find? {r : Path} {d e : Json} (same : find? r e = find? r d) : Keeps r d e :=
  fun members found => ⟨members, same.trans found, List.prefix_rfl⟩

/-- A write that leads through a value is a write into that value. -/
theorem find?_set_through {r s : Path} {v d c : Json} (found : find? r d = some c) :
    find? r (set v (r ++ s) d).document = some (set v s c).document := by
  induction r generalizing d with
  | nil =>
    obtain rfl := Option.some.inj found
    rfl
  | cons k r ih =>
    rw [find?_document] at found
    obtain ⟨b, child, below⟩ := Option.bind_eq_some_iff.mp found
    obtain ⟨members, rfl, here⟩ := Json.slots?_of_child? child
    rw [List.cons_append, set_cons rfl, find?_document, Json.child?, Members.find?_insert_self, here]
    exact ih below

/-- A write keeps the objects that are not at its path or below it. -/
theorem keeps_set {p r : Path} (outside : ¬ p <+: r) (v d : Json) : Keeps r d (set v p d).document := by
  by_cases above : r <+: p
  · obtain ⟨s, rfl⟩ := above
    intro members found
    cases s with
    | nil =>
      rw [List.append_nil] at outside
      exact (outside List.prefix_rfl).elim
    | cons k s =>
      rw [find?_set_through found, set_cons rfl]
      exact ⟨_, rfl, Members.keys_prefix_insert k _ members⟩
  · exact keeps_of_find? (find?_set_of_apart ⟨outside, above⟩ v d)

/-! ### Runs of writes -/

/-- The paths of the writes in front of the first one that fails. -/
def landed : List (Path × Json) → Json → List Path
  | [], _ => []
  | (p, v) :: rest, d =>
    match set v p d with
    | ⟨d, none⟩ => p :: landed rest d
    | _ => []

theorem landed_cons_of_done {p : Path} {v d : Json} (done : (set v p d).stopped = none)
    (rest : List (Path × Json)) : landed ((p, v) :: rest) d = p :: landed rest (set v p d).document := by
  rw [landed]
  generalize set v p d = written at done ⊢
  obtain ⟨document, stopped⟩ := written
  obtain rfl : stopped = none := done
  rfl

theorem document_of_stopped {p : Path} {v d : Json} {e : AccessError} (stopped : (set v p d).stopped = some e) :
    (set v p d).document = d := by
  obtain ⟨q, -, blocks⟩ := blocks_of_stopped stopped
  rw [set_of_blocks blocks]

/-- Writes at the paths with `P` take every document to one that `R` relates it to. -/
structure Framed (P : Path → Prop) (R : Json → Json → Prop) : Prop where
  refl : ∀ d, R d d
  trans : ∀ {c d e}, R c d → R d e → R c e
  write : ∀ {p}, P p → ∀ v d, R d (set v p d).document

theorem framed_find? (q : Path) : Framed (fun p => Apart p q) fun d e => find? q e = find? q d where
  refl _ := rfl
  trans first second := second.trans first
  write apart := find?_set_of_apart apart

theorem framed_keeps (r : Path) : Framed (fun p => ¬ p <+: r) (Keeps r) where
  refl := Keeps.refl r
  trans := Keeps.trans
  write := keeps_set

/-- A write that fails changes nothing, so only those before it have to be at paths with `P`. -/
theorem Framed.setAll {P : Path → Prop} {R : Json → Json → Prop} (framed : Framed P R) {writes : List (Path × Json)}
    {d : Json} (inside : ∀ p ∈ landed writes d, P p) : R d (setAll writes d).document := by
  induction writes generalizing d with
  | nil => exact framed.refl d
  | cons w rest ih =>
    obtain ⟨p, v⟩ := w
    cases written : (set v p d).stopped with
    | none =>
      rw [landed_cons_of_done written, List.forall_mem_cons] at inside
      rw [setAll_cons_of_done written]
      exact framed.trans (framed.write inside.1 v d) (ih inside.2)
    | some e =>
      rw [setAll_cons_of_stopped written, document_of_stopped written]
      exact framed.refl d

theorem distinct_setAll {writes : List (Path × Json)} {d : Json} (distinct : d.Distinct)
    (values : ∀ w ∈ writes, w.2.Distinct) : (setAll writes d).document.Distinct := by
  induction writes generalizing d with
  | nil => exact distinct
  | cons w rest ih =>
    obtain ⟨p, v⟩ := w
    obtain ⟨value, values⟩ := List.forall_mem_cons.mp values
    have here := distinct_set (p := p) distinct value
    cases written : (set v p d).stopped with
    | none =>
      rw [setAll_cons_of_done written]
      exact ih here values
    | some e =>
      rw [setAll_cons_of_stopped written]
      exact here

end Path

end LeafPlan
