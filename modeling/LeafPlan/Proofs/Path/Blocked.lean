import LeafPlan.Proofs.Path.Writes

/-!
# Values in the way of a write

A write goes through nulls, objects and what is missing. Any other value on its way makes it fail, and
then nothing changes (`Path.set_succeeds_or_keeps`). No write puts a value in the way of one that parts from it, so
of a run of writes that part pairwise the one to fail is the first that was blocked before the run.
-/

namespace LeafPlan

namespace Json

/-- The value is an object, or a null that a write makes one. -/
def Opens : Json → Prop
  | .null => True
  | .object _ => True
  | _ => False

theorem slots?_eq_none_iff {d : Json} : d.slots? = none ↔ ¬ d.Opens := by
  cases d <;> simp [slots?, Opens]

end Json

namespace Path

/-- The path `q` ends short of `p`, at a value that does not open. -/
def Blocks (q p : Path) (d : Json) : Prop := q <+: p ∧ q ≠ p ∧ ∃ e, find? q d = some e ∧ ¬ e.Opens

/-- Every proper prefix of the path leads to nothing, to a null or to an object. -/
def Settable (p : Path) (d : Json) : Prop :=
  ∀ q : Path, q <+: p → q ≠ p → ∀ e, find? q d = some e → e.Opens

theorem settable_iff {p : Path} {d : Json} : Settable p d ↔ ∀ q, ¬ Blocks q p d := by
  simp only [Settable, Blocks, not_and, not_exists, Classical.not_not]

/-! ### One write -/

/-- A write that is blocked changes nothing. -/
theorem set_of_blocks {q p : Path} {d : Json} (blocks : Blocks q p d) (v : Json) :
    set v p d = ⟨d, some (.notObject q)⟩ := by
  induction p generalizing q d with
  | nil => exact (blocks.2.1 (List.prefix_nil.mp blocks.1)).elim
  | cons k p ih =>
    obtain ⟨within, proper, e, found, closed⟩ := blocks
    cases q with
    | nil =>
      obtain rfl := Option.some.inj found
      exact set_cons_of_closed (Json.slots?_eq_none_iff.mpr closed) v k p
    | cons j q =>
      obtain ⟨rfl, shorter⟩ := List.cons_prefix_cons.mp within
      rw [find?_document] at found
      obtain ⟨c, child, below⟩ := Option.bind_eq_some_iff.mp found
      obtain ⟨members, rfl, here⟩ := Json.slots?_of_child? child
      have inside := ih ⟨shorter, fun same => proper (congrArg (j :: ·) same), e, below, closed⟩
      -- the child stays as it is, and so does the object that it is put back into
      rw [set_cons rfl, here, Option.getD_some, inside]
      simp only [Members.insert_of_find? here]
      rfl

theorem blocks_of_stopped {p : Path} {v d : Json} {e : AccessError} (stopped : (set v p d).stopped = some e) :
    ∃ q, e = .notObject q ∧ Blocks q p d := by
  induction p generalizing d e with
  | nil => cases stopped
  | cons k p ih =>
    cases slots : d.slots? with
    | none =>
      rw [set_cons_of_closed slots] at stopped
      obtain rfl := Option.some.inj stopped
      exact ⟨[], rfl, List.nil_prefix, (List.cons_ne_nil k p).symm, d, rfl, Json.slots?_eq_none_iff.mp slots⟩
    | some members =>
      rw [set_cons slots] at stopped
      obtain ⟨inner, failed, rfl⟩ := Option.map_eq_some_iff.mp stopped
      obtain ⟨q, rfl, within, proper, e, found, closed⟩ := ih failed
      refine ⟨k :: q, rfl, List.cons_prefix_cons.mpr ⟨rfl, within⟩, fun same => proper (List.cons.inj same).2,
        e, ?_, closed⟩
      rw [find?_document, Json.child?_of_slots? slots]
      cases here : Members.find? k members with
      | some c =>
        rw [here] at found
        exact found
      | none =>
        -- a member that is missing is made, so nothing below it was in the way
        rw [here] at found
        cases q with
        | nil =>
          obtain rfl := Option.some.inj found
          exact (closed trivial).elim
        | cons j q => cases found

theorem set_stopped_iff {p : Path} {v d : Json} : (set v p d).stopped = none ↔ Settable p d := by
  rw [settable_iff]
  constructor
  · intro done q blocks
    rw [set_of_blocks blocks] at done
    cases done
  · intro clear
    cases stopped : (set v p d).stopped with
    | none => rfl
    | some e =>
      obtain ⟨q, -, blocks⟩ := blocks_of_stopped stopped
      exact (clear q blocks).elim

theorem Blocks.unique {q r p : Path} {d : Json} (left : Blocks q p d) (right : Blocks r p d) : q = r := by
  have outcome := (set_of_blocks left .null).symm.trans (set_of_blocks right .null)
  simpa using outcome

theorem Settable.after {p : Path} {d : Json} (settable : Settable p d) (v : Json) :
    Settable p (set v p d).document := by
  have written : find? p (set v p d).document = some v := find?_set (set_stopped_iff.mpr settable)
  exact set_stopped_iff.mp (congrArg Edited.stopped (set_of_find? written))

/-- What blocks one of two writes that part is the same before and behind the other. -/
theorem blocks_set_iff {p q r : Path} (apart : Apart p q) (v d : Json) :
    Blocks r q (set v p d).document ↔ Blocks r q d := by
  cases stopped : (set v p d).stopped with
  | some e =>
    obtain ⟨s, -, blocks⟩ := blocks_of_stopped stopped
    rw [set_of_blocks blocks]
  | none =>
    have settable := set_stopped_iff.mp stopped
    refine and_congr_right fun within => and_congr_right fun _ => ?_
    by_cases shared : r <+: p
    · -- on the way that the two share nothing is closed before the write, and nothing is behind it
      have proper : r ≠ p := by
        rintro rfl
        exact apart.1 within
      have before := settable_iff.mp settable r
      have behind := settable_iff.mp (settable.after v) r
      rw [Blocks] at before behind
      constructor
      · exact fun closed => (behind ⟨shared, proper, closed⟩).elim
      · exact fun closed => (before ⟨shared, proper, closed⟩).elim
    · have parts : Apart p r := ⟨fun longer => apart.1 (longer.trans within), shared⟩
      rw [find?_set_of_apart parts]

theorem settable_set_iff {p q : Path} (apart : Apart p q) (v d : Json) :
    Settable q (set v p d).document ↔ Settable q d := by
  simp only [settable_iff, blocks_set_iff apart]

/-- A write succeeds if every proper prefix of its path leads to nothing, to a null or to an object. Else it tells
the shortest prefix that leads to another value, and the document stays as it was: nothing is made, no null opens. -/
theorem set_succeeds_or_keeps (p : Path) (v d : Json) :
    ((set v p d).stopped = none ↔ p.Settable d) ∧
    (¬ p.Settable d →
      ∃ q, q.Blocks p d ∧ (∀ r : Path, r.Blocks p d → q.length ≤ r.length) ∧
        set v p d = ⟨d, some (.notObject q)⟩ ∧
        (AccessError.notObject q).message = s!"cannot descend into non-object value at `{q.display}`" ∧
        (q = [] → q.display = "<root>") ∧ (q ≠ [] → q.display = ".".intercalate q)) := by
  refine ⟨set_stopped_iff, fun blocked => ?_⟩
  have met : ∃ q, Blocks q p d := not_forall_not.mp (mt settable_iff.mpr blocked)
  obtain ⟨q, blocks⟩ := met
  have shortest (r : Path) (other : r.Blocks p d) : q.length ≤ r.length :=
    Nat.le_of_eq (congrArg List.length (blocks.unique other))
  exact ⟨q, blocks, shortest, set_of_blocks blocks v, AccessError.message_notObject q,
    fun root => root ▸ display_nil, display_of_ne_nil⟩

/-- The list under `b` is in the way of the first path, the null is not in the way of the second one. -/
theorem set_succeeds_or_keeps_list :
    let d : Json := .object [("n", .null), ("a", .object [("b", .array [.null])])]
    let p : Path := ["a", "b", "c", "d"]
    ¬ p.Settable d ∧ (∃ q, q.Blocks p d ∧ set (.bool true) p d = ⟨d, some (.notObject q)⟩) ∧
      set (.bool true) p d = ⟨d, some (.notObject ["a", "b"])⟩ ∧
      (AccessError.notObject ["a", "b"]).message = "cannot descend into non-object value at `a.b`" ∧
      Settable ["n", "c", "d"] d ∧ (set (.bool true) ["n", "c", "d"] d).stopped = none := by
  intro d p
  have result : set (.bool true) p d = ⟨d, some (.notObject ["a", "b"])⟩ := rfl
  obtain ⟨succeeds, fails⟩ := set_succeeds_or_keeps p (.bool true) d
  have blocked : ¬ p.Settable d := by
    rw [← succeeds, result]
    exact Option.some_ne_none _
  obtain ⟨q, blocks, -, kept, -, -, named⟩ := fails blocked
  obtain rfl : q = ["a", "b"] := by
    have stopped := congrArg Edited.stopped (kept.symm.trans result)
    exact AccessError.notObject.inj (Option.some.inj stopped)
  have shown : Path.display ["a", "b"] = "a.b" := named (by decide)
  have message : (AccessError.notObject ["a", "b"]).message = "cannot descend into non-object value at `a.b`" := by
    rw [AccessError.message_notObject, shown]
    rfl
  have through : (set (.bool true) ["n", "c", "d"] d).stopped = none := rfl
  exact ⟨blocked, ⟨_, blocks, kept⟩, result, message, (set_succeeds_or_keeps _ _ d).1.mp through, through⟩

/-! ### Runs of writes -/

theorem setAll_stopped_iff {writes : List (Path × Json)} {d : Json}
    (apart : writes.Pairwise fun w u => Apart w.1 u.1) :
    (setAll writes d).stopped = none ↔ ∀ w ∈ writes, Settable w.1 d := by
  induction writes generalizing d with
  | nil => simp [setAll]
  | cons w rest ih =>
    obtain ⟨p, v⟩ := w
    obtain ⟨first, apart⟩ := List.pairwise_cons.mp apart
    rw [List.forall_mem_cons]
    cases written : (set v p d).stopped with
    | none =>
      rw [setAll_cons_of_done written, ih apart]
      have frame (u) (member : u ∈ rest) := settable_set_iff (first u member) v d
      rw [forall₂_congr frame, and_iff_right (set_stopped_iff.mp written)]
    | some e =>
      have blocked : ¬ Settable p d := by
        rw [← set_stopped_iff, written]
        exact Option.some_ne_none e
      rw [setAll_cons_of_stopped written, set_stopped_iff]
      exact iff_of_false blocked fun settable => blocked settable.1

/-- The writes in front of the one that fails are done as if they were alone. -/
theorem setAll_of_stopped {writes : List (Path × Json)} {d : Json}
    (apart : writes.Pairwise fun w u => Apart w.1 u.1) {e : AccessError}
    (stopped : (setAll writes d).stopped = some e) :
    ∃ i p v q, writes[i]? = some (p, v) ∧ (∀ w ∈ writes.take i, Settable w.1 d) ∧ e = .notObject q ∧
      Blocks q p d ∧ setAll (writes.take i) d = ⟨(setAll writes d).document, none⟩ := by
  induction writes generalizing d with
  | nil => cases stopped
  | cons w rest ih =>
    obtain ⟨p, v⟩ := w
    obtain ⟨first, apart⟩ := List.pairwise_cons.mp apart
    cases written : (set v p d).stopped with
    | some failure =>
      rw [setAll_cons_of_stopped written] at stopped ⊢
      obtain ⟨q, rfl, blocks⟩ := blocks_of_stopped stopped
      rw [set_of_blocks blocks]
      exact ⟨0, p, v, q, rfl, List.forall_mem_nil _, rfl, blocks, rfl⟩
    | none =>
      rw [setAll_cons_of_done written] at stopped ⊢
      obtain ⟨i, s, u, q, here, before, rfl, blocks, alone⟩ := ih apart stopped
      -- the first write parts from all others, so what they meet is what was there before it
      have apartHere : Apart p s := first _ (List.mem_of_getElem? here)
      refine ⟨i + 1, s, u, q, here, ?_, rfl, (blocks_set_iff apartHere v d).mp blocks, ?_⟩
      · rw [List.take_succ_cons, List.forall_mem_cons]
        refine ⟨set_stopped_iff.mp written, fun w member => ?_⟩
        exact (settable_set_iff (first w (List.mem_of_mem_take member)) v d).mp (before w member)
      · rw [List.take_succ_cons, setAll_cons_of_done written, alone]

end Path

end LeafPlan
