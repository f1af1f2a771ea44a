import LeafPlan.Proofs.Path.Lens

/-!
# Runs of writes

`Path.setAll` writes values at paths one after another, until one write fails. Along paths that part
pairwise no write is lost; writes below one key amount to one write at that key.
-/

namespace LeafPlan.Path

/-- Writes each value at its path. What was written before a failure stays. -/
def setAll : List (Path × Json) → Json → Edited
  | [], d => ⟨d, none⟩
  | (p, v) :: rest, d =>
    match set v p d with
    | ⟨d, none⟩ => setAll rest d
    | stopped => stopped

theorem setAll_cons_of_done {p : Path} {v d : Json} (done : (set v p d).stopped = none)
    (rest : List (Path × Json)) : setAll ((p, v) :: rest) d = setAll rest (set v p d).document := by
  rw [setAll]
  generalize set v p d = written at done ⊢
  obtain ⟨document, stopped⟩ := written
  obtain rfl : stopped = none := done
  rfl

theorem setAll_cons_of_stopped {p : Path} {v d : Json} {e : AccessError} (stopped : (set v p d).stopped = some e)
    (rest : List (Path × Json)) : setAll ((p, v) :: rest) d = set v p d := by
  rw [setAll]
  generalize set v p d = written at stopped ⊢
  obtain ⟨document, failure⟩ := written
  obtain rfl : failure = some e := stopped
  rfl

theorem setAll_singleton (p : Path) (v d : Json) : setAll [(p, v)] d = set v p d := by
  cases written : (set v p d).stopped with
  | none =>
    rw [setAll_cons_of_done written, setAll, ← written]
  | some e => exact setAll_cons_of_stopped written []

theorem setAll_append_of_done {s : List (Path × Json)} {d : Json} (done : (setAll s d).stopped = none)
    (t : List (Path × Json)) : setAll (s ++ t) d = setAll t (setAll s d).document := by
  induction s generalizing d with
  | nil => rfl
  | cons w s ih =>
    obtain ⟨p, v⟩ := w
    rw [List.cons_append]
    cases written : (set v p d).stopped with
    | none =>
      rw [setAll_cons_of_done written] at done ⊢
      rw [setAll_cons_of_done written, ih done]
    | some e =>
      rw [setAll_cons_of_stopped written, written] at done
      cases done

/-! ### Writes that part -/

theorem find?_setAll_of_apart {writes : List (Path × Json)} {q : Path} (apart : ∀ w ∈ writes, Apart w.1 q)
    (d : Json) : find? q (setAll writes d).document = find? q d := by
  induction writes generalizing d with
  | nil => rfl
  | cons w rest ih =>
    obtain ⟨p, v⟩ := w
    obtain ⟨here, below⟩ := List.forall_mem_cons.mp apart
    cases written : (set v p d).stopped with
    | none => rw [setAll_cons_of_done written, ih below, find?_set_of_apart here]
    | some e => rw [setAll_cons_of_stopped written, find?_set_of_apart here]

theorem find?_setAll {writes : List (Path × Json)} {d : Json}
    (apart : writes.Pairwise fun w u => Apart w.1 u.1) (done : (setAll writes d).stopped = none) :
    ∀ w ∈ writes, find? w.1 (setAll writes d).document = some w.2 := by
  induction writes generalizing d with
  | nil => exact fun w member => nomatch member
  | cons w rest ih =>
    obtain ⟨p, v⟩ := w
    obtain ⟨first, apart⟩ := List.pairwise_cons.mp apart
    cases written : (set v p d).stopped with
    | some e =>
      rw [setAll_cons_of_stopped written, written] at done
      cases done
    | none =>
      rw [setAll_cons_of_done written] at done ⊢
      refine List.forall_mem_cons.mpr ⟨?_, ih apart done⟩
      rw [find?_setAll_of_apart fun u member => (first u member).symm, find?_set written]

theorem setAll_of_find? {writes : List (Path × Json)} {d : Json}
    (found : ∀ w ∈ writes, find? w.1 d = some w.2) : setAll writes d = ⟨d, none⟩ := by
  induction writes with
  | nil => rfl
  | cons w rest ih =>
    obtain ⟨p, v⟩ := w
    obtain ⟨here, found⟩ := List.forall_mem_cons.mp found
    have unchanged := set_of_find? here
    rw [setAll_cons_of_done (by rw [unchanged]), unchanged]
    exact ih found

/-! ### Writes below one key -/

/-- The writes seen from the object that holds the written document under `k`. -/
def below (k : String) (writes : List (Path × Json)) : List (Path × Json) :=
  writes.map fun w => (k :: w.1, w.2)

/-- The first write opens the object; the others find what it left under the key. -/
theorem setAll_below {k : String} {writes : List (Path × Json)} (nonempty : writes ≠ [])
    {d : Json} {members : Members Json} (slots : d.slots? = some members) :
    setAll (below k writes) d =
      let inner := setAll writes ((Members.find? k members).getD .null)
      ⟨.object (Members.insert k inner.document members), inner.stopped.map (AccessError.under k)⟩ := by
  induction writes generalizing d members with
  | nil => exact (nonempty rfl).elim
  | cons w rest ih =>
    obtain ⟨p, v⟩ := w
    have first := set_cons slots v k p
    have outcome := congrArg Edited.stopped first
    rw [below, List.map_cons]
    cases written : (set v p ((Members.find? k members).getD .null)).stopped with
    | some e =>
      have stopped := outcome.trans (congrArg (Option.map (AccessError.under k)) written)
      rw [setAll_cons_of_stopped stopped, setAll_cons_of_stopped written, first]
    | none =>
      have done := outcome.trans (congrArg (Option.map (AccessError.under k)) written)
      rw [setAll_cons_of_done done, setAll_cons_of_done written, first]
      cases rest with
      | nil => rfl
      | cons u rest =>
        rw [← below, ih (List.cons_ne_nil u rest) rfl, Members.find?_insert_self]
        simp only [Option.getD_some, Members.insert_insert]

theorem setAll_of_slots {writes : List (Path × Json)} (nonempty : writes ≠ [])
    (inside : ∀ w ∈ writes, w.1 ≠ []) {d e : Json} {members : Members Json}
    (left : d.slots? = some members) (right : e.slots? = some members) : setAll writes d = setAll writes e := by
  cases writes with
  | nil => exact (nonempty rfl).elim
  | cons w rest =>
    obtain ⟨p, v⟩ := w
    cases p with
    | nil => exact (inside _ List.mem_cons_self rfl).elim
    | cons k p => rw [setAll, setAll, set_cons left, set_cons right]

end LeafPlan.Path
