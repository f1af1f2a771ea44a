import LeafPlan.Proofs.Path.Kept
import LeafPlan.Proofs.Plan.PartialWrite
import LeafPlan.Session

/-!
# What a session leaves alone

Apart from a reset, a step of a session is a run of writes, which may stop early. By `replace_agrees_with_set` a value
that is there is replaced as a write at its path would replace it. `run_loses_no_update` says what a whole session
keeps: the values at paths that part from all the written ones, the keys of the objects that it does not replace, and
that no object holds a key twice.
-/

namespace LeafPlan

/-- The writes of one value to each leaf. With too few values or too many there is none. -/
def Plan.writes (plan : Plan) (values : List Json) : List (Path × Json) :=
  if values.length = plan.size then (plan.leaves.map Leaf.path).zip values else []

theorem Plan.document_write (plan : Plan) (values : List Json) (d : Json) :
    (plan.write values d).document = (Path.setAll (plan.writes values) d).document := by
  rw [writes]
  split
  · rename_i arity
    rw [write_of_length arity]
  · rename_i other
    rw [write_of_arity other]
    rfl

namespace Session

/-- The writes of a step, in their order. -/
def writes (plan : Plan) (d : Json) : Step → List (Path × Json)
  | .write values => plan.writes values
  | .copyFrom source => plan.writes ((plan.read source).map fun v => v.getD .null)
  | .replace path value => if (path.place? d).isSome then [(path, value)] else []
  | .set path value => [(path, value)]
  | _ => []

/-- The documents that a step brings along. -/
def documents : Step → List Json
  | .write values => values
  | .copyFrom source => [source]
  | .replace _ value | .set _ value => [value]
  | .reset document => [document]
  | _ => []

/-- The paths at which a run of steps writes. A write that fails is not among them. -/
def touched (plan : Plan) (d : Json) : List Step → List Path
  | [] => []
  | s :: rest => Path.landed (writes plan d s) d ++ touched plan (step plan d s).2 rest

variable {plan : Plan} {d : Json} {s : Step} {steps : List Step}

/-! ### One step -/

theorem document_step (stays : ∀ e, s ≠ .reset e) :
    (step plan d s).2 = (Path.setAll (writes plan d s) d).document := by
  cases s with
  | write values => exact Plan.document_write plan values d
  | copyFrom source => exact Plan.document_write plan _ d
  | set path value =>
    rw [writes, Path.setAll_singleton]
    rfl
  | replace path value =>
    rw [step, writes, Path.place?_eq]
    cases Path.find? path d with
    | none => rfl
    | some v =>
      show (Path.set value path d).document = _
      rw [Option.map_some, Option.isSome_some, if_pos rfl, Path.setAll_singleton]
  | reset e => exact (stays e rfl).elim
  | _ => rfl

/-- A path has a place in a document if and only if it finds a value there. That value is in the place, and filling
the place makes the document that a write at the path makes, which goes through. So a step that replaces what is
there and one that writes leave the same document, and where nothing is found the first of them changes nothing. -/
theorem replace_agrees_with_set (plan : Plan) (p : Path) (d : Json) :
    ((p.place? d).isSome ↔ (p.find? d).isSome) ∧
    (∀ place, p.place? d = some place →
      p.find? d = some place.value ∧ ∀ w, Path.set w p d = ⟨place.fill w, none⟩) ∧
    (∀ v, p.find? d = some v → ∀ w, ∃ e,
      step plan d (.replace p w) = (.old (some v), e) ∧ step plan d (.set p w) = (.done, e)) ∧
    (p.find? d = none → ∀ w, step plan d (.replace p w) = (.old none, d)) := by
  refine ⟨?_, fun place there => ?_, fun v found w => ?_, fun nothing w => ?_⟩
  · rw [Path.place?_eq, Option.isSome_map]
  · rw [Path.place?_eq] at there
    obtain ⟨v, found, rfl⟩ := Option.map_eq_some_iff.mp there
    exact ⟨found, Path.set_eq_of_find? found⟩
  · refine ⟨(Path.set w p d).document, ?_, ?_⟩
    · rw [step, Path.place?_eq, found]
      rfl
    · rw [step, Path.set_eq_of_find? found]
      rfl
  · rw [step, Path.place?_eq, nothing]
    rfl

/-- The null keeps its place between its neighbours, and nothing is entered below it. -/
theorem replace_agrees_with_set_null :
    let around (v : Json) : Json := .object [("a", .object [("x", .bool true), ("y", v), ("z", .array [])])]
    let w : Json := .string "new"
    Path.find? ["a", "y"] (around .null) = some .null ∧
      Path.set w ["a", "y"] (around .null) = ⟨around w, none⟩ ∧
      step Plan.invoice (around .null) (.replace ["a", "y"] w) = (.old (some .null), around w) ∧
      Path.find? ["a", "y", "0"] (around .null) = none ∧
      step Plan.invoice (around .null) (.replace ["a", "y", "0"] w) = (.old none, around .null) := by
  intro around w
  obtain ⟨-, filled, agree, -⟩ := replace_agrees_with_set Plan.invoice ["a", "y"] (around .null)
  obtain ⟨found, written⟩ := filled _ rfl
  obtain ⟨e, replaced, set⟩ := agree .null found w
  obtain rfl : around w = e := congrArg Prod.snd set
  have nothing : Path.find? ["a", "y", "0"] (around .null) = none := rfl
  have stays := (replace_agrees_with_set Plan.invoice ["a", "y", "0"] (around .null)).2.2.2 nothing w
  exact ⟨found, written w, replaced, nothing, stays⟩

theorem distinct_writes (documents : ∀ e ∈ documents s, e.Distinct) : ∀ w ∈ writes plan d s, w.2.Distinct := by
  have inside (values : List Json) (each : ∀ v ∈ values, v.Distinct) : ∀ w ∈ plan.writes values, w.2.Distinct := by
    intro w member
    rw [Plan.writes] at member
    split at member
    · exact each w.2 (List.of_mem_zip member).2
    · cases member
  cases s with
  | write values => exact inside values documents
  | copyFrom source =>
    refine inside _ fun v member => ?_
    obtain ⟨slot, read, rfl⟩ := List.mem_map.mp member
    obtain ⟨l, -, rfl⟩ := List.mem_map.mp read
    cases found : l.read? source with
    | none => trivial
    | some v => exact Path.distinct_of_find? (documents source List.mem_cons_self) found
  | set path value =>
    intro w member
    rw [List.mem_singleton.mp member]
    exact documents value List.mem_cons_self
  | replace path value =>
    intro w member
    rw [writes] at member
    split at member
    · rw [List.mem_singleton.mp member]
      exact documents value List.mem_cons_self
    · cases member
  | _ => exact fun w member => nomatch member

theorem distinct_step (distinct : d.Distinct) (documents : ∀ e ∈ documents s, e.Distinct) :
    (step plan d s).2.Distinct := by
  cases s with
  | reset e => exact documents e List.mem_cons_self
  | _ =>
    rw [document_step fun e same => by cases same]
    exact Path.distinct_setAll distinct (distinct_writes documents)

/-! ### Runs of steps -/

theorem run_framed {P : Path → Prop} {R : Json → Json → Prop} (framed : Path.Framed P R)
    (stays : ∀ e, .reset e ∉ steps) (inside : ∀ p ∈ touched plan d steps, P p) :
    ∀ a ∈ run plan d steps, R d a.2 := by
  induction steps generalizing d with
  | nil => exact fun a member => nomatch member
  | cons s rest ih =>
    rw [touched, List.forall_mem_append] at inside
    have here : R d (step plan d s).2 := by
      rw [document_step fun e is => stays e (is ▸ List.mem_cons_self)]
      exact framed.setAll inside.1
    refine List.forall_mem_cons.mpr ⟨here, fun a member => ?_⟩
    exact framed.trans here (ih (fun e later => stays e (List.mem_cons_of_mem _ later)) inside.2 a member)

theorem run_distinct (distinct : d.Distinct) (documents : ∀ s ∈ steps, ∀ e ∈ documents s, e.Distinct) :
    ∀ a ∈ run plan d steps, a.2.Distinct := by
  induction steps generalizing d with
  | nil => exact fun a member => nomatch member
  | cons s rest ih =>
    obtain ⟨brought, documents⟩ := List.forall_mem_cons.mp documents
    have here : (step plan d s).2.Distinct := distinct_step distinct brought
    exact List.forall_mem_cons.mpr ⟨here, ih here documents⟩

/-- At no moment of a session without resets has anything changed at a path that parts from all the written ones.
An object stays one as long as nothing is written at its path or above it, and its keys stay in their order in
front of those that have come. And no object ever holds a key twice, if none does before and in what is written. -/
theorem run_loses_no_update (plan : Plan) (d : Json) {steps : List Step} (stays : ∀ e, .reset e ∉ steps) :
    (∀ q : Path, (∀ p ∈ touched plan d steps, ¬ p <+: q ∧ ¬ q <+: p) →
      ∀ a ∈ run plan d steps, Path.find? q a.2 = Path.find? q d) ∧
    (∀ r : Path, (∀ p ∈ touched plan d steps, ¬ p <+: r) →
      ∀ members, Path.find? r d = some (.object members) →
        ∀ a ∈ run plan d steps, ∃ later, Path.find? r a.2 = some (.object later) ∧
          Members.keys members <+: Members.keys later) ∧
    (d.Distinct → (∀ s ∈ steps, ∀ e ∈ documents s, e.Distinct) → ∀ a ∈ run plan d steps, a.2.Distinct) := by
  refine ⟨fun q apart => ?_, fun r outside members found a member => ?_, run_distinct⟩
  · exact run_framed (Path.framed_find? q) stays apart
  · exact run_framed (Path.framed_keeps r) stays outside a member members found

/-- The buyer is a text, so the write and the copy get no further than the number, and nothing is there to be
replaced at `paid`. -/
theorem run_loses_no_update_invoice :
    let d : Json := .object [("note", .object [("due", .string "May")]), ("id", .null), ("buyer", .string "Ann")]
    let steps : List Step :=
      [.write [.number (.int 7), .string "Bob", .array [], .bool true], .replace ["paid"] (.bool true), .render,
        .set ["note", "by"] (.string "Eve"), .copyFrom (.object [("paid", .bool false)])]
    (∀ e, .reset e ∉ steps) ∧ touched Plan.invoice d steps = [["id"], ["note", "by"], ["id"]] ∧ d.Distinct ∧
      (∀ s ∈ steps, ∀ e ∈ documents s, e.Distinct) ∧
      (∀ a ∈ run Plan.invoice d steps, Path.find? ["buyer"] a.2 = some (.string "Ann")) ∧
      (∀ a ∈ run Plan.invoice d steps, ∃ later, Path.find? ["note"] a.2 = some (.object later) ∧
        ["due"] <+: Members.keys later) ∧
      ∀ a ∈ run Plan.invoice d steps, a.2.Distinct := by
  intro d steps
  have stays : ∀ e, .reset e ∉ steps := by simp [steps]
  have paths : touched Plan.invoice d steps = [["id"], ["note", "by"], ["id"]] := rfl
  have distinct : d.Distinct := by decide +zetaReduce
  have brought : ∀ s ∈ steps, ∀ e ∈ documents s, e.Distinct := by
    simp only [steps, documents, List.forall_mem_cons]
    decide
  obtain ⟨frame, keys, unique⟩ := run_loses_no_update Plan.invoice d stays
  rw [paths] at frame keys
  exact ⟨stays, paths, distinct, brought, frame ["buyer"] (by decide), keys ["note"] (by decide) _ rfl,
    unique distinct brought⟩

end Session

end LeafPlan
