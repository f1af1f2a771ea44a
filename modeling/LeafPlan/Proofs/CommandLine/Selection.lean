import LeafPlan.CommandLine.Run
import LeafPlan.Proofs.Path.Pointer
import LeafPlan.Proofs.Path.Lens

/-!
# Values selected by a pointer

A path's pointer enters lists too, by position, where the path stops. As long as no list is on its way it leads
where the path leads. `pointer_selects_path` carries this over to the documents that a command selects.
-/

namespace LeafPlan

namespace Path

variable {p : Path} {d v : Json}

/-- No list stands short of the path's end. -/
def MeetsNoList (p : Path) (d : Json) : Prop :=
  ∀ q : Path, q <+: p → q ≠ p → ∀ items, find? q d ≠ some (.array items)

theorem meetsNoList_of_find? (found : find? p d = some v) : MeetsNoList p d := by
  rintro q ⟨s, rfl⟩ proper items list
  have further : s ≠ [] := by
    rintro rfl
    exact proper (List.append_nil q).symm
  obtain ⟨members, object⟩ := object_of_find?_append further found
  rw [object] at list
  cases list

theorem MeetsNoList.child {k : String} {c : Json} (clear : MeetsNoList (k :: p) d) (found : d.child? k = some c) :
    MeetsNoList p c := by
  intro q within proper items list
  refine clear (k :: q) (List.cons_prefix_cons.mpr ⟨rfl, within⟩) (fun same => proper (List.cons.inj same).2) items ?_
  rw [find?_document, found]
  exact list

theorem step?_of_meetsNoList {k : String} (clear : MeetsNoList (k :: p) d) : Pointer.step? d k = d.child? k := by
  cases d with
  | array items => exact (clear [] List.nil_prefix (List.cons_ne_nil k p).symm items rfl).elim
  | _ => rfl

theorem foldlM_step? (clear : MeetsNoList p d) : p.foldlM Pointer.step? d = find? p d := by
  induction p generalizing d with
  | nil => rfl
  | cons k p ih =>
    rw [List.foldlM_cons, step?_of_meetsNoList clear, find?_document]
    cases child : d.child? k with
    | none => rfl
    | some c => exact ih (clear.child child)

theorem pointer?_of_meetsNoList (clear : MeetsNoList p d) : d.pointer? p.pointer = find? p d := by
  rw [Json.pointer?, pointer, Pointer.names?_write]
  exact foldlM_step? clear

end Path

namespace InputOptions

/-- What the pointer leads to, or all of the document. -/
def pointed? (o : InputOptions) (d : Json) : Option Json := o.pointer.elim (some d) d.pointer?

variable {o : InputOptions} {p : String} {d v : Json}

theorem select_of_pointer? (asked : o.pointer = some p) (found : d.pointer? p = some v) (runner : FilterRunner)
    (file : String) : o.select runner file d = { o with pointer := none }.select runner file v := by
  rw [select, asked]
  simp only [found]
  rfl

theorem select_of_pointer?_none (asked : o.pointer = some p) (missing : d.pointer? p = none) (runner : FilterRunner)
    (file : String) : o.select runner file d = .error (.pointer p file) := by
  rw [select, asked]
  simp only [missing]
  rfl

theorem select_of_bare (bare : o.pointer = none) (unfiltered : o.filter = none) (runner : FilterRunner)
    (file : String) (d : Json) : o.select runner file d = .ok [d] := by
  rw [select, bare, unfiltered]
  rfl

end InputOptions

/-- Where a path leads to a value, its pointer leads to the same one. Where it leads to nothing, neither does the
pointer, unless a list is on the way. So a command that is given a path's pointer goes on with the value at the
path, or tells that the pointer matched nothing. -/
theorem pointer_selects_path (p : Path) (d : Json) :
    (∀ v, Path.find? p d = some v → d.pointer? p.pointer = some v) ∧
    (p.MeetsNoList d → d.pointer? p.pointer = Path.find? p d) ∧
    ∀ (o : InputOptions) (runner : FilterRunner) (file : String), o.pointer = some p.pointer →
      (∀ v, Path.find? p d = some v →
        o.select runner file d = { o with pointer := none }.select runner file v ∧
        (o.filter = none → o.select runner file d = .ok [v])) ∧
      (p.MeetsNoList d → Path.find? p d = none → o.select runner file d = .error (.pointer p.pointer file)) := by
  have same : ∀ v, Path.find? p d = some v → d.pointer? p.pointer = some v := fun v found =>
    (Path.pointer?_of_meetsNoList (Path.meetsNoList_of_find? found)).trans found
  refine ⟨same, Path.pointer?_of_meetsNoList, fun o runner file asked => ⟨fun v found => ?_, fun clear missing => ?_⟩⟩
  · have selected := InputOptions.select_of_pointer? asked (same v found) runner file
    refine ⟨selected, fun unfiltered => selected.trans ?_⟩
    exact InputOptions.select_of_bare (o := { o with pointer := none }) rfl unfiltered runner file v
  · exact InputOptions.select_of_pointer?_none asked ((Path.pointer?_of_meetsNoList clear).trans missing) runner file

/-- Names with a slash, with what looks like an escaped one, without a character and with a digit. -/
theorem pointer_selects_path_escaped :
    let d : Json := .object [("a/b", .object [("~1", .object [("", .bool true)]), ("0", .null)])]
    let p : Path := ["a/b", "~1", ""]
    let q : Path := ["a/b", "0", "c"]
    let pass : FilterRunner := fun _ e => .ok [e]
    p.pointer = "/a~1b/~01/" ∧ Path.find? p d = some (.bool true) ∧
      InputOptions.select ⟨false, some p.pointer, none, ["d.json"]⟩ pass "d.json" d = .ok [.bool true] ∧
      q.MeetsNoList d ∧ Path.find? q d = none ∧ d.pointer? q.pointer = none ∧
      InputOptions.select ⟨false, some q.pointer, none, ["d.json"]⟩ pass "d.json" d =
        .error (.pointer q.pointer "d.json") := by
  intro d p q pass
  have found : Path.find? p d = some (.bool true) := rfl
  have missing : Path.find? q d = none := rfl
  have clear : q.MeetsNoList d := by
    intro r within proper items list
    simp only [q, List.prefix_cons_iff, List.prefix_nil] at within
    rcases within with rfl | ⟨_, rfl, rfl | ⟨_, rfl, rfl | ⟨_, rfl, rfl⟩⟩⟩
    · exact Json.noConfusion (Option.some.inj list)
    · exact Json.noConfusion (Option.some.inj list)
    · exact Json.noConfusion (Option.some.inj list)
    · exact proper rfl
  obtain ⟨-, -, select⟩ := pointer_selects_path p d
  obtain ⟨-, lookup, selectToo⟩ := pointer_selects_path q d
  exact ⟨rfl, found, ((select _ pass "d.json" rfl).1 _ found).2 rfl, clear, missing, (lookup clear).trans missing,
    (selectToo _ pass "d.json" rfl).2 clear missing⟩

/-- A pointer goes on into a list where a path does not. -/
example : Path.find? ["0"] (Json.array [.null]) = none ∧ (Json.array [.null]).pointer? (Path.pointer ["0"]) = some .null :=
  ⟨rfl, rfl⟩

end LeafPlan
