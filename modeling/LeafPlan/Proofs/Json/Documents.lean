import LeafPlan.Json.Document
import LeafPlan.Proofs.Json.Printed
import LeafPlan.Proofs.Json.Reading
import LeafPlan.Proofs.Rearranged

/-!
# Documents are read by the grammar

`Json.read_eq_ok_iff` shows that a text is read as a document if and only if the grammar has one value in it, not
nested too deep, with blanks around it only, and the value denotes the document: of a repeated key the first place
and the last value count. `Json.read_of_spells` shows that a recoverable document comes back from any spelling of it.
-/

namespace LeafPlan

open Grammar

namespace Written

/-- The document that is written so. -/
inductive Denotes : Written → Json → Prop
  | null : Denotes .null .null
  | bool (b : Bool) : Denotes (.bool b) (.bool b)
  | number {cs : List Char} {n : Number} (alone : Numeral.read (cs.map .char) = .ok (n, [])) :
    Denotes (.number cs) (.number n)
  | string (s : String) : Denotes (.string s) (.string s)
  | array {items : List Written} {ds : List Json} (each : List.Forall₂ Denotes items ds) :
    Denotes (.array items) (.array ds)
  | object {members : List (String × Written)} {pairs ms : List (String × Json)}
    (each : List.Forall₂ (Members.Matches Denotes) members pairs) (settled : Members.Settles pairs ms) :
    Denotes (.object members) (.object ms)

theorem Denotes.induction {P : Written → Json → Prop} (null : P .null .null) (bool : ∀ b, P (.bool b) (.bool b))
    (number : ∀ cs n, Numeral.read (cs.map .char) = .ok (n, []) → P (.number cs) (.number n))
    (string : ∀ s, P (.string s) (.string s))
    (array : ∀ items ds, List.Forall₂ P items ds → P (.array items) (.array ds))
    (object : ∀ members pairs ms, List.Forall₂ (Members.Matches P) members pairs →
      Members.Settles pairs ms → P (.object members) (.object ms))
    {w : Written} {d : Json} (denotes : w.Denotes d) : P w d := by
  induction w using Written.induction generalizing d with
  | null =>
    cases denotes
    exact null
  | bool =>
    cases denotes
    exact bool _
  | number =>
    cases denotes with
    | number alone => exact number _ _ alone
  | string s =>
    cases denotes
    exact string s
  | array items ih =>
    cases denotes with
    | array each => exact array _ _ (forall₂_imp_of_mem (fun w member d _ here => ih w member here) each)
  | object members ih =>
    cases denotes with
    | object each settled =>
      refine object _ _ _ (forall₂_imp_of_mem (fun m member q _ matched => ?_) each) settled
      cases matched with
      | intro k here => exact .intro k (ih _ member here)

theorem Denotes.ranged {w : Written} {d : Json} (denotes : w.Denotes d) : w.Ranged := by
  refine Denotes.induction (P := fun w _ => w.Ranged) trivial (fun _ => trivial) ?number (fun _ => trivial) ?array
    ?object denotes
  case number => exact fun cs n alone => ⟨n, alone⟩
  case array =>
    intro items ds each
    refine ranged_array_iff.mpr fun w member => ?_
    obtain ⟨d, -, ranged⟩ := forall₂_left each w member
    exact ranged
  case object =>
    intro members pairs ms each settled
    refine ranged_object_iff.mpr fun m member => ?_
    obtain ⟨q, -, ranged⟩ := Members.matches_left each m member
    exact ranged

theorem Denotes.depth_le {w : Written} {d : Json} (denotes : w.Denotes d) : d.depth ≤ w.depth := by
  refine Denotes.induction (P := fun w d => d.depth ≤ w.depth) (Nat.le_refl _) (fun _ => Nat.le_refl _)
    (fun _ _ _ => Nat.le_refl _) (fun _ => Nat.le_refl _) ?array ?object denotes
  case array =>
    intro items ds each
    refine Json.depth_array_le_iff.mpr fun d member => ?_
    obtain ⟨w, there, within⟩ := forall₂_right each d member
    exact within.trans (depthItems_le_iff.mp (Nat.le_refl _) w there)
  case object =>
    intro members pairs ms each settled
    refine Json.depth_object_le_iff.mpr fun q member => ?_
    obtain ⟨m, there, within⟩ := Members.matches_right each q (settled.mem member)
    exact within.trans (depthMembers_le_iff.mp (Nat.le_refl _) m there)

theorem Denotes.distinct {w : Written} {d : Json} (denotes : w.Denotes d) : d.Distinct := by
  refine Denotes.induction (P := fun _ d => d.Distinct) trivial (fun _ => trivial) (fun _ _ _ => trivial)
    (fun _ => trivial) ?array ?object denotes
  case array =>
    intro items ds each
    refine Json.distinct_array.mpr fun d member => ?_
    obtain ⟨w, -, distinct⟩ := forall₂_right each d member
    exact distinct
  case object =>
    intro members pairs ms each settled
    refine Json.distinct_object.mpr ⟨settled.nodup, fun q member => ?_⟩
    obtain ⟨m, -, distinct⟩ := Members.matches_right each q (settled.mem member)
    exact distinct

theorem Denotes.numbers {w : Written} {d : Json} (denotes : w.Denotes d) : d.Numbers fun n => n.IsInt → n.Whole := by
  refine Denotes.induction (P := fun _ d => d.Numbers fun n => n.IsInt → n.Whole) trivial (fun _ => trivial)
    ?number (fun _ => trivial) ?array ?object denotes
  case number => exact fun cs n alone => Numeral.whole_read alone
  case array =>
    intro items ds each
    refine Json.numbers_array.mpr fun d member => ?_
    obtain ⟨w, -, numbers⟩ := forall₂_right each d member
    exact numbers
  case object =>
    intro members pairs ms each settled
    refine Json.numbers_object.mpr fun q member => ?_
    obtain ⟨m, -, numbers⟩ := Members.matches_right each q (settled.mem member)
    exact numbers

end Written

/-! ### What outlines stand for -/

namespace Outline

theorem Items.json_item_iff {v : Outline} {settled : Nat} {next : Items} {ds : List Json} :
    (Items.item v settled next).jsons = .ok ds ↔
      ∃ d later, v.json = .ok d ∧ next.jsons = .ok later ∧ d :: later = ds := by
  rw [Items.jsons]
  simp only [bind_eq_ok_iff, pure_eq_ok_iff, exists_and_left]

theorem Fields.json_field_iff {key : String} {v : Outline} {next : Fields} {pairs : List (String × Json)} :
    (Fields.field key v next).jsons = .ok pairs ↔
      ∃ d later, v.json = .ok d ∧ next.jsons = .ok later ∧ (key, d) :: later = pairs := by
  rw [Fields.jsons]
  simp only [bind_eq_ok_iff, pure_eq_ok_iff, exists_and_left]

theorem json_list_iff {start : Nat} {items : Items} {d : Json} :
    (list start items).json = .ok d ↔ ∃ ds, items.jsons = .ok ds ∧ .array ds = d := by
  rw [Outline.json, bind_eq_ok_iff]
  simp only [pure_eq_ok_iff]

theorem json_object_iff {start : Nat} {fields : Fields} {d : Json} :
    (object start fields).json = .ok d ↔
      ∃ pairs ms, fields.jsons = .ok pairs ∧ Members.Settles pairs ms ∧ .object ms = d := by
  rw [Outline.json, bind_eq_ok_iff]
  simp only [pure_eq_ok_iff, ← Members.ofList_eq_iff]
  constructor
  · exact fun ⟨pairs, read, made⟩ => ⟨pairs, _, read, rfl, made⟩
  · rintro ⟨pairs, ms, read, rfl, made⟩
    exact ⟨pairs, read, made⟩

theorem json_scalar_iff {v : Scalar} {w : Written} (here : v.Holds w) (d : Json) : v.json = d ↔ w.Denotes d := by
  constructor
  · rintro rfl
    cases here with
    | null => exact .null
    | bool b => exact .bool b
    | number alone => exact .number alone
    | string s => exact .string s
  · intro denotes
    cases here with
    | number alone =>
      cases denotes with
      | number same =>
        obtain ⟨rfl, -⟩ := Prod.mk.inj (Except.ok.inj (alone.symm.trans same))
        rfl
    | _ =>
      cases denotes
      rfl

mutual

theorem json_eq_ok_iff : (o : Outline) → ∀ {w}, o.Holds w → ∀ d, o.json = .ok d ↔ w.Denotes d
  | .scalar v left, w, .scalar here _, d => by
    rw [Outline.json, Except.ok.injEq]
    exact json_scalar_iff here d
  | .list start items, _, .list _ inside, d => by
    rw [json_list_iff]
    simp only [Items.json_eq_ok_iff items inside]
    constructor
    · rintro ⟨ds, each, rfl⟩
      exact .array each
    · intro denotes
      cases denotes with
      | array each => exact ⟨_, each, rfl⟩
  | .object start fields, _, .object _ inside, d => by
    rw [json_object_iff]
    simp only [Fields.json_eq_ok_iff fields inside]
    constructor
    · rintro ⟨pairs, ms, each, settled, rfl⟩
      exact .object each settled
    · intro denotes
      cases denotes with
      | object each settled => exact ⟨_, _, each, settled, rfl⟩

theorem Items.json_eq_ok_iff : (items : Items) → ∀ {ws}, items.Holds ws →
    ∀ ds, items.jsons = .ok ds ↔ List.Forall₂ Written.Denotes ws ds
  | .close _, _, .close _, ds => by
    rw [Items.jsons, Except.ok.injEq, List.forall₂_nil_left_iff, eq_comm]
  | .item v settled next, _, .item here _ below, ds => by
    rw [Items.json_item_iff, List.forall₂_cons_left_iff]
    simp only [Outline.json_eq_ok_iff v here, Items.json_eq_ok_iff next below, eq_comm]

theorem Fields.json_eq_ok_iff : (fields : Fields) → ∀ {ms}, fields.Holds ms →
    ∀ pairs, fields.jsons = .ok pairs ↔ List.Forall₂ (Members.Matches Written.Denotes) ms pairs
  | .close, _, .close, pairs => by
    rw [Fields.jsons, Except.ok.injEq, List.forall₂_nil_left_iff, eq_comm]
  | .field key v next, _, .field _ here below, pairs => by
    rw [Fields.json_field_iff, List.forall₂_cons_left_iff]
    simp only [Outline.json_eq_ok_iff v here, Fields.json_eq_ok_iff next below]
    constructor
    · rintro ⟨d, later, first, more, rfl⟩
      exact ⟨_, later, .intro key first, more, rfl⟩
    · rintro ⟨_, later, first, more, rfl⟩
      cases first with
      | intro _ first => exact ⟨_, later, first, more, rfl⟩

end

mutual

/-- No document is made of what a stopped reader leaves. -/
theorem Stopped.json_ne : (o : Outline) → o.Stopped → ∀ d, o.json ≠ .ok d
  | .fault _, _, _ | .deepList _, _, _ | .deepObject _, _, _ => nofun
  | .list _ items, .list _ inside, d => by
    intro read
    obtain ⟨ds, read, -⟩ := json_list_iff.mp read
    exact Items.Stopped.json_ne items inside ds read
  | .object _ fields, .object _ inside, d => by
    intro read
    obtain ⟨pairs, -, read, -⟩ := json_object_iff.mp read
    exact Fields.Stopped.json_ne fields inside pairs read

theorem Items.Stopped.json_ne : (items : Items) → items.Stopped → ∀ ds, items.jsons ≠ .ok ds
  | .fault _, _, _ => nofun
  | .item v _ next, .item _ _ below, ds => by
    intro read
    obtain ⟨-, later, -, read, -⟩ := Items.json_item_iff.mp read
    exact Items.Stopped.json_ne next below later read
  | .broken v, .broken inside, ds => by
    intro read
    obtain ⟨d, read, -⟩ := bind_eq_ok_iff.mp read
    exact Outline.Stopped.json_ne v inside d read

theorem Fields.Stopped.json_ne : (fields : Fields) → fields.Stopped → ∀ pairs, fields.jsons ≠ .ok pairs
  | .fault _, _, _ | .bare _, _, _ => nofun
  | .field _ v next, .field _ _ below, pairs => by
    intro read
    obtain ⟨-, later, -, read, -⟩ := Fields.json_field_iff.mp read
    exact Fields.Stopped.json_ne next below later read
  | .broken _ v, .broken _ inside, pairs => by
    intro read
    obtain ⟨d, read, -⟩ := bind_eq_ok_iff.mp read
    exact Outline.Stopped.json_ne v inside d read

end

end Outline

/-! ### Whole texts -/

theorem Outline.read_of_value {t s rest : Text} {w : Written} (blanks : Blanks t s) (value : Value s w rest)
    (behind : Blanks rest []) (shallow : w.depth ≤ 127) (ranged : w.Ranged) :
    ∃ o, read t = (o, some rest) ∧ o.Holds w :=
  (readValue_reads 127).takes blanks (legible_of_ends value (ends_of_blanks behind nofun) shallow ranged)

namespace Json

theorem read_eq_ok_iff {t : Text} {d : Json} :
    read t = .ok d ↔ ∃ s w rest, Blanks t s ∧ Value s w rest ∧ Blanks rest [] ∧ w.depth ≤ 127 ∧ w.Denotes d := by
  constructor
  · intro found
    have ended := (Outline.readValue_reads 127).finds t
    unfold read at found
    split at found
    · rename_i o stopped
      have stopped : Outline.readValue 127 t = (o, none) := stopped
      rw [stopped] at ended
      exact (Outline.Stopped.json_ne o ended d found).elim
    · rename_i o rest got
      have got : Outline.readValue 127 t = (o, some rest) := got
      rw [got] at ended
      obtain ⟨s, w, blanks, legible, holds⟩ := ended
      obtain ⟨e, here, found⟩ := bind_eq_ok_iff.mp found
      have behind := Text.blanks_skipBlanks rest
      split at found
      · rename_i nothing
        obtain rfl := pure_eq_ok_iff.mp found
        rw [nothing] at behind
        exact ⟨s, w, rest, blanks, legible.value, behind, legible.shallow, (o.json_eq_ok_iff holds e).mp here⟩
      · cases found
  · rintro ⟨s, w, rest, blanks, value, behind, shallow, denotes⟩
    obtain ⟨o, got, holds⟩ := Outline.read_of_value blanks value behind shallow denotes.ranged
    have nothing : Text.skipBlanks rest = [] := Text.skipBlanks_eq_of_blanks behind
    unfold read
    rw [got]
    refine bind_eq_ok_iff.mpr ⟨d, (o.json_eq_ok_iff holds d).mpr denotes, ?_⟩
    rw [nothing]
    rfl

/-- No document that is read repeats a key, has an integer of more than 64 bits, or is nested too deep. -/
theorem within_of_read {t : Text} {d : Json} (found : read t = .ok d) :
    d.Within (fun n => n.IsInt → n.Whole) 127 := by
  obtain ⟨s, w, rest, -, -, -, shallow, denotes⟩ := read_eq_ok_iff.mp found
  exact ⟨denotes.distinct, denotes.numbers, denotes.depth_le.trans shallow⟩

theorem denotes_written {n : Nat} {d : Json} (recoverable : d.Recoverable n) : d.written.Denotes d := by
  obtain ⟨distinct, whole, -⟩ := recoverable
  induction d using Json.induction with
  | null => exact .null
  | bool b => exact .bool b
  | number n => exact .number (Numeral.read_chars whole)
  | string s => exact .string s
  | array items ih =>
    rw [written, writtenItems_eq]
    refine .array (List.forall₂_map_left_iff.mpr (List.forall₂_same.mpr fun d member => ?_))
    exact ih d member (distinct_array.mp distinct d member) (numbers_array.mp whole d member)
  | object members ih =>
    obtain ⟨unique, distinct⟩ := distinct_object.mp distinct
    rw [written, writtenMembers_eq]
    refine .object (List.forall₂_map_left_iff.mpr (List.forall₂_same.mpr fun m member => ?_))
      (Members.settles_self unique)
    exact .intro m.1 (ih m member (distinct m member) (numbers_object.mp whole m member))

mutual

theorem depth_written : (d : Json) → d.written.depth = d.depth
  | .null | .bool _ | .number _ | .string _ => rfl
  | .array items => congrArg (· + 1) (depthItems_written items)
  | .object members => congrArg (· + 1) (depthMembers_written members)

theorem depthItems_written : (items : List Json) → Written.depthItems (writtenItems items) = depthItems items
  | [] => rfl
  | d :: ds => congrArg₂ max (depth_written d) (depthItems_written ds)

theorem depthMembers_written : (members : List (String × Json)) →
    Written.depthMembers (writtenMembers members) = depthMembers members
  | [] => rfl
  | (_, d) :: ms => congrArg₂ max (depth_written d) (depthMembers_written ms)

end

theorem read_of_spells {d : Json} (recoverable : d.Recoverable 127) {t : Text} (spells : d.Spells t) :
    read t = .ok d := by
  obtain ⟨s, rest, blanks, value, behind⟩ := spells
  have shallow : d.written.depth ≤ 127 := (depth_written d).le.trans recoverable.shallow
  exact read_eq_ok_iff.mpr ⟨s, _, rest, blanks, value, behind, shallow, denotes_written recoverable⟩

theorem read_compact {d : Json} (recoverable : d.Recoverable 127) : read (Text.ofString d.compact) = .ok d :=
  read_of_spells recoverable (compact_spells recoverable.numbers)

theorem read_indented {d : Json} (recoverable : d.Recoverable 127) : read (Text.ofString d.indented) = .ok d :=
  read_of_spells recoverable (indented_spells recoverable.numbers)

theorem eq_of_compact {d e : Json} (left : d.Recoverable 127) (right : e.Recoverable 127)
    (same : d.compact = e.compact) : d = e := by
  have read := read_compact left
  rw [same, read_compact right] at read
  exact (Except.ok.inj read).symm

theorem eq_of_indented {d e : Json} (left : d.Recoverable 127) (right : e.Recoverable 127)
    (same : d.indented = e.indented) : d = e := by
  have read := read_indented left
  rw [same, read_indented right] at read
  exact (Except.ok.inj read).symm

end Json

end LeafPlan
