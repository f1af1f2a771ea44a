import LeafPlan.Proofs.Json.Stopped
import LeafPlan.Proofs.Rearranged
import LeafPlan.Schema.Loader

/-!
# The grammars of the two schema dialects

`Written.Prepares` and `Written.Authors` say which schema a written value is, in the prepared and in the authored
dialect. A member whose key comes again is part of the grammar, although the schema drops it.
-/

namespace LeafPlan

namespace Written

inductive Prepares : Written → Prepared → Prop
  | scalar (m : Marker) : Prepares (.string m.sentinel) (.scalar m)
  | list {items : List Written} {xs : List Prepared} (each : List.Forall₂ Prepares items xs) :
    Prepares (.array items) (.list xs none)
  | object {members : List (String × Written)} {pairs props : List (String × Prepared)}
    (each : List.Forall₂ (Members.Matches Prepares) members pairs) (settled : Members.Settles pairs props) :
    Prepares (.object members) (.object props)

inductive Authors : Written → Authored → Prop
  | sentinel (m : Marker) : Authors (.string m.sentinel) (.scalar m)
  | name (m : Marker) : Authors (.string m.name) (.scalar m)
  | list (b : Builtin) {items : List Written} {xs : List Authored} (each : List.Forall₂ Authors items xs) :
    Authors (.array (.string b.name :: items)) (.list b.method xs)
  | object {members : List (String × Written)} {pairs props : List (String × Authored)}
    (each : List.Forall₂ (Members.Matches Authors) members pairs) (settled : Members.Settles pairs props) :
    Authors (.object members) (.object props)

theorem Prepares.induction {P : Written → Prepared → Prop} (scalar : ∀ m : Marker, P (.string m.sentinel) (.scalar m))
    (list : ∀ items xs, List.Forall₂ P items xs → P (.array items) (.list xs none))
    (object : ∀ members pairs props, List.Forall₂ (Members.Matches P) members pairs →
      Members.Settles pairs props → P (.object members) (.object props))
    {w : Written} {x : Prepared} (prepares : w.Prepares x) : P w x := by
  induction w using Written.induction generalizing x with
  | null | bool | number => cases prepares
  | string s =>
    cases prepares with
    | scalar m => exact scalar m
  | array items ih =>
    cases prepares with
    | list each => exact list _ _ (forall₂_imp_of_mem (fun w member x _ here => ih w member here) each)
  | object members ih =>
    cases prepares with
    | object each settled =>
      refine object _ _ _ (forall₂_imp_of_mem (fun m member q _ matched => ?_) each) settled
      cases matched with
      | intro k here => exact .intro k (ih _ member here)

theorem Authors.induction {P : Written → Authored → Prop}
    (sentinel : ∀ m : Marker, P (.string m.sentinel) (.scalar m)) (name : ∀ m : Marker, P (.string m.name) (.scalar m))
    (list : ∀ (b : Builtin) items xs, List.Forall₂ P items xs →
      P (.array (.string b.name :: items)) (.list b.method xs))
    (object : ∀ members pairs props, List.Forall₂ (Members.Matches P) members pairs →
      Members.Settles pairs props → P (.object members) (.object props))
    {w : Written} {o : Authored} (authors : w.Authors o) : P w o := by
  induction w using Written.induction generalizing o with
  | null | bool | number => cases authors
  | string s =>
    cases authors with
    | sentinel m => exact sentinel m
    | name m => exact name m
  | array items ih =>
    cases authors with
    | list b each =>
      refine list b _ _ (forall₂_imp_of_mem (fun w member o _ here => ?_) each)
      exact ih w (List.mem_cons_of_mem _ member) here
  | object members ih =>
    cases authors with
    | object each settled =>
      refine object _ _ _ (forall₂_imp_of_mem (fun m member q _ matched => ?_) each) settled
      cases matched with
      | intro k here => exact .intro k (ih _ member here)

end Written

/-! ### Names -/

theorem Marker.ofSentinel?_eq_some_iff {s : String} {m : Marker} : ofSentinel? s = some m ↔ m.sentinel = s := by
  constructor
  · intro found
    simpa using List.find?_some found
  · rintro rfl
    cases m <;> rfl

theorem Marker.parse?_eq_some_iff {s : String} {m : Marker} :
    parse? s = some m ↔ m.sentinel = s ∨ m.name = s := by
  constructor
  · intro found
    simpa using List.find?_some found
  · rintro (rfl | rfl) <;> cases m <;> rfl

theorem Method.ofName?_eq_some_iff {s : String} {m : Method} :
    ofName? s = some m ↔ ∃ b : Builtin, b.name = s ∧ b.method = m := by
  constructor
  · intro found
    obtain ⟨b, listed, rfl⟩ := Option.map_eq_some_iff.mp found
    exact ⟨b, by simpa using List.find?_some listed, rfl⟩
  · rintro ⟨b, rfl, rfl⟩
    cases b <;> rfl

theorem Marker.ofSentinel?_eq_none_iff {s : String} : ofSentinel? s = none ↔ ∀ m : Marker, m.sentinel ≠ s := by
  simp only [Option.eq_none_iff_forall_ne_some, ne_eq, ofSentinel?_eq_some_iff]

theorem Marker.parse?_eq_none_iff {s : String} :
    parse? s = none ↔ ∀ m : Marker, m.sentinel ≠ s ∧ m.name ≠ s := by
  simp only [Option.eq_none_iff_forall_ne_some, ne_eq, parse?_eq_some_iff, not_or]

theorem Method.ofName?_eq_none_iff {s : String} : ofName? s = none ↔ ∀ b : Builtin, b.name ≠ s := by
  simp only [Option.eq_none_iff_forall_ne_some, ne_eq, ofName?_eq_some_iff, not_exists, not_and]
  exact ⟨fun none b same => none _ b same rfl, fun none _ b same _ => none b same⟩

/-! ### What outlines show -/

namespace Outline

variable {α : Type} (P : Written → α → Prop)

/-- The outline shows a value that belongs to `x` by `P`. -/
def Shows (o : Outline) (x : α) : Prop := ∃ w, o.written? = some w ∧ P w x

def Items.Shows (items : Items) (xs : List α) : Prop := ∃ ws, items.written? = some ws ∧ List.Forall₂ P ws xs

def Fields.Shows (fields : Fields) (pairs : List (String × α)) : Prop :=
  ∃ ms, fields.written? = some ms ∧ List.Forall₂ (Members.Matches P) ms pairs

variable {P}

theorem shows_list_iff {start : Nat} {items : Items} {x : α} :
    (list start items).Shows P x ↔ ∃ ws, items.written? = some ws ∧ P (.array ws) x := by
  simp only [Shows, written?_list]
  constructor
  · rintro ⟨_, ⟨ws, shown, rfl⟩, here⟩
    exact ⟨ws, shown, here⟩
  · exact fun ⟨ws, shown, here⟩ => ⟨_, ⟨ws, shown, rfl⟩, here⟩

theorem shows_object_iff {start : Nat} {fields : Fields} {x : α} :
    (object start fields).Shows P x ↔ ∃ ms, fields.written? = some ms ∧ P (.object ms) x := by
  simp only [Shows, written?_object]
  constructor
  · rintro ⟨_, ⟨ms, shown, rfl⟩, here⟩
    exact ⟨ms, shown, here⟩
  · exact fun ⟨ms, shown, here⟩ => ⟨_, ⟨ms, shown, rfl⟩, here⟩

theorem Items.shows_close_iff {left : Nat} {xs : List α} : (Items.close left).Shows P xs ↔ [] = xs := by
  constructor
  · rintro ⟨ws, shown, each⟩
    obtain rfl := Option.some.inj shown
    cases each
    rfl
  · rintro rfl
    exact ⟨[], rfl, .nil⟩

theorem Items.shows_item_iff {v : Outline} {settled : Nat} {next : Items} {xs : List α} :
    (Items.item v settled next).Shows P xs ↔ ∃ x later, v.Shows P x ∧ next.Shows P later ∧ x :: later = xs := by
  simp only [Items.Shows, written?_item]
  constructor
  · rintro ⟨_, ⟨w, ws, here, below, rfl⟩, each⟩
    cases each with
    | cons first each => exact ⟨_, _, ⟨w, here, first⟩, ⟨ws, below, each⟩, rfl⟩
  · rintro ⟨x, later, ⟨w, here, first⟩, ⟨ws, below, each⟩, rfl⟩
    exact ⟨_, ⟨w, ws, here, below, rfl⟩, .cons first each⟩

theorem Fields.shows_close_iff {pairs : List (String × α)} : Fields.close.Shows P pairs ↔ [] = pairs := by
  constructor
  · rintro ⟨ms, shown, each⟩
    obtain rfl := Option.some.inj shown
    cases each
    rfl
  · rintro rfl
    exact ⟨[], rfl, .nil⟩

theorem Fields.shows_field_iff {key : String} {v : Outline} {next : Fields} {pairs : List (String × α)} :
    (Fields.field key v next).Shows P pairs ↔
      ∃ x later, v.Shows P x ∧ next.Shows P later ∧ (key, x) :: later = pairs := by
  simp only [Fields.Shows, written?_field]
  constructor
  · rintro ⟨_, ⟨w, ws, here, below, rfl⟩, each⟩
    cases each with
    | cons first each =>
      cases first with
      | intro _ first => exact ⟨_, _, ⟨w, here, first⟩, ⟨ws, below, each⟩, rfl⟩
  · rintro ⟨x, later, ⟨w, here, first⟩, ⟨ws, below, each⟩, rfl⟩
    exact ⟨_, ⟨w, ws, here, below, rfl⟩, .cons (.intro key first) each⟩

/-- A value inside which the reader was stopped fails, whatever is made of it. -/
theorem failed_of_stopped {β : Type} {v : Outline} {made : Except Refusal α} {f : Refusal → Refusal}
    {g : α → Except Refusal β} (made_iff : ∀ x, made = .ok x ↔ v.Shows P x) (stopped : v.written? = none) (y : β) :
    (made.mapError f >>= g) ≠ .ok y := by
  intro read
  obtain ⟨x, here, -⟩ := bind_eq_ok_iff.mp read
  obtain ⟨w, shown, -⟩ := (made_iff x).mp (mapError_eq_ok_iff.mp here)
  rw [stopped] at shown
  cases shown

end Outline

/-! ### Prepared schemas -/

namespace Outline

theorem prepared_scalar_iff {v : Scalar} {left : Nat} {x : Prepared} :
    (scalar v left).prepared = .ok x ↔ ∃ m : Marker, v = .string m.sentinel ∧ .scalar m = x := by
  constructor
  · intro read
    unfold Outline.prepared at read
    split at read
    · split at read
      · rename_i s m found
        exact ⟨m, congrArg _ (Marker.ofSentinel?_eq_some_iff.mp found).symm, Except.ok.inj read⟩
      · cases read
    · cases read
  · rintro ⟨m, rfl, rfl⟩
    cases m <;> rfl

theorem prepared_list_iff {start : Nat} {items : Items} {x : Prepared} :
    (list start items).prepared = .ok x ↔ ∃ xs, items.prepared 0 = .ok xs ∧ .list xs none = x := by
  rw [Outline.prepared, bind_eq_ok_iff]
  simp only [pure_eq_ok_iff]

theorem prepared_object_iff {start : Nat} {fields : Fields} {x : Prepared} :
    (object start fields).prepared = .ok x ↔
      ∃ pairs props, fields.prepared = .ok pairs ∧ Members.Settles pairs props ∧ .object props = x := by
  rw [Outline.prepared, bind_eq_ok_iff]
  simp only [pure_eq_ok_iff, ← Members.ofList_eq_iff]
  constructor
  · exact fun ⟨pairs, read, made⟩ => ⟨pairs, _, read, rfl, made⟩
  · rintro ⟨pairs, props, read, rfl, made⟩
    exact ⟨pairs, read, made⟩

theorem Items.prepared_item_iff {v : Outline} {settled i : Nat} {next : Items} {xs : List Prepared} :
    (Items.item v settled next).prepared i = .ok xs ↔
      ∃ x later, v.prepared = .ok x ∧ next.prepared (i + 1) = .ok later ∧ x :: later = xs := by
  rw [Items.prepared]
  simp only [bind_eq_ok_iff, mapError_eq_ok_iff, pure_eq_ok_iff, exists_and_left]

theorem Fields.prepared_field_iff {key : String} {v : Outline} {next : Fields} {pairs : List (String × Prepared)} :
    (Fields.field key v next).prepared = .ok pairs ↔
      ∃ x later, v.prepared = .ok x ∧ next.prepared = .ok later ∧ (key, x) :: later = pairs := by
  rw [Fields.prepared]
  simp only [bind_eq_ok_iff, mapError_eq_ok_iff, pure_eq_ok_iff, exists_and_left]

mutual

theorem prepared_eq_ok_iff : (o : Outline) → o.Sound → ∀ x, o.prepared = .ok x ↔ o.Shows Written.Prepares x
  | .scalar v left, _, x => by
    rw [prepared_scalar_iff]
    constructor
    · rintro ⟨m, rfl, rfl⟩
      exact ⟨_, rfl, .scalar m⟩
    · rintro ⟨w, shown, prepares⟩
      cases v with
      | string s =>
        obtain rfl := Option.some.inj shown
        cases prepares with
        | scalar m => exact ⟨m, rfl, rfl⟩
      | _ => cases shown
  | .list start items, sound, x => by
    rw [prepared_list_iff, shows_list_iff]
    simp only [Items.prepared_eq_ok_iff items sound, Items.Shows]
    constructor
    · rintro ⟨xs, ⟨ws, shown, each⟩, rfl⟩
      exact ⟨ws, shown, .list each⟩
    · rintro ⟨ws, shown, prepares⟩
      cases prepares with
      | list each => exact ⟨_, ⟨ws, shown, each⟩, rfl⟩
  | .object start fields, sound, x => by
    rw [prepared_object_iff, shows_object_iff]
    simp only [Fields.prepared_eq_ok_iff fields sound, Fields.Shows]
    constructor
    · rintro ⟨pairs, props, ⟨ms, shown, each⟩, settled, rfl⟩
      exact ⟨ms, shown, .object each settled⟩
    · rintro ⟨ms, shown, prepares⟩
      cases prepares with
      | object each settled => exact ⟨_, _, ⟨ms, shown, each⟩, settled, rfl⟩
  | .fault f, _, x => iff_of_false nofun nofun
  | .deepList start, _, x => iff_of_false nofun nofun
  | .deepObject start, _, x => iff_of_false nofun nofun

theorem Items.prepared_eq_ok_iff : (items : Items) → items.Sound → ∀ i xs, items.prepared i = .ok xs ↔
    items.Shows Written.Prepares xs
  | .close left, _, i, xs => pure_eq_ok_iff.trans Items.shows_close_iff.symm
  | .item v settled next, sound, i, xs => by
    rw [Items.prepared_item_iff, Items.shows_item_iff]
    simp only [Outline.prepared_eq_ok_iff v sound.1, Items.prepared_eq_ok_iff next sound.2]
  | .broken v, sound, i, xs =>
    iff_of_false (failed_of_stopped (Outline.prepared_eq_ok_iff v sound.1) sound.2 xs) nofun
  | .fault f, _, i, xs => iff_of_false nofun nofun

theorem Fields.prepared_eq_ok_iff : (fields : Fields) → fields.Sound → ∀ pairs, fields.prepared = .ok pairs ↔
    fields.Shows Written.Prepares pairs
  | .close, _, pairs => pure_eq_ok_iff.trans Fields.shows_close_iff.symm
  | .field key v next, sound, pairs => by
    rw [Fields.prepared_field_iff, Fields.shows_field_iff]
    simp only [Outline.prepared_eq_ok_iff v sound.1, Fields.prepared_eq_ok_iff next sound.2]
  | .broken key v, sound, pairs =>
    iff_of_false (failed_of_stopped (Outline.prepared_eq_ok_iff v sound.1) sound.2 pairs) nofun
  | .fault f, _, pairs => iff_of_false nofun nofun
  | .bare f, _, pairs => iff_of_false nofun nofun

end

end Outline

/-! ### Authored schemas -/

namespace Outline

theorem authored_scalar_iff {v : Scalar} {left : Nat} {x : Authored} :
    (scalar v left).authored = .ok x ↔
      ∃ m : Marker, (v = .string m.sentinel ∨ v = .string m.name) ∧ .scalar m = x := by
  constructor
  · intro read
    unfold Outline.authored at read
    split at read
    · split at read
      · rename_i s m found
        refine ⟨m, ?_, Except.ok.inj read⟩
        exact (Marker.parse?_eq_some_iff.mp found).imp (fun same => congrArg _ same.symm) fun same =>
          congrArg _ same.symm
      · cases read
    · cases read
  · rintro ⟨m, rfl | rfl, rfl⟩ <;> cases m <;> rfl

theorem methodName_eq_ok_iff {v : Outline} {s : String} :
    v.methodName = .ok s ↔ v.written? = some (.string s) := by
  cases v with
  | scalar v left =>
    cases v with
    | string u => exact ⟨fun read => congrArg _ (congrArg _ (Except.ok.inj read)), fun shown =>
        congrArg _ (Written.string.inj (Option.some.inj shown))⟩
    | _ => exact iff_of_false nofun nofun
  | list start items =>
    refine iff_of_false nofun fun shown => ?_
    obtain ⟨ws, -, made⟩ := written?_list.mp shown
    cases made
  | object start fields =>
    refine iff_of_false nofun fun shown => ?_
    obtain ⟨ms, -, made⟩ := written?_object.mp shown
    cases made
  | _ => exact iff_of_false nofun nofun

theorem Items.method_item_iff {v : Outline} {settled : Nat} {next : Items} {m : Method} :
    (Items.item v settled next).method = .ok m ↔
      ∃ b : Builtin, v.written? = some (.string b.name) ∧ b.method = m := by
  rw [Items.method]
  simp only [bind_eq_ok_iff, mapError_eq_ok_iff, methodName_eq_ok_iff]
  constructor
  · rintro ⟨name, shown, read⟩
    split at read
    · rename_i n found
      obtain ⟨b, rfl, rfl⟩ := Method.ofName?_eq_some_iff.mp found
      exact ⟨b, shown, Except.ok.inj read⟩
    · cases read
  · rintro ⟨b, shown, rfl⟩
    refine ⟨b.name, shown, ?_⟩
    rw [Method.ofName?_eq_some_iff.mpr ⟨b, rfl, rfl⟩]
    rfl

theorem authored_list_iff {start : Nat} {items : Items} {x : Authored} :
    (list start items).authored = .ok x ↔
      ∃ m xs, items.method = .ok m ∧ items.authoredTail = .ok xs ∧ .list m xs = x := by
  rw [Outline.authored]
  simp only [bind_eq_ok_iff, pure_eq_ok_iff, exists_and_left]

theorem authored_object_iff {start : Nat} {fields : Fields} {x : Authored} :
    (object start fields).authored = .ok x ↔
      ∃ pairs props, fields.authored = .ok pairs ∧ Members.Settles pairs props ∧ .object props = x := by
  rw [Outline.authored, bind_eq_ok_iff]
  simp only [pure_eq_ok_iff, ← Members.ofList_eq_iff]
  constructor
  · exact fun ⟨pairs, read, made⟩ => ⟨pairs, _, read, rfl, made⟩
  · rintro ⟨pairs, props, read, rfl, made⟩
    exact ⟨pairs, read, made⟩

theorem Items.authored_item_iff {v : Outline} {settled i : Nat} {next : Items} {xs : List Authored} :
    (Items.item v settled next).authored i = .ok xs ↔
      ∃ x later, v.authored = .ok x ∧ next.authored (i + 1) = .ok later ∧ x :: later = xs := by
  rw [Items.authored]
  simp only [bind_eq_ok_iff, mapError_eq_ok_iff, pure_eq_ok_iff, exists_and_left]

theorem Fields.authored_field_iff {key : String} {v : Outline} {next : Fields} {pairs : List (String × Authored)} :
    (Fields.field key v next).authored = .ok pairs ↔
      ∃ x later, v.authored = .ok x ∧ next.authored = .ok later ∧ (key, x) :: later = pairs := by
  rw [Fields.authored]
  simp only [bind_eq_ok_iff, mapError_eq_ok_iff, pure_eq_ok_iff, exists_and_left]

mutual

theorem authored_eq_ok_iff : (o : Outline) → o.Sound → ∀ x, o.authored = .ok x ↔ o.Shows Written.Authors x
  | .scalar v left, _, x => by
    rw [authored_scalar_iff]
    constructor
    · rintro ⟨m, rfl | rfl, rfl⟩
      · exact ⟨_, rfl, .sentinel m⟩
      · exact ⟨_, rfl, .name m⟩
    · rintro ⟨w, shown, authors⟩
      cases v with
      | string s =>
        obtain rfl := Option.some.inj shown
        cases authors with
        | sentinel m => exact ⟨m, Or.inl rfl, rfl⟩
        | name m => exact ⟨m, Or.inr rfl, rfl⟩
      | _ => cases shown
  -- the first item names the method and is no schema
  | .list start (.item v settled next), sound, x => by
    rw [authored_list_iff, shows_list_iff]
    simp only [Items.method_item_iff, Items.written?_item, Items.authoredTail,
      Items.authored_eq_ok_iff next sound.2, Items.Shows]
    constructor
    · rintro ⟨m, xs, ⟨b, first, rfl⟩, ⟨ws, shown, each⟩, rfl⟩
      exact ⟨_, ⟨_, ws, first, shown, rfl⟩, .list b each⟩
    · rintro ⟨_, ⟨w, ws, first, shown, rfl⟩, authors⟩
      cases authors with
      | list b each => exact ⟨_, _, ⟨b, first, rfl⟩, ⟨ws, shown, each⟩, rfl⟩
  | .list start (.close left), _, x => by
    refine iff_of_false nofun ?_
    rintro ⟨w, shown, authors⟩
    obtain rfl := Option.some.inj shown
    cases authors
  | .list start (.fault f), _, x => iff_of_false nofun nofun
  | .list start (.broken v), _, x => by
    refine iff_of_false (fun read => ?_) nofun
    obtain ⟨m, xs, method, -⟩ := authored_list_iff.mp read
    obtain ⟨name, -, failed⟩ := bind_eq_ok_iff.mp method
    cases failed
  | .object start fields, sound, x => by
    rw [authored_object_iff, shows_object_iff]
    simp only [Fields.authored_eq_ok_iff fields sound, Fields.Shows]
    constructor
    · rintro ⟨pairs, props, ⟨ms, shown, each⟩, settled, rfl⟩
      exact ⟨ms, shown, .object each settled⟩
    · rintro ⟨ms, shown, authors⟩
      cases authors with
      | object each settled => exact ⟨_, _, ⟨ms, shown, each⟩, settled, rfl⟩
  | .fault f, _, x => iff_of_false nofun nofun
  | .deepList start, _, x => iff_of_false nofun nofun
  | .deepObject start, _, x => iff_of_false nofun nofun

theorem Items.authored_eq_ok_iff : (items : Items) → items.Sound → ∀ i xs, items.authored i = .ok xs ↔
    items.Shows Written.Authors xs
  | .close left, _, i, xs => pure_eq_ok_iff.trans Items.shows_close_iff.symm
  | .item v settled next, sound, i, xs => by
    rw [Items.authored_item_iff, Items.shows_item_iff]
    simp only [Outline.authored_eq_ok_iff v sound.1, Items.authored_eq_ok_iff next sound.2]
  | .broken v, sound, i, xs =>
    iff_of_false (failed_of_stopped (Outline.authored_eq_ok_iff v sound.1) sound.2 xs) nofun
  | .fault f, _, i, xs => iff_of_false nofun nofun

theorem Fields.authored_eq_ok_iff : (fields : Fields) → fields.Sound → ∀ pairs, fields.authored = .ok pairs ↔
    fields.Shows Written.Authors pairs
  | .close, _, pairs => pure_eq_ok_iff.trans Fields.shows_close_iff.symm
  | .field key v next, sound, pairs => by
    rw [Fields.authored_field_iff, Fields.shows_field_iff]
    simp only [Outline.authored_eq_ok_iff v sound.1, Fields.authored_eq_ok_iff next sound.2]
  | .broken key v, sound, pairs =>
    iff_of_false (failed_of_stopped (Outline.authored_eq_ok_iff v sound.1) sound.2 pairs) nofun
  | .fault f, _, pairs => iff_of_false nofun nofun
  | .bare f, _, pairs => iff_of_false nofun nofun

end

end Outline

end LeafPlan
