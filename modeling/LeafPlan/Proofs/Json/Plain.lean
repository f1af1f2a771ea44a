import LeafPlan.Proofs.Json.Reading

/-!
# Values of strings, arrays and objects

Where all scalars are strings, an outline alone says which value is written. `Outline.readValue_iff` shows that the
reader gets through such a value if and only if the grammar has it in front of the text and it is not nested too
deep.
-/

namespace LeafPlan

open Grammar

namespace Outline

mutual

/-- The value that an outline shows, if its reader got through and all scalars are strings. -/
def written? : Outline → Option Written
  | .scalar (.string s) _ => some (.string s)
  | .list _ items => items.written?.map .array
  | .object _ members => members.written?.map .object
  | _ => none

def Items.written? : Items → Option (List Written)
  | .close _ => some []
  | .item v _ next => do
    let w ← v.written?
    return w :: (← next.written?)
  | _ => none

def Fields.written? : Fields → Option (List (String × Written))
  | .close => some []
  | .field key v next => do
    let w ← v.written?
    return (key, w) :: (← next.written?)
  | _ => none

end

theorem written?_list {start : Nat} {items : Items} {w : Written} :
    (list start items).written? = some w ↔ ∃ ws, items.written? = some ws ∧ .array ws = w := by
  rw [Outline.written?, Option.map_eq_some_iff]

theorem written?_object {start : Nat} {fields : Fields} {w : Written} :
    (object start fields).written? = some w ↔ ∃ ms, fields.written? = some ms ∧ .object ms = w := by
  rw [Outline.written?, Option.map_eq_some_iff]

theorem Items.written?_item {v : Outline} {settled : Nat} {next : Items} {ws : List Written} :
    (Items.item v settled next).written? = some ws ↔
      ∃ w later, v.written? = some w ∧ next.written? = some later ∧ w :: later = ws := by
  simp [Items.written?, Option.bind_eq_some_iff]

theorem Fields.written?_field {key : String} {v : Outline} {next : Fields} {ms : List (String × Written)} :
    (Fields.field key v next).written? = some ms ↔
      ∃ w later, v.written? = some w ∧ next.written? = some later ∧ (key, w) :: later = ms := by
  simp [Fields.written?, Option.bind_eq_some_iff]

mutual

theorem written?_of_holds : (o : Outline) → ∀ {w}, o.Holds w → w.Plain → o.written? = some w
  | .scalar _ _, _, .scalar (.string _) _, _ => rfl
  | .list _ items, _, .list _ inside, plain =>
    written?_list.mpr ⟨_, items.written?_of_holds inside (Written.plain_array_iff.mp plain), rfl⟩
  | .object _ fields, _, .object _ inside, plain =>
    written?_object.mpr ⟨_, fields.written?_of_holds inside (Written.plain_object_iff.mp plain), rfl⟩

theorem Items.written?_of_holds : (items : Items) → ∀ {ws}, items.Holds ws → (∀ w ∈ ws, w.Plain) →
    items.written? = some ws
  | .close _, _, .close _, _ => rfl
  | .item v _ next, _, .item here _ below, plain => by
    obtain ⟨first, later⟩ := List.forall_mem_cons.mp plain
    exact Items.written?_item.mpr ⟨_, _, v.written?_of_holds here first, next.written?_of_holds below later, rfl⟩

theorem Fields.written?_of_holds : (fields : Fields) → ∀ {ms}, fields.Holds ms → (∀ m ∈ ms, m.2.Plain) →
    fields.written? = some ms
  | .close, _, .close, _ => rfl
  | .field _ v next, _, .field _ here below, plain => by
    obtain ⟨first, later⟩ := List.forall_mem_cons.mp plain
    exact Fields.written?_field.mpr ⟨_, _, v.written?_of_holds here first, next.written?_of_holds below later, rfl⟩

end

mutual

theorem plain_of_written? : (o : Outline) → ∀ {w v}, o.Holds w → o.written? = some v → w.Plain
  | .scalar _ _, _, _, .scalar here _, shown => by
    cases here with
    | string s => trivial
    | _ => cases shown
  | .list _ items, _, _, .list _ inside, shown => by
    obtain ⟨ws, shown, -⟩ := written?_list.mp shown
    exact Written.plain_array_iff.mpr (items.plain_of_written? inside shown)
  | .object _ fields, _, _, .object _ inside, shown => by
    obtain ⟨ms, shown, -⟩ := written?_object.mp shown
    exact Written.plain_object_iff.mpr (fields.plain_of_written? inside shown)

theorem Items.plain_of_written? : (items : Items) → ∀ {ws vs}, items.Holds ws → items.written? = some vs →
    ∀ w ∈ ws, w.Plain
  | .close _, _, _, .close _, _ => nofun
  | .item v _ next, _, _, .item here _ below, shown => by
    obtain ⟨_, _, first, later, -⟩ := Items.written?_item.mp shown
    exact List.forall_mem_cons.mpr ⟨v.plain_of_written? here first, next.plain_of_written? below later⟩

theorem Fields.plain_of_written? : (fields : Fields) → ∀ {ms ns}, fields.Holds ms → fields.written? = some ns →
    ∀ m ∈ ms, m.2.Plain
  | .close, _, _, .close, _ => nofun
  | .field _ v next, _, _, .field _ here below, shown => by
    obtain ⟨_, _, first, later, -⟩ := Fields.written?_field.mp shown
    exact List.forall_mem_cons.mpr ⟨v.plain_of_written? here first, next.plain_of_written? below later⟩

end

/-- The text starts with a value of strings, arrays and objects that is at most `n` deep. -/
def Readable (n : Nat) (t : Text) (w : Written) (rest : Text) : Prop :=
  Value t w rest ∧ w.depth ≤ n ∧ w.Plain

theorem readValue_iff (n : Nat) (t : Text) (w : Written) (rest : Text) :
    (∃ o, readValue n t = (o, some rest) ∧ o.written? = some w) ↔ ∃ s, Blanks t s ∧ Readable n s w rest := by
  constructor
  · rintro ⟨o, read, shown⟩
    have found := (readValue_reads n).finds t
    rw [read] at found
    obtain ⟨s, v, blanks, legible, holds⟩ := found
    have plain := o.plain_of_written? holds shown
    obtain rfl := Option.some.inj ((o.written?_of_holds holds plain).symm.trans shown)
    exact ⟨s, blanks, legible.value, legible.shallow, plain⟩
  · rintro ⟨s, blanks, value, shallow, plain⟩
    have legible : Legible n s w rest := by
      refine ⟨value, shallow, plain.ranged, ?_⟩
      rintro cs rfl
      exact plain.elim
    obtain ⟨o, read, holds⟩ := (readValue_reads n).takes blanks legible
    exact ⟨o, read, o.written?_of_holds holds plain⟩

end Outline

end LeafPlan
