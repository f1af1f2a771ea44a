import LeafPlan.Proofs.Json.Plain

/-!
# What a stopped reader leaves

An outline whose reader was stopped shows no value, and neither does any outline inside which the reader was
stopped.
-/

namespace LeafPlan.Outline

mutual

/-- A value inside which the reader was stopped shows nothing. -/
def Sound : Outline → Prop
  | .list _ items => items.Sound
  | .object _ fields => fields.Sound
  | _ => True

def Items.Sound : Items → Prop
  | .item v _ next => v.Sound ∧ next.Sound
  | .broken v => v.Sound ∧ v.written? = none
  | _ => True

def Fields.Sound : Fields → Prop
  | .field _ v next => v.Sound ∧ next.Sound
  | .broken _ v => v.Sound ∧ v.written? = none
  | _ => True

end

/-- What the reader finds is sound, and shows nothing if the reader was stopped. -/
def Stops (value : Step) : Prop :=
  ∀ t, (value t).1.Sound ∧ ((value t).2 = none → (value t).1.written? = none)

mutual

theorem Holds.sound : (o : Outline) → ∀ {w}, o.Holds w → o.Sound
  | .scalar _ _, _, _ => trivial
  | .list _ items, _, .list _ inside => Items.Holds.sound items inside
  | .object _ fields, _, .object _ inside => Fields.Holds.sound fields inside

theorem Items.Holds.sound : (items : Items) → ∀ {ws}, items.Holds ws → items.Sound
  | .close _, _, _ => trivial
  | .item v _ next, _, .item here _ below => ⟨Outline.Holds.sound v here, Items.Holds.sound next below⟩

theorem Fields.Holds.sound : (fields : Fields) → ∀ {ms}, fields.Holds ms → fields.Sound
  | .close, _, _ => trivial
  | .field _ v next, _, .field _ here below => ⟨Outline.Holds.sound v here, Fields.Holds.sound next below⟩

end

mutual

theorem Stopped.shows : (o : Outline) → o.Stopped → o.Sound ∧ o.written? = none
  | .fault _, _ | .deepList _, _ | .deepObject _, _ => ⟨trivial, rfl⟩
  | .list _ items, .list _ inside => by
    obtain ⟨sound, nothing⟩ := Items.Stopped.shows items inside
    exact ⟨sound, by rw [written?, nothing]; rfl⟩
  | .object _ fields, .object _ inside => by
    obtain ⟨sound, nothing⟩ := Fields.Stopped.shows fields inside
    exact ⟨sound, by rw [written?, nothing]; rfl⟩

theorem Items.Stopped.shows : (items : Items) → items.Stopped → items.Sound ∧ items.written? = none
  | .fault _, _ => ⟨trivial, rfl⟩
  | .item v _ next, .item here _ below => by
    obtain ⟨sound, nothing⟩ := Items.Stopped.shows next below
    exact ⟨⟨here.sound, sound⟩, by simp [Items.written?, nothing]⟩
  | .broken v, .broken inside => ⟨Outline.Stopped.shows v inside, rfl⟩

theorem Fields.Stopped.shows : (fields : Fields) → fields.Stopped → fields.Sound ∧ fields.written? = none
  | .fault _, _ | .bare _, _ => ⟨trivial, rfl⟩
  | .field _ v next, .field _ here below => by
    obtain ⟨sound, nothing⟩ := Fields.Stopped.shows next below
    exact ⟨⟨here.sound, sound⟩, by simp [Fields.written?, nothing]⟩
  | .broken _ v, .broken _ inside => ⟨Outline.Stopped.shows v inside, rfl⟩

end

theorem readValue_stops (n : Nat) : Stops (readValue n) := by
  intro t
  have ended := (readValue_reads n).finds t
  match result : readValue n t with
  | (o, none) =>
    rw [result] at ended
    obtain ⟨sound, nothing⟩ := Stopped.shows o ended
    exact ⟨sound, fun _ => nothing⟩
  | (o, some rest) =>
    rw [result] at ended
    obtain ⟨s, w, -, -, holds⟩ := ended
    exact ⟨holds.sound, fun stopped => absurd stopped (Option.some_ne_none _)⟩

end LeafPlan.Outline
