import Mathlib
import LeafPlan.Proofs.Json.Documents
import LeafPlan.Proofs.Json.Unambiguous
import LeafPlan.Proofs.Schema.Grammar

/-!
# Where a document is refused as a schema

`refusals_name_first_offence` shows that a text which is a document, but no schema of a dialect, is refused at the
first value in it that the dialect has no place for, in the order of the text. The error shows the way to that value.
-/

namespace LeafPlan

open Grammar

/-! ### Places as messages show them -/

namespace TextStep

def alone : TextStep → String
  | .name k => k
  | .index i => s!"[{i}]"
  | .unknown => "?"

/-- What stands between a step and those in front of it. -/
def joint : TextStep → String
  | .index _ => ""
  | _ => "."

/-- Names are joined with points, a position stands in brackets behind what it is in, and the root is a point. -/
inductive Renders : List TextStep → String → Prop
  | root : Renders [] "."
  | one (s : TextStep) : Renders [s] s.alone
  | more {path : List TextStep} {shown : String} (s : TextStep) (below : path ≠ []) (front : Renders path shown) :
    Renders (path ++ [s]) (shown ++ (s.joint ++ s.alone))

theorem displayRest_append (p q : List TextStep) : displayRest (p ++ q) = displayRest p ++ displayRest q := by
  induction p with
  | nil => exact String.empty_append.symm
  | cons s p ih => cases s <;> simp only [List.cons_append, displayRest, ih, String.append_assoc]

theorem displayRest_singleton (s : TextStep) : displayRest [s] = s.joint ++ s.alone := by
  cases s <;> simp [displayRest, joint, alone]

theorem display_cons (s : TextStep) (p : List TextStep) : display (s :: p) = s.alone ++ displayRest p := by
  cases s <;> rfl

theorem renders_display (p : List TextStep) : Renders p (display p) := by
  induction p using List.reverseRecOn with
  | nil => exact .root
  | append_singleton p s ih =>
    cases p with
    | nil =>
      rw [List.nil_append, display_cons, displayRest, String.append_empty]
      exact .one s
    | cons r p =>
      rw [List.cons_append, display_cons, displayRest_append, displayRest_singleton, ← String.append_assoc,
        ← display_cons]
      exact .more s (List.cons_ne_nil r p) ih

end TextStep

namespace Written

/-- A value with the steps that lead to it. -/
structure Spot where
  path : List TextStep
  value : Written

def Spot.under (s : TextStep) (n : Spot) : Spot := ⟨s :: n.path, n.value⟩

mutual

/-- The value and all values inside it, in the order in which they start in the text. A member is among them also
if its key comes again. -/
def spots (w : Written) : List Spot :=
  ⟨[], w⟩ :: match w with
    | .array items => spotsItems 0 items
    | .object members => spotsMembers members
    | _ => []

/-- Those in the items from item `i` on. -/
def spotsItems (i : Nat) : List Written → List Spot
  | [] => []
  | w :: ws => w.spots.map (.under (.index i)) ++ spotsItems (i + 1) ws

def spotsMembers : List (String × Written) → List Spot
  | [] => []
  | (k, w) :: ms => w.spots.map (.under (.name k)) ++ spotsMembers ms

end

theorem spots_eq_cons (w : Written) : ∃ inside, w.spots = ⟨[], w⟩ :: inside := by
  cases w <;> exact ⟨_, rfl⟩

instance decidableNotString : (w : Written) → Decidable (∀ s, w ≠ .string s)
  | .string s => isFalse fun other => other s rfl
  | .null | .bool _ | .number _ | .array _ | .object _ => isTrue nofun

end Written

open Written

/-! ### What the dialects have no place for -/

/-- No value of a prepared schema, whatever stands inside it. -/
def Prepared.Rejects : Written → Prop
  | .string s => ∀ m : Marker, m.sentinel ≠ s
  | .array _ | .object _ => False
  | _ => True

instance : DecidablePred Prepared.Rejects
  | .string _ => decidable_of_iff _ Marker.ofSentinel?_eq_none_iff
  | .array _ | .object _ => instDecidableFalse
  | .null | .bool _ | .number _ => instDecidableTrue

/-- No value of an authored schema, whatever stands inside it behind the name of a method. -/
def Authored.Rejects : Written → Prop
  | .string s => ∀ m : Marker, m.sentinel ≠ s ∧ m.name ≠ s
  | .array (.string s :: _) => ∀ b : Builtin, b.name ≠ s
  | .array (_ :: _) | .object _ => False
  | _ => True

instance : DecidablePred Authored.Rejects
  | .string _ => decidable_of_iff _ Marker.parse?_eq_none_iff
  | .array (.string s :: _) => decidable_of_iff (Method.ofName? s = none) Method.ofName?_eq_none_iff
  | .array (.null :: _) | .array (.bool _ :: _) | .array (.number _ :: _) | .array (.array _ :: _)
  | .array (.object _ :: _) | .object _ => instDecidableFalse
  | .array [] | .null | .bool _ | .number _ => instDecidableTrue

/-- The first item of an array stands for its method, and any other value for a schema. -/
def Authored.Offends (n : Spot) : Prop :=
  if n.path.getLast? = some (.index 0) then ∀ s, n.value ≠ .string s else Rejects n.value

instance : DecidablePred Authored.Offends := fun n =>
  inferInstanceAs (Decidable (if n.path.getLast? = some (.index 0) then _ else Authored.Rejects n.value))

/-! ### The first offence -/

namespace Written

variable {P : Spot → Prop} [DecidablePred P]

/-- Where the first of the values with `P` stands. -/
def first? (P : Spot → Prop) [DecidablePred P] (w : Written) : Option (List TextStep) :=
  (w.spots.find? P).map Spot.path

theorem first?_self {w : Written} (here : P ⟨[], w⟩) : w.first? P = some [] := by
  obtain ⟨inside, same⟩ := spots_eq_cons w
  simp [first?, same, here]

theorem first?_string {s : String} (clear : ¬ P ⟨[], .string s⟩) : (string s).first? P = none := by
  have single : (string s).spots = [⟨[], .string s⟩] := rfl
  simp [first?, single, clear]

theorem first?_array {items : List Written} (clear : ¬ P ⟨[], .array items⟩) :
    (array items).first? P = ((spotsItems 0 items).find? P).map Spot.path := by
  simp [first?, spots, clear]

theorem first?_object {members : List (String × Written)} (clear : ¬ P ⟨[], .object members⟩) :
    (object members).first? P = ((spotsMembers members).find? P).map Spot.path := by
  simp [first?, spots, clear]

/-- Where the step to a value does not matter for `P`, the value is searched before the later ones. -/
theorem find?_under_append {s : TextStep} (blind : ∀ n, P (Spot.under s n) ↔ P n) (w : Written) (later : List Spot) :
    ((w.spots.map (Spot.under s) ++ later).find? P).map Spot.path =
      ((w.first? P).map (s :: ·)).or ((later.find? P).map Spot.path) := by
  have same : (fun n => decide (P n)) ∘ Spot.under s = fun n => decide (P n) :=
    funext fun n => decide_eq_decide.mpr (blind n)
  rw [List.find?_append, Option.map_or, List.find?_map, same, first?, Option.map_map, Option.map_map]
  rfl

end Written

/-- Where the text was refused. -/
def refusedAt? {α : Type} : Except Refusal α → Option (List TextStep)
  | .ok _ => none
  | .error r => some r.path

section

variable {α β γ : Type}

theorem refusedAt?_under (s : TextStep) (x : Except Refusal α) :
    refusedAt? (x.mapError (Refusal.under s)) = (refusedAt? x).map (s :: ·) := by
  cases x <;> rfl

theorem refusedAt?_made (x : Except Refusal α) (g : α → β) : refusedAt? (do return g (← x)) = refusedAt? x := by
  cases x <;> rfl

theorem refusedAt?_both (x : Except Refusal α) (y : Except Refusal β) (g : α → β → γ) :
    refusedAt? (do
      let a ← x
      return g a (← y)) = (refusedAt? x).or (refusedAt? y) := by
  cases x <;> cases y <;> rfl

end

/-! ### Prepared schemas -/

namespace Outline

mutual

theorem prepared_refusedAt : (o : Outline) → ∀ {w}, o.Holds w →
    refusedAt? o.prepared = w.first? fun n => Prepared.Rejects n.value
  | .scalar v left, _, .scalar here _ => by
    cases here with
    | string s =>
      rw [Outline.prepared]
      cases known : Marker.ofSentinel? s with
      | some m =>
        refine (first?_string fun rejected => ?_).symm
        rw [Marker.ofSentinel?_eq_none_iff.mpr rejected] at known
        cases known
      | none => exact (first?_self (Marker.ofSentinel?_eq_none_iff.mp known)).symm
    | _ => rfl
  | .list start items, _, .list _ inside => by
    rw [Outline.prepared, refusedAt?_made, Items.prepared_refusedAt items inside 0, first?_array not_false]
  | .object start fields, _, .object _ inside => by
    rw [Outline.prepared, refusedAt?_made, Fields.prepared_refusedAt fields inside, first?_object not_false]

theorem Items.prepared_refusedAt : (items : Items) → ∀ {ws}, items.Holds ws → ∀ i,
    refusedAt? (items.prepared i) =
      ((spotsItems i ws).find? fun n => Prepared.Rejects n.value).map Spot.path
  | .close _, _, .close _, _ => rfl
  | .item v settled next, _, .item here _ below, i => by
    rw [Items.prepared, refusedAt?_both, refusedAt?_under, Outline.prepared_refusedAt v here,
      Items.prepared_refusedAt next below (i + 1), spotsItems, find?_under_append fun n => Iff.rfl]

theorem Fields.prepared_refusedAt : (fields : Fields) → ∀ {ms}, fields.Holds ms →
    refusedAt? fields.prepared = ((spotsMembers ms).find? fun n => Prepared.Rejects n.value).map Spot.path
  | .close, _, .close => rfl
  | .field key v next, _, .field _ here below => by
    rw [Fields.prepared, refusedAt?_both, refusedAt?_under, Outline.prepared_refusedAt v here,
      Fields.prepared_refusedAt next below, spotsMembers, find?_under_append fun n => Iff.rfl]

end

end Outline

/-! ### Authored schemas -/

namespace Authored

theorem offends_under {s : TextStep} (other : s ≠ .index 0) (n : Spot) : Offends (n.under s) ↔ Offends n := by
  have last : (s :: n.path).getLast? = some (.index 0) ↔ n.path.getLast? = some (.index 0) := by
    cases n.path with
    | nil => simp [other]
    | cons s' rest => rw [List.getLast?_cons_cons]
  simp only [Offends, Spot.under, last]

theorem first?_array_other {w : Written} {ws : List Written} (other : ∀ s, w ≠ .string s) :
    (Written.array (w :: ws)).first? Offends = some [.index 0] := by
  have clear : ¬ Rejects (.array (w :: ws)) := by
    cases w with
    | string s => exact (other s rfl).elim
    | _ => exact not_false
  obtain ⟨inside, same⟩ := spots_eq_cons w
  have here : Offends (Spot.under (.index 0) ⟨[], w⟩) := other
  rw [first?_array clear, spotsItems, same, List.map_cons, List.cons_append, List.find?_cons_of_pos]
  · rfl
  · exact decide_eq_true here

theorem first?_array_named {s : String} {ws : List Written} (known : ¬ ∀ b : Builtin, b.name ≠ s) :
    (Written.array (.string s :: ws)).first? Offends = ((spotsItems 1 ws).find? Offends).map Spot.path := by
  have clear : ¬ Rejects (.array (.string s :: ws)) := known
  have here : ¬ Offends (Spot.under (.index 0) ⟨[], .string s⟩) := fun other => other s rfl
  rw [first?_array clear, spotsItems]
  exact congrArg _ (List.find?_cons_of_neg (by simpa using here))

end Authored

namespace Outline

theorem Items.method_refusedAt_string (s : String) (left settled : Nat) (next : Items) :
    refusedAt? (Items.item (.scalar (.string s) left) settled next).method =
      if Method.ofName? s = none then some [] else none := by
  simp only [Items.method, Outline.methodName, Except.mapError, bind, Except.bind]
  cases Method.ofName? s <;> rfl

theorem Items.method_refusedAt_other {v : Outline} {w : Written} (here : v.Holds w) (other : ∀ s, w ≠ .string s)
    (settled : Nat) (next : Items) : refusedAt? (Items.item v settled next).method = some [.index 0] := by
  cases here with
  | scalar here left =>
    cases here with
    | string s => exact (other s rfl).elim
    | _ => rfl
  | _ => rfl

mutual

theorem authored_refusedAt : (o : Outline) → ∀ {w}, o.Holds w → refusedAt? o.authored = w.first? Authored.Offends
  | .scalar v left, _, .scalar here _ => by
    cases here with
    | string s =>
      rw [Outline.authored]
      cases known : Marker.parse? s with
      | some m =>
        refine (first?_string fun rejected => ?_).symm
        rw [Marker.parse?_eq_none_iff.mpr rejected] at known
        cases known
      | none =>
        have rejected : Authored.Offends ⟨[], .string s⟩ := Marker.parse?_eq_none_iff.mp known
        exact (first?_self rejected).symm
    | _ => rfl
  | .list start (.close left), _, .list _ (.close _) => rfl
  | .list start (.item v settled next), .array (w :: ws), .list _ (.item here _ below) => by
    rw [Outline.authored, refusedAt?_both, Items.authoredTail, Items.authored_refusedAt next below 0]
    -- the first item stands for the method, so nothing inside it is read as a schema
    by_cases other : ∀ s, w ≠ .string s
    · rw [Items.method_refusedAt_other here other, Authored.first?_array_other other]
      rfl
    · obtain ⟨s, rfl⟩ := not_forall_not.mp other
      obtain ⟨⟨-⟩, left⟩ := here
      rw [Items.method_refusedAt_string]
      split
      · rename_i unknown
        have rejected : Authored.Offends ⟨[], .array (.string s :: ws)⟩ := Method.ofName?_eq_none_iff.mp unknown
        exact (first?_self rejected).symm
      · rename_i known
        rw [Authored.first?_array_named (mt Method.ofName?_eq_none_iff.mpr known)]
        rfl
  | .object start fields, _, .object _ inside => by
    rw [Outline.authored, refusedAt?_made, Fields.authored_refusedAt fields inside, first?_object not_false]

/-- Behind the method, where no item is the first one. -/
theorem Items.authored_refusedAt : (items : Items) → ∀ {ws}, items.Holds ws → ∀ i,
    refusedAt? (items.authored (i + 1)) = ((spotsItems (i + 1) ws).find? Authored.Offends).map Spot.path
  | .close _, _, .close _, _ => rfl
  | .item v settled next, _, .item here _ below, i => by
    rw [Items.authored, refusedAt?_both, refusedAt?_under, Outline.authored_refusedAt v here,
      Items.authored_refusedAt next below (i + 1), spotsItems, find?_under_append (Authored.offends_under (by simp))]

theorem Fields.authored_refusedAt : (fields : Fields) → ∀ {ms}, fields.Holds ms →
    refusedAt? fields.authored = ((spotsMembers ms).find? Authored.Offends).map Spot.path
  | .close, _, .close => rfl
  | .field key v next, _, .field _ here below => by
    rw [Fields.authored, refusedAt?_both, refusedAt?_under, Outline.authored_refusedAt v here,
      Fields.authored_refusedAt next below, spotsMembers, find?_under_append (Authored.offends_under (by simp))]

end

end Outline

/-! ### Whole texts -/

theorem Json.holds_of_read {t : Text} {d : Json} (accepted : read t = .ok d) :
    ∃ w, Fills t w ∧ (Outline.read t).1.Holds w := by
  obtain ⟨s, w, rest, blanks, value, behind, shallow, denotes⟩ := read_eq_ok_iff.mp accepted
  obtain ⟨o, got, holds⟩ := Outline.read_of_value blanks value behind shallow denotes.ranged
  rw [got]
  exact ⟨w, ⟨s, rest, blanks, value, behind⟩, holds⟩

theorem error_at_first_offence {α : Type} {P : Spot → Prop} [DecidablePred P] {x : Except Refusal α} {w : Written}
    (first : refusedAt? x = w.first? P) (t : Text) :
    (∀ e, x.mapError (Refusal.toLoadError t) = .error e →
      ∃ n, w.spots.find? P = some n ∧ TextStep.Renders n.path e.path) ∧
    ((∃ a, x.mapError (Refusal.toLoadError t) = .ok a) ↔ ∀ n ∈ w.spots, ¬ P n) := by
  cases x with
  | ok a =>
    have none : w.spots.find? P = none := Option.map_eq_none_iff.mp first.symm
    exact ⟨nofun, iff_of_true ⟨a, rfl⟩ (by simpa using none)⟩
  | error r =>
    obtain ⟨n, found, path⟩ := Option.map_eq_some_iff.mp first.symm
    refine ⟨fun e same => ⟨n, found, ?_⟩, iff_of_false nofun fun clear => ?_⟩
    · rw [path, ← Except.error.inj same]
      exact TextStep.renders_display r.path
    · exact clear n (List.mem_of_find?_eq_some found) (by simpa using List.find?_some found)

/-- A text that is a document holds one value, in which every repeated key counts. If it is no prepared schema, it is
refused at the first value there that is neither a container nor a sentinel. If it is no authored schema, it is
refused at the first value there that has no type's name, or is an array without a method, or stands for the method
of an array without being a string. -/
theorem refusals_name_first_offence {t : Text} {d : Json} (accepted : Json.read t = .ok d) :
    ∃ w, (∀ v, Fills t v ↔ v = w) ∧
      (∀ e, Prepared.load t = .error e → ∃ n,
        w.spots.find? (fun n => Prepared.Rejects n.value) = some n ∧ TextStep.Renders n.path e.path) ∧
      ((∃ x, Prepared.load t = .ok x) ↔ ∀ n ∈ w.spots, ¬ Prepared.Rejects n.value) ∧
      (∀ e, Authored.load t = .error e → ∃ n,
        w.spots.find? Authored.Offends = some n ∧ TextStep.Renders n.path e.path) ∧
      ((∃ o, Authored.load t = .ok o) ↔ ∀ n ∈ w.spots, ¬ Authored.Offends n) := by
  obtain ⟨w, fills, holds⟩ := Json.holds_of_read accepted
  obtain ⟨named, loads⟩ := error_at_first_offence (Outline.prepared_refusedAt _ holds) t
  obtain ⟨named', loads'⟩ := error_at_first_offence (Outline.authored_refusedAt _ holds) t
  refine ⟨w, fun v => ⟨fun other => fills_unique other fills, ?_⟩, named, loads, named', loads'⟩
  rintro rfl
  exact fills

/-- No schema of either dialect. -/
def Text.mixed : Text :=
  ofString "\x7b\"a\":\x7b\"b\":[\"json\",\"number\"]\x7d,\"a\":\"number__sjs\",\"c\":[5,null]\x7d"

/-- The value that the repeated key drops is refused all the same. -/
theorem refusals_name_first_offence_mixed : ∃ w, Fills Text.mixed w ∧
    (∃ n, w.spots.find? (fun n => Prepared.Rejects n.value) = some n ∧ TextStep.Renders n.path "a.b[0]") ∧
    (∃ n, w.spots.find? Authored.Offends = some n ∧ TextStep.Renders n.path "c[0]") := by
  have accepted : Json.read Text.mixed =
      .ok (.object [("a", .string "number__sjs"), ("c", .array [.number (.int 5), .null])]) := by
    cbv
  have prepared : (Outline.read Text.mixed).1.prepared =
      .error ⟨[.name "a", .name "b", .index 0], .unknownMarker "json", 43⟩ := by
    cbv
  have authored : (Outline.read Text.mixed).1.authored =
      .error ⟨[.name "c", .index 0], .invalid (.scalar (.number (.int 5))) .methodName, 7⟩ := by
    cbv
  obtain ⟨w, only, named, -, named', -⟩ := refusals_name_first_offence accepted
  obtain ⟨n, first, path⟩ := named _ (congrArg (Except.mapError (Refusal.toLoadError _)) prepared)
  obtain ⟨n', first', path'⟩ := named' _ (congrArg (Except.mapError (Refusal.toLoadError _)) authored)
  exact ⟨w, (only w).mpr rfl, ⟨n, first, path⟩, n', first', path'⟩

end LeafPlan
