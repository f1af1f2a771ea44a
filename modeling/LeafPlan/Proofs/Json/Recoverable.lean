import LeafPlan.Proofs.Json.Distinct
import LeafPlan.Proofs.Json.Integers

/-!
# Documents that a text gives back

A document is `Recoverable` where no object holds a key twice, every number is an integer of 64 bits, and it is
nested no deeper than the reader goes. What stands inside of such a document is such a document again.
-/

namespace LeafPlan.Json

mutual

/-- Every number in it satisfies `P`. -/
def Numbers (P : Number → Prop) : Json → Prop
  | .number n => P n
  | .array items => NumbersItems P items
  | .object members => NumbersMembers P members
  | _ => True

def NumbersItems (P : Number → Prop) : List Json → Prop
  | [] => True
  | d :: ds => d.Numbers P ∧ NumbersItems P ds

def NumbersMembers (P : Number → Prop) : List (String × Json) → Prop
  | [] => True
  | (_, d) :: ms => d.Numbers P ∧ NumbersMembers P ms

end

section

variable {P Q : Number → Prop}

mutual

def decideNumbers (P : Number → Prop) [DecidablePred P] : (d : Json) → Decidable (d.Numbers P)
  | .number n => inferInstanceAs (Decidable (P n))
  | .array items => decideNumbersItems P items
  | .object members => decideNumbersMembers P members
  | .null => .isTrue trivial
  | .bool _ => .isTrue trivial
  | .string _ => .isTrue trivial

def decideNumbersItems (P : Number → Prop) [DecidablePred P] : (items : List Json) → Decidable (NumbersItems P items)
  | [] => .isTrue trivial
  | d :: ds => @instDecidableAnd _ _ (decideNumbers P d) (decideNumbersItems P ds)

def decideNumbersMembers (P : Number → Prop) [DecidablePred P] :
    (members : List (String × Json)) → Decidable (NumbersMembers P members)
  | [] => .isTrue trivial
  | (_, d) :: ms => @instDecidableAnd _ _ (decideNumbers P d) (decideNumbersMembers P ms)

end

instance [DecidablePred P] : DecidablePred (Numbers P) := decideNumbers P

theorem numbers_array {items : List Json} : (Json.array items).Numbers P ↔ ∀ d ∈ items, d.Numbers P := by
  rw [Numbers]
  exact Itemwise.iff ⟨trivial, fun _ _ => Iff.rfl⟩

theorem numbers_object {members : Members Json} :
    (Json.object members).Numbers P ↔ ∀ m ∈ members, m.2.Numbers P := by
  rw [Numbers]
  exact Itemwise.iff ⟨trivial, fun _ _ => Iff.rfl⟩

theorem Numbers.mp {d : Json} (imp : d.Numbers fun n => P n → Q n) (numbers : d.Numbers P) : d.Numbers Q := by
  induction d using Json.induction with
  | number n => exact imp numbers
  | array items ih =>
    rw [numbers_array] at imp numbers ⊢
    exact fun d member => ih d member (imp d member) (numbers d member)
  | object members ih =>
    rw [numbers_object] at imp numbers ⊢
    exact fun m member => ih m member (imp m member) (numbers m member)
  | _ => trivial

end

mutual

/-- How deep arrays and objects are nested. -/
def depth : Json → Nat
  | .array items => depthItems items + 1
  | .object members => depthMembers members + 1
  | _ => 0

def depthItems : List Json → Nat
  | [] => 0
  | d :: ds => max d.depth (depthItems ds)

def depthMembers : List (String × Json) → Nat
  | [] => 0
  | (_, d) :: ms => max d.depth (depthMembers ms)

end

theorem depth_array_le_iff {items : List Json} {n : Nat} :
    (Json.array items).depth ≤ n + 1 ↔ ∀ d ∈ items, d.depth ≤ n := by
  rw [depth, Nat.succ_le_succ_iff]
  exact Deepest.le_iff ⟨rfl, fun _ _ => rfl⟩

theorem depth_object_le_iff {members : Members Json} {n : Nat} :
    (Json.object members).depth ≤ n + 1 ↔ ∀ m ∈ members, m.2.depth ≤ n := by
  rw [depth, Nat.succ_le_succ_iff]
  exact Deepest.le_iff ⟨rfl, fun _ _ => rfl⟩

/-- A document of `Distinct` keys whose numbers satisfy `P`, nested at most `n` deep. -/
structure Within (P : Number → Prop) (n : Nat) (d : Json) : Prop where
  distinct : d.Distinct
  numbers : d.Numbers P
  shallow : d.depth ≤ n

abbrev Recoverable : Nat → Json → Prop := Within Number.Whole

section

variable {P Q : Number → Prop} {m n : Nat}

instance [DecidablePred P] : DecidablePred (Within P n) := fun d =>
  decidable_of_iff (d.Distinct ∧ d.Numbers P ∧ d.depth ≤ n) ⟨fun h => ⟨h.1, h.2.1, h.2.2⟩, fun h => ⟨h.1, h.2, h.3⟩⟩

theorem within_null : Json.null.Within P n := ⟨trivial, trivial, Nat.zero_le n⟩

theorem within_bool (b : Bool) : (Json.bool b).Within P n := ⟨trivial, trivial, Nat.zero_le n⟩

theorem within_string (s : String) : (Json.string s).Within P n := ⟨trivial, trivial, Nat.zero_le n⟩

theorem within_array {items : List Json} : (Json.array items).Within P (n + 1) ↔ ∀ d ∈ items, d.Within P n := by
  constructor
  · rintro ⟨distinct, numbers, shallow⟩ d member
    rw [distinct_array] at distinct
    rw [numbers_array] at numbers
    rw [depth_array_le_iff] at shallow
    exact ⟨distinct d member, numbers d member, shallow d member⟩
  · intro each
    exact ⟨distinct_array.mpr fun d member => (each d member).distinct,
      numbers_array.mpr fun d member => (each d member).numbers,
      depth_array_le_iff.mpr fun d member => (each d member).shallow⟩

theorem within_object {members : Members Json} :
    (Json.object members).Within P (n + 1) ↔ (Members.keys members).Nodup ∧ ∀ m ∈ members, m.2.Within P n := by
  constructor
  · rintro ⟨distinct, numbers, shallow⟩
    rw [distinct_object] at distinct
    rw [numbers_object] at numbers
    rw [depth_object_le_iff] at shallow
    exact ⟨distinct.1, fun m member => ⟨distinct.2 m member, numbers m member, shallow m member⟩⟩
  · rintro ⟨unique, each⟩
    exact ⟨distinct_object.mpr ⟨unique, fun m member => (each m member).distinct⟩,
      numbers_object.mpr fun m member => (each m member).numbers,
      depth_object_le_iff.mpr fun m member => (each m member).shallow⟩

theorem Within.mono {d : Json} (within : d.Within P m) (le : m ≤ n) : d.Within P n :=
  ⟨within.distinct, within.numbers, Nat.le_trans within.shallow le⟩

/-- What stands in a list or an object is as deep as that at most. -/
theorem within_item {items : List Json} (within : (Json.array items).Within P n) {d : Json} (member : d ∈ items) :
    d.Within P n := by
  cases n with
  | zero => cases within.shallow
  | succ n => exact (within_array.mp within d member).mono (Nat.le_succ n)

theorem within_member {members : Members Json} (within : (Json.object members).Within P n) {m : String × Json}
    (member : m ∈ members) : m.2.Within P n := by
  cases n with
  | zero => cases within.shallow
  | succ n => exact ((within_object.mp within).2 m member).mono (Nat.le_succ n)

end

end LeafPlan.Json
