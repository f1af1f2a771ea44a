import LeafPlan.Json.Basic
import LeafPlan.Proofs.Itemwise

/-!
# Documents without repeated keys

The members of an object stand in a list, but no object holds a key twice. What is written into such a document
and what is found in it are such documents again.
-/

namespace LeafPlan.Json

theorem induction {P : Json → Prop} (null : P .null) (bool : ∀ b, P (.bool b)) (number : ∀ n, P (.number n))
    (string : ∀ s, P (.string s)) (array : ∀ items, (∀ d ∈ items, P d) → P (.array items))
    (object : ∀ members, (∀ m ∈ members, P m.2) → P (.object members)) (d : Json) : P d := by
  refine @Json.rec P (fun items => ∀ d ∈ items, P d) (fun members => ∀ m ∈ members, P m.2) (fun m => P m.2)
    null bool number string array object ?_ ?_ ?_ ?_ ?_ d
  · exact fun d member => nomatch member
  · exact fun d items here below => List.forall_mem_cons.mpr ⟨here, below⟩
  · exact fun m member => nomatch member
  · exact fun m members here below => List.forall_mem_cons.mpr ⟨here, below⟩
  · exact fun k d here => here

mutual

/-- No object holds a key twice. -/
def Distinct : Json → Prop
  | .array items => DistinctItems items
  | .object members => (Members.keys members).Nodup ∧ DistinctMembers members
  | _ => True

def DistinctItems : List Json → Prop
  | [] => True
  | d :: ds => d.Distinct ∧ DistinctItems ds

def DistinctMembers : List (String × Json) → Prop
  | [] => True
  | (_, d) :: ms => d.Distinct ∧ DistinctMembers ms

end

mutual

def decideDistinct : (d : Json) → Decidable d.Distinct
  | .array items => decideItems items
  | .object members => @instDecidableAnd _ _ inferInstance (decideMembers members)
  | .null => .isTrue trivial
  | .bool _ => .isTrue trivial
  | .number _ => .isTrue trivial
  | .string _ => .isTrue trivial

def decideItems : (items : List Json) → Decidable (DistinctItems items)
  | [] => .isTrue trivial
  | d :: ds => @instDecidableAnd _ _ (decideDistinct d) (decideItems ds)

def decideMembers : (members : List (String × Json)) → Decidable (DistinctMembers members)
  | [] => .isTrue trivial
  | (_, d) :: ms => @instDecidableAnd _ _ (decideDistinct d) (decideMembers ms)

end

instance : DecidablePred Distinct := decideDistinct

theorem distinctItems_iff {items : List Json} : DistinctItems items ↔ ∀ d ∈ items, d.Distinct :=
  Itemwise.iff ⟨trivial, fun _ _ => Iff.rfl⟩

theorem distinctMembers_iff {members : Members Json} : DistinctMembers members ↔ ∀ m ∈ members, m.2.Distinct :=
  Itemwise.iff ⟨trivial, fun _ _ => Iff.rfl⟩

theorem distinct_array {items : List Json} : (Json.array items).Distinct ↔ ∀ d ∈ items, d.Distinct := by
  rw [Distinct, distinctItems_iff]

theorem distinct_object {members : Members Json} :
    (Json.object members).Distinct ↔ (Members.keys members).Nodup ∧ ∀ m ∈ members, m.2.Distinct := by
  rw [Distinct, distinctMembers_iff]

end LeafPlan.Json
