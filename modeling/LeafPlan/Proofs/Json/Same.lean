import LeafPlan.Proofs.Path.Kept
import Mathlib.Data.List.Nodup

/-!
# Documents that compare equal

Two documents compare equal if they differ in the order of members at most. `Json.same_of_alike` shows that they
do if along every path both have an object or both have one and the same other value.
-/

namespace LeafPlan

namespace Json

mutual

/-- Objects may differ in the order of their members. -/
def same : Json → Json → Bool
  | .null, .null => true
  | .bool a, .bool b => a == b
  | .number m, .number n => m == n
  | .string s, .string t => s == t
  | .array xs, .array ys => sameItems xs ys
  | .object ms, .object ns => ms.length == ns.length && sameMembers ms ns
  | _, _ => false

def sameItems : List Json → List Json → Bool
  | [], [] => true
  | x :: xs, y :: ys => same x y && sameItems xs ys
  | _, _ => false

/-- Each member on the left has an equal one on the right. -/
def sameMembers : List (String × Json) → List (String × Json) → Bool
  | [], _ => true
  | (k, x) :: ms, ns =>
    (match Members.find? k ns with
      | some y => same x y
      | none => false) && sameMembers ms ns

end

theorem sameItems_iff {xs ys : List Json} :
    sameItems xs ys = true ↔ List.Forall₂ (fun x y => x.same y = true) xs ys :=
  Zipwise.iff ⟨rfl, fun _ _ => rfl, fun _ _ => rfl, fun _ _ _ _ => rfl⟩

theorem keywise : Keywise same sameMembers where
  nil _ := rfl
  cons k _ _ ns := by
    rw [sameMembers]
    cases Members.find? k ns <;> rfl

theorem sameMembers_iff {ms ns : Members Json} :
    sameMembers ms ns = true ↔ ∀ m ∈ ms, ∃ y, Members.find? m.1 ns = some y ∧ m.2.same y = true :=
  keywise.iff

/-- With a key held twice, the second member would not be found. -/
theorem same_refl {d : Json} (distinct : d.Distinct) : d.same d = true := by
  induction d using Json.induction with
  | null => rfl
  | array items ih =>
    have below := distinct_array.mp distinct
    exact sameItems_iff.mpr (List.forall₂_same.mpr fun d member => ih d member (below d member))
  | object members ih =>
    obtain ⟨unique, below⟩ := distinct_object.mp distinct
    rw [same, beq_self_eq_true, Bool.true_and, sameMembers_iff]
    intro m member
    exact ⟨m.2, (Members.find?_eq_some_iff unique).mpr member, ih m member (below m member)⟩
  | _ => exact beq_self_eq_true _

/-! ### Compared path by path -/

/-- What is left of a value when an object's members are not looked at. -/
def outer : Json → Json
  | .object _ => .object []
  | d => d

/-- Along every path there is nothing in both documents, or an object, or one and the same other value. -/
def Alike (d e : Json) : Prop := ∀ p : Path, (Path.find? p d).map outer = (Path.find? p e).map outer

theorem Alike.symm {d e : Json} (alike : Alike d e) : Alike e d := fun p => (alike p).symm

theorem Alike.child {d e v : Json} (alike : Alike d e) {k : String} (found : d.child? k = some v) :
    ∃ w, e.child? k = some w ∧ Alike v w := by
  have below (p : Path) := alike (k :: p)
  simp only [Path.find?_document, found, Option.bind_some] at below
  cases there : e.child? k with
  | none =>
    have here := below []
    rw [there] at here
    cases here
  | some w =>
    refine ⟨w, rfl, fun p => ?_⟩
    rw [below p, there, Option.bind_some]

theorem Alike.keys_subset {ms ns : Members Json} (alike : Alike (.object ms) (.object ns)) :
    Members.keys ms ⊆ Members.keys ns := by
  intro k member
  by_contra absent
  cases found : Members.find? k ms with
  | none => exact Members.find?_eq_none_iff.mp found member
  | some v =>
    obtain ⟨w, there, -⟩ := alike.child (k := k) found
    exact absent (Members.mem_keys_of_mem (Members.mem_of_find? there))

theorem eq_of_outer {d e : Json} (outermost : d.outer = e.outer) :
    d = e ∨ ∃ ms ns, d = .object ms ∧ e = .object ns := by
  cases d <;> cases e <;> simp_all [outer]

theorem same_of_alike {d e : Json} (distinct : d.Distinct) (distinctToo : e.Distinct) (alike : Alike d e) :
    d.same e = true := by
  induction d using Json.induction generalizing e with
  | object ms ih =>
    rcases eq_of_outer (Option.some.inj (alike [])) with rfl | ⟨_, ns, -, rfl⟩
    · exact same_refl distinct
    · obtain ⟨unique, below⟩ := distinct_object.mp distinct
      obtain ⟨uniqueToo, belowToo⟩ := distinct_object.mp distinctToo
      have order : (Members.keys ms).Perm (Members.keys ns) :=
        (List.perm_ext_iff_of_nodup unique uniqueToo).mpr fun k =>
          ⟨fun member => alike.keys_subset member, fun member => alike.symm.keys_subset member⟩
      have lengths : ms.length = ns.length := by
        simpa [Members.keys] using order.length_eq
      rw [same, lengths, beq_self_eq_true, Bool.true_and, sameMembers_iff]
      intro m member
      obtain ⟨w, there, children⟩ := alike.child (k := m.1) ((Members.find?_eq_some_iff unique).mpr member)
      have found : (m.1, w) ∈ ns := Members.mem_of_find? there
      exact ⟨w, there, ih m member (below m member) (belowToo _ found) children⟩
  | _ =>
    -- nothing but an object has the outer form of one
    rcases eq_of_outer (Option.some.inj (alike [])) with rfl | ⟨_, _, other, -⟩
    · exact same_refl distinct
    · cases other

end Json

end LeafPlan
