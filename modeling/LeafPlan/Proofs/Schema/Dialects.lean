import Mathlib
import LeafPlan.Proofs.Schema.Loaded
import LeafPlan.Proofs.Schema.Prepare

/-!
# What the two dialects share

`dialects_overlap_without_arrays` shows that a prepared schema can be read as an authored one if and only if its text
has no array, and that it is the prepared form of that one then.
-/

namespace LeafPlan

open Grammar

theorem Marker.sentinel_ne_method (m : Marker) (b : Builtin) : m.sentinel ≠ b.name := by
  cases m <;> cases b <;> decide

namespace Written

mutual

/-- There is no array in it, not even in a member whose key comes again. -/
def ArrayFree : Written → Prop
  | .array _ => False
  | .object members => ArrayFreeMembers members
  | _ => True

def ArrayFreeMembers : List (String × Written) → Prop
  | [] => True
  | (_, w) :: ms => w.ArrayFree ∧ ArrayFreeMembers ms

end

theorem arrayFree_object_iff {members : List (String × Written)} :
    (Written.object members).ArrayFree ↔ ∀ m ∈ members, m.2.ArrayFree := by
  rw [ArrayFree]
  exact Itemwise.iff ⟨trivial, fun _ _ => Iff.rfl⟩

/-- The first item would have to be a sentinel and the name of a method. -/
theorem Prepares.not_authors_array {items : List Written} {x : Prepared} {o : Authored}
    (prepares : (Written.array items).Prepares x) : ¬ (Written.array items).Authors o := by
  intro authors
  cases authors with
  | list b each =>
    cases prepares with
    | list each' =>
      obtain ⟨y, ys, first, -⟩ := List.forall₂_cons_left_iff.mp each'
      generalize named : b.name = s at first
      cases first with
      | scalar m => exact m.sentinel_ne_method b named.symm

theorem Prepares.arrayFree_of_authors {w : Written} {x : Prepared} {o : Authored} (prepares : w.Prepares x)
    (authors : w.Authors o) : w.ArrayFree := by
  induction w using Written.induction generalizing x o with
  | null | bool | number => cases prepares
  | string s => trivial
  | array items ih => exact prepares.not_authors_array authors
  | object members ih =>
    cases prepares with
    | object each settled =>
      cases authors with
      | object each' settled' =>
        refine arrayFree_object_iff.mpr fun m member => ?_
        obtain ⟨p, -, prepares⟩ := Members.matches_left each m member
        obtain ⟨q, -, authors⟩ := Members.matches_left each' m member
        exact ih m member prepares authors

theorem Prepares.exists_authors {w : Written} {x : Prepared} (prepares : w.Prepares x) (free : w.ArrayFree) :
    ∃ o, w.Authors o ∧ o.prepare = x := by
  refine Prepares.induction (P := fun w x => w.ArrayFree → ∃ o, w.Authors o ∧ o.prepare = x) ?scalar ?list ?object
    prepares free
  case scalar => exact fun m _ => ⟨.scalar m, .sentinel m, rfl⟩
  case list => exact fun items xs _ free => free.elim
  case object =>
    intro members pairs props each settled free
    have free := arrayFree_object_iff.mp free
    have each : List.Forall₂ (Members.Matches fun w x => ∃ o, w.Authors o ∧ o.prepare = x) members pairs := by
      refine forall₂_imp_of_mem (fun m member q _ matched => ?_) each
      cases matched with
      | intro k here => exact .intro k (here (free _ member))
    obtain ⟨authored, matched, rfl⟩ := Members.exists_matches each
    refine ⟨.object (Members.ofList authored), .object matched (Members.settles_ofList authored), ?_⟩
    rw [Authored.prepare, Authored.prepareProps_eq, ← Members.ofList_map, Members.ofList_eq_iff.mpr settled]

end Written

/-- Where a prepared schema loads from a text, the text starts with one value only. An authored schema loads too if and
only if there is no array in that value, and its prepared form is the other schema. -/
theorem dialects_overlap_without_arrays {t : Text} {x : Prepared} (loaded : Prepared.load t = .ok x) :
    ∃ w, (∀ v, Front t v ↔ v = w) ∧ (w.ArrayFree ↔ ∃ o, Authored.load t = .ok o) ∧
      ∀ o, Authored.load t = .ok o → o.prepare = x := by
  obtain ⟨s, w, rest, blanks, value, shallow, prepares⟩ := Prepared.load_eq_ok_iff.mp loaded
  have front : Front t w := ⟨s, rest, blanks, value⟩
  have loads {o : Authored} : Authored.load t = .ok o ↔ w.depth ≤ 127 ∧ w.Authors o :=
    Authored.load_iff_of_front front prepares.plain
  have free {o : Authored} (loaded : Authored.load t = .ok o) : w.ArrayFree :=
    prepares.arrayFree_of_authors (loads.mp loaded).2
  have shared (free : w.ArrayFree) : ∃ o, Authored.load t = .ok o ∧ o.prepare = x := by
    obtain ⟨o, authors, same⟩ := prepares.exists_authors free
    exact ⟨o, loads.mpr ⟨shallow, authors⟩, same⟩
  refine ⟨w, fun v => ⟨fun other => (front_unique front prepares.plain other).symm, ?_⟩,
    ⟨fun free => ?_, fun ⟨o, loaded⟩ => free loaded⟩, fun o here => ?_⟩
  · rintro rfl
    exact front
  · obtain ⟨o, loaded, -⟩ := shared free
    exact ⟨o, loaded⟩
  · obtain ⟨o', there, same⟩ := shared (free here)
    obtain rfl := Except.ok.inj (here.symm.trans there)
    exact same

/-- A schema with a repeated key, blanks in front of it and a bracket behind it. -/
def Text.repeated : Text := ofString "\n\x7b\"a\": \"number__sjs\", \"b\": \x7b\x7d, \"a\": \"string__sjs\"\x7d]"

theorem dialects_overlap_without_arrays_repeated :
    (∃ w, Front Text.repeated w ∧ w.ArrayFree) ∧
      ∃ o, Authored.load Text.repeated = .ok o ∧
        o.prepare = .object [("a", .scalar .string), ("b", .object [])] := by
  have prepared : Prepared.load Text.repeated = .ok (.object [("a", .scalar .string), ("b", .object [])]) := by cbv
  have authored : Authored.load Text.repeated = .ok (.object [("a", .scalar .string), ("b", .object [])]) := by cbv
  obtain ⟨w, only, free, same⟩ := dialects_overlap_without_arrays prepared
  exact ⟨⟨w, (only w).mpr rfl, free.mpr ⟨_, authored⟩⟩, _, authored, same _ authored⟩

end LeafPlan
