import LeafPlan.Members
import Mathlib.Data.List.Induction

/-!
# Members looked up, written and listed

What `Members.find?` sees behind `Members.insert`, the keys of member lists, and what is left of members that are
written one after another.
-/

namespace LeafPlan.Members

variable {α : Type}

/-! ### Looking up -/

theorem find?_cons (k j : String) (v : α) (m : Members α) :
    find? k ((j, v) :: m) = if j = k then some v else find? k m := rfl

theorem mem_keys_of_mem {k : String} {v : α} {m : Members α} (member : (k, v) ∈ m) : k ∈ keys m :=
  List.mem_map_of_mem member

theorem mem_of_find? {k : String} {v : α} {m : Members α} (found : find? k m = some v) : (k, v) ∈ m := by
  induction m with
  | nil => cases found
  | cons p rest ih =>
    obtain ⟨j, w⟩ := p
    rw [find?_cons] at found
    split at found
    · rename_i same
      obtain rfl := Option.some.inj found
      rw [same]
      exact List.mem_cons_self
    · exact List.mem_cons_of_mem _ (ih found)

theorem find?_eq_none_iff {k : String} {m : Members α} : find? k m = none ↔ k ∉ keys m := by
  induction m with
  | nil => simp [find?, keys]
  | cons p rest ih =>
    obtain ⟨j, w⟩ := p
    rw [find?_cons, keys, List.map_cons, List.mem_cons]
    by_cases same : j = k
    · simp [same]
    · rw [if_neg same, ih, keys]
      simp [Ne.symm same]

/-- Where no key is repeated, a key leads to every member that has it. -/
theorem find?_eq_some_iff {k : String} {v : α} {m : Members α} (distinct : (keys m).Nodup) :
    find? k m = some v ↔ (k, v) ∈ m := by
  refine ⟨mem_of_find?, fun member => ?_⟩
  induction m with
  | nil => cases member
  | cons p rest ih =>
    obtain ⟨j, w⟩ := p
    obtain ⟨fresh, distinct⟩ := List.nodup_cons.mp distinct
    rw [find?_cons]
    rcases List.mem_cons.mp member with here | there
    · obtain ⟨rfl, rfl⟩ := Prod.mk.inj here
      exact if_pos rfl
    · have other : j ≠ k := by
        rintro rfl
        exact fresh (mem_keys_of_mem there)
      rw [if_neg other]
      exact ih distinct there

/-! ### Writing -/

theorem insert_cons (k j : String) (v w : α) (m : Members α) :
    insert k v ((j, w) :: m) = if j = k then (j, v) :: m else (j, w) :: insert k v m := rfl

theorem find?_insert (k j : String) (v : α) (m : Members α) :
    find? j (insert k v m) = if k = j then some v else find? j m := by
  induction m with
  | nil => rfl
  | cons p rest ih =>
    obtain ⟨l, w⟩ := p
    rw [insert_cons]
    by_cases same : l = k
    · rw [if_pos same, find?_cons, find?_cons, same]
      split <;> rfl
    · rw [if_neg same, find?_cons, find?_cons, ih]
      by_cases here : l = j
      · rw [if_pos here, if_pos here, if_neg (fun equal => same (here.trans equal.symm))]
      · rw [if_neg here, if_neg here]

@[simp] theorem find?_insert_self (k : String) (v : α) (m : Members α) : find? k (insert k v m) = some v := by
  rw [find?_insert, if_pos rfl]

theorem find?_insert_of_ne {k j : String} (other : k ≠ j) (v : α) (m : Members α) :
    find? j (insert k v m) = find? j m := by
  rw [find?_insert, if_neg other]

/-- The second of two writes to a key stands in the place of the first. -/
@[simp] theorem insert_insert (k : String) (v w : α) (m : Members α) :
    insert k w (insert k v m) = insert k w m := by
  induction m with
  | nil => simp [insert]
  | cons p rest ih =>
    obtain ⟨j, u⟩ := p
    by_cases same : j = k
    · simp [insert_cons, same]
    · simp [insert_cons, same, ih]

theorem insert_of_find? {k : String} {v : α} {m : Members α} (found : find? k m = some v) :
    insert k v m = m := by
  induction m with
  | nil => cases found
  | cons p rest ih =>
    obtain ⟨j, u⟩ := p
    rw [find?_cons] at found
    rw [insert_cons]
    split at found
    · rename_i same
      rw [if_pos same, Option.some.inj found]
    · rename_i other
      rw [if_neg other, ih found]

theorem insert_map {β : Type} (f : α → β) (k : String) (v : α) (m : Members α) :
    insert k (f v) (m.map fun q => (q.1, f q.2)) = (insert k v m).map fun q => (q.1, f q.2) := by
  induction m with
  | nil => rfl
  | cons p rest ih =>
    obtain ⟨j, u⟩ := p
    rw [List.map_cons, insert_cons, insert_cons, ih]
    split <;> rfl

theorem insert_of_not_mem {k : String} {m : Members α} (v : α) (absent : k ∉ keys m) :
    insert k v m = m ++ [(k, v)] := by
  induction m with
  | nil => rfl
  | cons p rest ih =>
    obtain ⟨j, u⟩ := p
    obtain ⟨other, absent⟩ := not_or.mp (mt List.mem_cons.mpr absent)
    rw [insert_cons, if_neg (Ne.symm other), ih absent, List.cons_append]

theorem mem_insert {k : String} {v : α} {m : Members α} {p : String × α} (member : p ∈ insert k v m) :
    p = (k, v) ∨ p ∈ m := by
  induction m with
  | nil => exact .inl (List.mem_singleton.mp member)
  | cons q rest ih =>
    obtain ⟨j, u⟩ := q
    rw [insert_cons] at member
    split at member
    · rename_i same
      rcases List.mem_cons.mp member with here | old
      · exact .inl (same ▸ here)
      · exact .inr (List.mem_cons_of_mem _ old)
    · rcases List.mem_cons.mp member with here | old
      · exact .inr (here ▸ List.mem_cons_self)
      · exact (ih old).imp_right (List.mem_cons_of_mem _)

theorem keys_insert (k : String) (v : α) (m : Members α) :
    keys (insert k v m) = if k ∈ keys m then keys m else keys m ++ [k] := by
  by_cases present : k ∈ keys m
  · rw [if_pos present]
    induction m with
    | nil => cases present
    | cons p rest ih =>
      obtain ⟨j, u⟩ := p
      rw [insert_cons]
      by_cases same : j = k
      · rw [if_pos same]
        rfl
      · have below : k ∈ keys rest := (List.mem_cons.mp present).resolve_left (Ne.symm same)
        rw [if_neg same]
        exact congrArg (j :: ·) (ih below)
  · rw [if_neg present, insert_of_not_mem v present, keys, List.map_append]
    rfl

theorem keys_prefix_insert (k : String) (v : α) (m : Members α) : keys m <+: keys (insert k v m) := by
  rw [keys_insert]
  split
  · exact List.prefix_rfl
  · exact List.prefix_append _ _

theorem nodup_keys_insert (k : String) (v : α) {m : Members α} (distinct : (keys m).Nodup) :
    (keys (insert k v m)).Nodup := by
  rw [keys_insert]
  split
  · exact distinct
  · rename_i absent
    exact List.nodup_append.mpr ⟨distinct, by simp, by
      rintro j member l single rfl
      rw [List.mem_singleton.mp single] at member
      exact absent member⟩

/-! ### Written one after another -/

/-- `m` is what `pairs` leave when they are written one after another: every key stands in the place where it came
first, with the value that came last. -/
structure Settles (pairs : List (String × α)) (m : Members α) : Prop where
  first : keys m = (keys pairs).eraseDups
  last : ∀ k, find? k m = find? k pairs.reverse

theorem ext_of_find? {m n : Members α} (distinct : (keys m).Nodup) (order : keys m = keys n)
    (same : ∀ k, find? k m = find? k n) : m = n := by
  induction m generalizing n with
  | nil => exact (List.map_eq_nil_iff.mp order.symm).symm
  | cons p rest ih =>
    obtain ⟨k, v⟩ := p
    cases n with
    | nil => cases order
    | cons q tail =>
      obtain ⟨j, w⟩ := q
      obtain ⟨rfl, (below : keys rest = keys tail)⟩ := List.cons.inj order
      obtain ⟨fresh, distinct⟩ := List.nodup_cons.mp distinct
      have value := same k
      rw [find?_cons, find?_cons, if_pos rfl, if_pos rfl] at value
      obtain rfl := Option.some.inj value
      refine congrArg _ (ih distinct below fun l => ?_)
      by_cases here : k = l
      · subst here
        rw [find?_eq_none_iff.mpr fresh, find?_eq_none_iff.mpr (below ▸ fresh)]
      · have other := same l
        rwa [find?_cons, find?_cons, if_neg here, if_neg here] at other

theorem ofList_append_singleton (pairs : List (String × α)) (p : String × α) :
    ofList (pairs ++ [p]) = insert p.1 p.2 (ofList pairs) := by
  rw [ofList, List.foldl_append]
  rfl

theorem ofList_map {β : Type} (f : α → β) (pairs : List (String × α)) :
    ofList (pairs.map fun q => (q.1, f q.2)) = (ofList pairs).map fun q => (q.1, f q.2) := by
  induction pairs using List.reverseRecOn with
  | nil => rfl
  | append_singleton pairs p ih =>
    rw [List.map_append, List.map_singleton, ofList_append_singleton, ofList_append_singleton, ih]
    exact insert_map f p.1 p.2 (ofList pairs)

theorem nodup_keys_ofList (pairs : List (String × α)) : (keys (ofList pairs)).Nodup := by
  induction pairs using List.reverseRecOn with
  | nil => exact List.nodup_nil
  | append_singleton pairs p ih =>
    rw [ofList_append_singleton]
    exact nodup_keys_insert p.1 p.2 ih

theorem settles_ofList (pairs : List (String × α)) : Settles pairs (ofList pairs) := by
  induction pairs using List.reverseRecOn with
  | nil => exact ⟨rfl, fun k => rfl⟩
  | append_singleton pairs p ih =>
    obtain ⟨k, v⟩ := p
    rw [ofList_append_singleton]
    constructor
    · have keyed : keys (pairs ++ [(k, v)]) = keys pairs ++ [k] := List.map_append
      rw [keyed, List.eraseDups_append, keys_insert, ih.first]
      by_cases present : k ∈ keys pairs
      · rw [if_pos (List.mem_eraseDups.mpr present)]
        simp [List.removeAll, present]
      · rw [if_neg (mt List.mem_eraseDups.mp present)]
        simp [List.removeAll, present, List.eraseDups_cons]
    · intro j
      rw [find?_insert, ih.last, List.reverse_append]
      rfl

theorem ofList_eq_iff {pairs : List (String × α)} {m : Members α} : ofList pairs = m ↔ Settles pairs m := by
  have settled := settles_ofList pairs
  constructor
  · rintro rfl
    exact settled
  · intro other
    exact ext_of_find? (nodup_keys_ofList pairs) (settled.first.trans other.first.symm) fun k =>
      (settled.last k).trans (other.last k).symm

theorem ofList_of_nodup {m : Members α} (distinct : (keys m).Nodup) : ofList m = m := by
  induction m using List.reverseRecOn with
  | nil => rfl
  | append_singleton m p ih =>
    have keyed : keys (m ++ [p]) = keys m ++ [p.1] := List.map_append
    rw [keyed, List.nodup_append] at distinct
    have absent : p.1 ∉ keys m := fun present => distinct.2.2 _ present _ List.mem_cons_self rfl
    rw [ofList_append_singleton, ih distinct.1, insert_of_not_mem _ absent]

theorem settles_self {m : Members α} (distinct : (keys m).Nodup) : Settles m m :=
  ofList_eq_iff.mp (ofList_of_nodup distinct)

theorem Settles.nodup {pairs : List (String × α)} {m : Members α} (settled : Settles pairs m) : (keys m).Nodup := by
  rw [← ofList_eq_iff.mpr settled]
  exact nodup_keys_ofList pairs

theorem Settles.mem {pairs : List (String × α)} {m : Members α} (settled : Settles pairs m) {q : String × α}
    (member : q ∈ m) : q ∈ pairs := by
  have found := (find?_eq_some_iff settled.nodup).mpr member
  rw [settled.last] at found
  exact List.mem_reverse.mp (mem_of_find? found)

end LeafPlan.Members
