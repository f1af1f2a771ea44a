import LeafPlan.Proofs.Json.Unambiguous
import LeafPlan.Proofs.Schema.Distinct
import LeafPlan.Proofs.Schema.Grammar

/-!
# The texts that load

`loads_exactly_the_grammar` shows that a schema is loaded from a text if and only if the grammar of its dialect
finds it in front of the text. A loaded schema declares no property twice, since a key keeps its first place and its
last value only.
-/

namespace LeafPlan

open Grammar

namespace Outline

variable {α : Type} {P : Written → α → Prop}

/-- For a dialect whose scalars are strings, what the reader's outline shows is what the grammar finds. -/
theorem read_shows_iff (plain : ∀ {w x}, P w x → w.Plain) {t : Text} {x : α} :
    (read t).1.Shows P x ↔ ∃ s w rest, Blanks t s ∧ Value s w rest ∧ w.depth ≤ depthLimit ∧ P w x := by
  have reads := readValue_iff depthLimit t
  constructor
  · rintro ⟨w, shown, here⟩
    cases ends : (read t).2 with
    | none =>
      have stopped := (readValue_stops depthLimit t).2 ends
      exact (Option.some_ne_none w (shown.symm.trans stopped)).elim
    | some rest =>
      obtain ⟨s, blanks, value, shallow, -⟩ := (reads w rest).mp ⟨_, Prod.ext rfl ends, shown⟩
      exact ⟨s, w, rest, blanks, value, shallow, here⟩
  · rintro ⟨s, w, rest, blanks, value, shallow, here⟩
    obtain ⟨o, found, shown⟩ := (reads w rest).mpr ⟨s, blanks, value, shallow, plain here⟩
    refine ⟨w, ?_, here⟩
    rw [read, found]
    exact shown

end Outline

namespace Written

theorem Prepares.plain {w : Written} {x : Prepared} (prepares : w.Prepares x) : w.Plain := by
  refine Prepares.induction (P := fun w _ => w.Plain) ?scalar ?list ?object prepares
  case scalar => exact fun m => trivial
  case list =>
    intro items xs each
    refine plain_array_iff.mpr fun w member => ?_
    obtain ⟨x, -, plain⟩ := forall₂_left each w member
    exact plain
  case object =>
    intro members pairs props each settled
    refine plain_object_iff.mpr fun m member => ?_
    obtain ⟨q, -, plain⟩ := Members.matches_left each m member
    exact plain

theorem Authors.plain {w : Written} {o : Authored} (authors : w.Authors o) : w.Plain := by
  refine Authors.induction (P := fun w _ => w.Plain) ?sentinel ?name ?list ?object authors
  case sentinel => exact fun m => trivial
  case name => exact fun m => trivial
  case list =>
    intro b items xs each
    refine plain_array_iff.mpr (List.forall_mem_cons.mpr ⟨trivial, fun w member => ?_⟩)
    obtain ⟨o, -, plain⟩ := forall₂_left each w member
    exact plain
  case object =>
    intro members pairs props each settled
    refine plain_object_iff.mpr fun m member => ?_
    obtain ⟨q, -, plain⟩ := Members.matches_left each m member
    exact plain

theorem Prepares.distinct {w : Written} {x : Prepared} (prepares : w.Prepares x) : x.Distinct := by
  refine Prepares.induction (P := fun _ x => x.Distinct) ?scalar ?list ?object prepares
  case scalar => exact fun m => trivial
  case list =>
    intro items xs each
    refine Prepared.distinctItems_iff.mpr fun x member => ?_
    obtain ⟨w, -, distinct⟩ := forall₂_right each x member
    exact distinct
  case object =>
    intro members pairs props each settled
    refine Prepared.distinct_object.mpr ⟨settled.nodup, fun q member => ?_⟩
    obtain ⟨m, -, distinct⟩ := Members.matches_right each q (settled.mem member)
    exact distinct

theorem Authors.distinct {w : Written} {o : Authored} (authors : w.Authors o) : o.Distinct := by
  refine Authors.induction (P := fun _ o => o.Distinct) ?sentinel ?name ?list ?object authors
  case sentinel => exact fun m => trivial
  case name => exact fun m => trivial
  case list =>
    intro b items xs each
    refine Authored.distinctItems_iff.mpr fun o member => ?_
    obtain ⟨w, -, distinct⟩ := forall₂_right each o member
    exact distinct
  case object =>
    intro members pairs props each settled
    refine Authored.distinct_object.mpr ⟨settled.nodup, fun q member => ?_⟩
    obtain ⟨m, -, distinct⟩ := Members.matches_right each q (settled.mem member)
    exact distinct

end Written

theorem Prepared.load_eq_ok_iff {t : Text} {x : Prepared} :
    load t = .ok x ↔ ∃ s w rest, Blanks t s ∧ Value s w rest ∧ w.depth ≤ 127 ∧ w.Prepares x := by
  have sound := (Outline.readValue_stops Outline.depthLimit t).1
  rw [load, mapError_eq_ok_iff]
  exact (Outline.prepared_eq_ok_iff _ sound x).trans (Outline.read_shows_iff Written.Prepares.plain)

theorem Authored.load_eq_ok_iff {t : Text} {x : Authored} :
    load t = .ok x ↔ ∃ s w rest, Blanks t s ∧ Value s w rest ∧ w.depth ≤ 127 ∧ w.Authors x := by
  have sound := (Outline.readValue_stops Outline.depthLimit t).1
  rw [load, mapError_eq_ok_iff]
  exact (Outline.authored_eq_ok_iff _ sound x).trans (Outline.read_shows_iff Written.Authors.plain)

/-- In either dialect a text loads if and only if a value of the dialect stands in front of it and nests no more
than 127 containers, whatever follows that value. It loads as the schema that this value is. -/
theorem loads_exactly_the_grammar (t : Text) :
    (∀ x, Prepared.load t = .ok x ↔
      ∃ s w rest, Blanks t s ∧ Value s w rest ∧ w.depth ≤ 127 ∧ w.Prepares x) ∧
    (∀ x, Authored.load t = .ok x ↔
      ∃ s w rest, Blanks t s ∧ Value s w rest ∧ w.depth ≤ 127 ∧ w.Authors x) :=
  ⟨fun _ => Prepared.load_eq_ok_iff, fun _ => Authored.load_eq_ok_iff⟩

/-- The key that comes again keeps its place, and the comma behind the object is not looked at. -/
example : Prepared.load (Text.ofString " \x7b\"a\":\"number__sjs\",\"b\":[],\"a\":\"string__sjs\"\x7d,") =
    .ok (.object [("a", .scalar .string), ("b", .list [] none)]) := by
  cbv

theorem Prepared.distinct_of_load {t : Text} {x : Prepared} (loaded : load t = .ok x) : x.Distinct := by
  obtain ⟨s, w, rest, -, -, -, prepares⟩ := load_eq_ok_iff.mp loaded
  exact prepares.distinct

theorem Authored.distinct_of_load {t : Text} {x : Authored} (loaded : load t = .ok x) : x.Distinct := by
  obtain ⟨s, w, rest, -, -, -, authors⟩ := load_eq_ok_iff.mp loaded
  exact authors.distinct

theorem Prepared.load_iff_of_front {t : Text} {w : Written} (front : Front t w) (plain : w.Plain) {x : Prepared} :
    load t = .ok x ↔ w.depth ≤ 127 ∧ w.Prepares x :=
  load_eq_ok_iff.trans (exists_value_iff front plain fun v => v.depth ≤ 127 ∧ v.Prepares x)

theorem Authored.load_iff_of_front {t : Text} {w : Written} (front : Front t w) (plain : w.Plain) {x : Authored} :
    load t = .ok x ↔ w.depth ≤ 127 ∧ w.Authors x :=
  load_eq_ok_iff.trans (exists_value_iff front plain fun v => v.depth ≤ 127 ∧ v.Authors x)

end LeafPlan
