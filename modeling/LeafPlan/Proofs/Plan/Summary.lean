import LeafPlan.CommandLine.Run
import LeafPlan.Proofs.Json.Documents
import LeafPlan.Proofs.Schema.Grammar

/-!
# Summaries of plans

`summary_determines_plan` shows that a plan's summary is read back from its text, compact or indented, and that it
says everything of each leaf but which method stands behind a method's name.
-/

namespace LeafPlan

theorem Marker.name_injective {m n : Marker} (same : m.name = n.name) : m = n := by
  have parsed := parse?_eq_some_iff.mpr (Or.inr (rfl : m.name = m.name))
  rw [same, parse?_eq_some_iff.mpr (Or.inr rfl)] at parsed
  exact (Option.some.inj parsed).symm

/-- A string, or null where there is none. -/
def Json.nullable : Option String → Json
  | none => .null
  | some s => .string s

theorem Json.nullable_injective {x y : Option String} (same : nullable x = nullable y) : x = y := by
  cases x <;> cases y
  · rfl
  · cases same
  · cases same
  · exact congrArg _ (Json.string.inj same)

theorem Json.recoverable_nullable (n : Nat) (x : Option String) : (nullable x).Recoverable n := by
  cases x with
  | none => exact within_null
  | some s => exact within_string s

theorem Path.json_injective {p q : Path} (same : p.json = q.json) : p = q :=
  (List.map_inj_right fun _ _ => Json.string.inj).mp (Json.array.inj same)

namespace Leaf

/-- What a summary says of a leaf, under five keys. -/
def summary (l : Leaf) : Members Json :=
  [("name", .nullable l.name), ("path", .array (l.path.map .string)), ("isArray", .bool l.kind.isList),
    ("method", .nullable (l.kind.method?.map Method.name)), ("marker", .nullable (l.kind.marker?.map Marker.name))]

/-- The leaves differ in their methods' handles at most. -/
structure Alike (l m : Leaf) : Prop where
  name : l.name = m.name
  path : l.path = m.path
  isList : l.kind.isList = m.kind.isList
  method : l.kind.method?.map Method.name = m.kind.method?.map Method.name
  marker : l.kind.marker? = m.kind.marker?

theorem json_eq (l : Leaf) : l.json = .object l.summary := by
  obtain ⟨name, path, kind⟩ := l
  cases name <;> cases kind <;> rfl

theorem alike_of_json {l m : Leaf} (same : l.json = m.json) : l.Alike m := by
  rw [json_eq, json_eq, Json.object.injEq] at same
  simp only [summary, List.cons.injEq, Prod.mk.injEq, true_and, and_true] at same
  obtain ⟨name, path, isList, method, marker⟩ := same
  have marker := Option.map_injective (fun _ _ => Marker.name_injective) (Json.nullable_injective marker)
  exact ⟨Json.nullable_injective name, Path.json_injective path, Json.bool.inj isList,
    Json.nullable_injective method, marker⟩

theorem recoverable_json (l : Leaf) : l.json.Recoverable 2 := by
  have unique : ["name", "path", "isArray", "method", "marker"].Nodup := by decide
  have path : (Json.array (l.path.map .string)).Recoverable 1 :=
    Json.within_array.mpr (List.forall_mem_map.mpr fun k _ => Json.within_string k)
  rw [json_eq]
  refine Json.within_object.mpr ⟨unique, ?_⟩
  simp only [summary, List.forall_mem_cons]
  exact ⟨Json.recoverable_nullable 1 _, path, Json.within_bool _, Json.recoverable_nullable 1 _,
    Json.recoverable_nullable 1 _, nofun⟩

end Leaf

namespace Plan

theorem recoverable_json (plan : Plan) : plan.json.Recoverable 127 :=
  (Json.within_array.mpr (List.forall_mem_map.mpr fun l _ => l.recoverable_json)).mono (by decide)

theorem alike_of_json {plan other : Plan} (same : plan.json = other.json) :
    List.Forall₂ Leaf.Alike plan.leaves other.leaves := by
  have items : List.Forall₂ (· = ·) (plan.leaves.map Leaf.json) (other.leaves.map Leaf.json) := by
    rw [List.forall₂_eq_eq_eq]
    exact Json.array.inj same
  rw [List.forall₂_map_left_iff, List.forall₂_map_right_iff] at items
  exact items.imp fun l m => Leaf.alike_of_json

end Plan

/-- The text of `plan --json` is the plan's summary, indented. From the compact and from the indented text one list is
read, with an object for each leaf in the plan's order. So plans with one text have as many leaves, and leaf by leaf
they agree on all that the summary says. -/
theorem summary_determines_plan :
    (∀ schema out coloured tools files (plan : Plan),
      ((Command.plan schema true out).textOf coloured tools files plan).2 = .ok plan.json.indented) ∧
    (∀ plan : Plan,
      Json.read (Text.ofString plan.json.compact) = .ok (.array (plan.leaves.map fun l => .object l.summary)) ∧
      Json.read (Text.ofString plan.json.indented) = .ok (.array (plan.leaves.map fun l => .object l.summary))) ∧
    ∀ plan other : Plan, plan.json.compact = other.json.compact ∨ plan.json.indented = other.json.indented →
      List.Forall₂ Leaf.Alike plan.leaves other.leaves := by
  refine ⟨fun _ _ _ _ _ _ => rfl, ?_, ?_⟩
  · intro plan
    have objects : plan.json = .array (plan.leaves.map fun l => .object l.summary) :=
      congrArg _ (List.map_congr_left fun l _ => l.json_eq)
    rw [← objects]
    exact ⟨Json.read_compact plan.recoverable_json, Json.read_indented plan.recoverable_json⟩
  · intro plan other same
    refine Plan.alike_of_json ?_
    rcases same with same | same
    · exact Json.eq_of_compact plan.recoverable_json other.recoverable_json same
    · exact Json.eq_of_indented plan.recoverable_json other.recoverable_json same

/-- Without a name and with an empty one, and two methods of one name. -/
theorem summary_determines_plan_nameless :
    let method (id : Nat) : Method := ⟨"m\n", .custom id, fun _ => ""⟩
    let plan (id : Nat) : Plan := ⟨[⟨none, [], .scalar .number⟩, ⟨some "", ["", "é\""], .list (method id)⟩]⟩
    (plan 0).json.indented = (plan 1).json.indented ∧ List.Forall₂ Leaf.Alike (plan 0).leaves (plan 1).leaves ∧
      Json.read (Text.ofString (plan 0).json.indented) =
        .ok (.array
          [.object [("name", .null), ("path", .array []), ("isArray", .bool false), ("method", .null),
            ("marker", .string "number")],
          .object [("name", .string ""), ("path", .array [.string "", .string "é\""]), ("isArray", .bool true),
            ("method", .string "m\n"), ("marker", .null)]]) := by
  intro method plan
  have same : (plan 0).json.indented = (plan 1).json.indented := rfl
  obtain ⟨-, read, alike⟩ := summary_determines_plan
  exact ⟨same, alike _ _ (Or.inr same), (read (plan 0)).2⟩

end LeafPlan
