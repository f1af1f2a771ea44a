import LeafPlan.Plan.Basic
import LeafPlan.Proofs.Json.Documents
import LeafPlan.Proofs.Path.Kept

/-!
# Rendered lists

`json_method_loses_nothing` shows that the list which the method `json` has rendered comes back from its text, in a
plan's slot as anywhere else.
-/

namespace LeafPlan

namespace Json

theorem within_of_child? {P : Number → Prop} {n : Nat} {d c : Json} {k : String} (within : d.Within P n)
    (found : d.child? k = some c) : c.Within P n := by
  obtain ⟨members, rfl, here⟩ := slots?_of_child? found
  exact within_member within (Members.mem_of_find? here)

end Json

theorem Path.within_of_find? {P : Number → Prop} {n : Nat} {p : Path} {d v : Json} (within : d.Within P n)
    (found : find? p d = some v) : v.Within P n := by
  induction p generalizing d with
  | nil =>
    obtain rfl := Option.some.inj found
    exact within
  | cons k p ih =>
    rw [find?_document] at found
    obtain ⟨c, child, below⟩ := Option.bind_eq_some_iff.mp found
    exact ih (Json.within_of_child? within child) below

theorem Leaf.render?_list {l : Leaf} {m : Method} {d : Json} {items : List Json} (kind : l.kind = .list m)
    (found : l.read? d = some (.array items)) : l.render? d = some (.string (m.apply items)) := by
  rw [render?, found, Option.map_some, kind]

/-- Where the numbers are integers of 64 bits and the list is not nested too deep, the text of the method `json` is
read as the list that it was made of. So is the text in the slot of a leaf with that method, if `Plan.read` finds a
list there. -/
theorem json_method_loses_nothing :
    Method.ofName? "json" = some Builtin.json.method ∧
    (∀ items, (Json.array items).Recoverable 127 →
      Json.read (Text.ofString (Builtin.json.method.apply items)) = .ok (.array items)) ∧
    ∀ (plan : Plan) (d : Json) (i : Nat) (l : Leaf) (items : List Json), plan.leaves[i]? = some l →
      l.kind = .list Builtin.json.method → (plan.read d)[i]? = some (some (.array items)) →
      d.Recoverable 127 ∨ (Json.array items).Recoverable 127 →
        ∃ s, (plan.render d)[i]? = some (some (.string s)) ∧ Json.read (Text.ofString s) = .ok (.array items) := by
  have applied (items : List Json) (recoverable : (Json.array items).Recoverable 127) :
      Json.read (Text.ofString (Builtin.json.method.apply items)) = .ok (.array items) :=
    Json.read_compact recoverable
  refine ⟨rfl, applied, ?_⟩
  intro plan d i l items leaf kind slot recoverable
  rw [Plan.read, List.getElem?_map, leaf] at slot
  have found : l.read? d = some (.array items) := Option.some.inj slot
  have list : (Json.array items).Recoverable 127 := recoverable.elim (fun d => Path.within_of_find? d found) id
  refine ⟨Builtin.json.method.apply items, ?_, applied items list⟩
  rw [Plan.render, List.getElem?_map, leaf, Option.map_some, Leaf.render?_list kind found]

/-- Quotes and control characters in keys and strings, the least and the greatest integer, empty containers. -/
theorem json_method_loses_nothing_escaped :
    let items : List Json :=
      [.number (.int (-9223372036854775808)), .number (.int 18446744073709551615), .array [], .object [],
        .object [("b\n\"", .string "\\\x01\x7fé\u2028"), ("a", .null), ("", .bool true)]]
    let d : Json := .object [("k", .array items)]
    let plan : Plan := ⟨[⟨none, [], .scalar .string⟩, ⟨some "k", ["k"], .list Builtin.json.method⟩]⟩
    (Json.array items).Recoverable 127 ∧
      Json.read (Text.ofString (Builtin.json.method.apply items)) = .ok (.array items) ∧ d.Recoverable 127 ∧
      (plan.read d)[1]? = some (some (.array items)) ∧
      ∃ s, (plan.render d)[1]? = some (some (.string s)) ∧ Json.read (Text.ofString s) = .ok (.array items) := by
  intro items d plan
  have list : (Json.array items).Recoverable 127 := by decide
  have whole : d.Recoverable 127 := by decide
  obtain ⟨-, applied, rendered⟩ := json_method_loses_nothing
  exact ⟨list, applied items list, whole, rfl, rendered plan d 1 _ items rfl rfl rfl (Or.inl whole)⟩

end LeafPlan
