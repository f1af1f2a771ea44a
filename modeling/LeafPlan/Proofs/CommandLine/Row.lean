import Mathlib
import LeafPlan.CommandLine.Run
import LeafPlan.Proofs.Except
import LeafPlan.Proofs.Path.Pointer
import LeafPlan.Proofs.Plan.Leaves
import LeafPlan.Proofs.Schema.Loaded
import LeafPlan.Proofs.Schema.Prepare

/-!
# Rows

A row is an object, and an object would merge entries under one label. `row_keeps_columns` shows that no plan which
a command compiles has a label twice, so that a row has an entry for each leaf.
-/

namespace LeafPlan

namespace Plan

variable {plan : Plan}

theorem nodup_labels (apart : plan.leaves.Pairwise fun l m => Path.Apart l.path m.path) :
    (plan.leaves.map fun l => l.path.label).Nodup := by
  refine List.pairwise_map.mpr (apart.imp ?_)
  intro l m parts same
  exact parts.1 (Path.label_injective same ▸ List.prefix_rfl)

/-- Each leaf of the plan with what it shows of a document. -/
def entries (plan : Plan) (d : Json) : Members Json :=
  plan.leaves.map fun l => (l.path.label, (l.render? d).getD .null)

theorem row_eq_ofList (plan : Plan) (d : Json) : plan.row d = .object (Members.ofList (plan.entries d)) := by
  rw [row, render, ← List.map_prod_left_eq_zip, List.map_map]
  rfl

theorem row_of_apart (apart : plan.leaves.Pairwise fun l m => Path.Apart l.path m.path) (d : Json) :
    plan.row d = .object (plan.entries d) := by
  have unique : (Members.keys (plan.entries d)).Nodup := by
    rw [entries, Members.keys, List.map_map]
    exact nodup_labels apart
  rw [row_eq_ofList, Members.ofList_of_nodup unique]

/-- The row of a document has as many entries as the plan has leaves. Each has its leaf's label, and the value in
the leaf's slot or null. -/
def Tabulates (plan : Plan) (d : Json) : Prop :=
  ∃ columns, plan.row d = .object columns ∧ columns.length = plan.size ∧
    ∀ (i : Nat) (l : Leaf) (slot : Option Json), plan.leaves[i]? = some l → (plan.render d)[i]? = some slot →
      columns[i]? = some (l.path.label, slot.getD .null)

theorem tabulates_of_apart (apart : plan.leaves.Pairwise fun l m => Path.Apart l.path m.path) (d : Json) :
    plan.Tabulates d := by
  refine ⟨plan.entries d, row_of_apart apart d, List.length_map .., ?_⟩
  intro i l slot leaf shown
  rw [render, List.getElem?_map, leaf] at shown
  obtain rfl := Option.some.inj shown
  rw [entries, List.getElem?_map, leaf]
  rfl

end Plan

/-! ### Plans of commands -/

namespace SchemaOptions

theorem load_eq_ok_iff {α : Type} {files : Files} {loader : Text → Except LoadError α} {role : SchemaRole}
    {file : String} {x : α} :
    load files loader role file = .ok x ↔ ∃ bytes, files.read file = .ok bytes ∧ loader (Text.ofBytes bytes) = .ok x := by
  rw [load]
  cases files.read file with
  | error e => simp [loaded]
  | ok bytes => simp [loaded, mapError_eq_ok_iff]

/-- The schemas that a command goes by: the authored one is loaded, and the prepared one is loaded too or made from
it. -/
structure Loaded (x : Prepared) (o : Authored) : Prop where
  authored : ∃ t, Authored.load t = .ok o
  prepared : x = o.prepare ∨ ∃ t, Prepared.load t = .ok x

theorem Loaded.distinct {x : Prepared} {o : Authored} (loaded : Loaded x o) : x.Distinct := by
  obtain ⟨⟨t, authored⟩, rfl | ⟨u, prepared⟩⟩ := loaded
  · exact Authored.distinct_prepare (Authored.distinct_of_load authored)
  · exact Prepared.distinct_of_load prepared

theorem walk_eq_ok {s : SchemaOptions} {files : Files} {w : Walk} (walked : s.walk files = .ok w) :
    ∃ (x : Prepared) (o : Authored), Loaded x o ∧ w = (⟨id, s.maxDepth⟩ : Compiler).walk x (some o) := by
  rw [walk] at walked
  obtain ⟨o, authored, walked⟩ := bind_eq_ok_iff.mp walked
  obtain ⟨bytes, -, named⟩ := load_eq_ok_iff.mp authored
  dsimp only at walked
  split at walked
  · obtain ⟨x, prepared, walked⟩ := bind_eq_ok_iff.mp walked
    obtain ⟨bytes, -, bare⟩ := load_eq_ok_iff.mp prepared
    exact ⟨x, o, ⟨⟨_, named⟩, Or.inr ⟨_, bare⟩⟩, (pure_eq_ok_iff.mp walked).symm⟩
  · exact ⟨o.prepare, o, ⟨⟨_, named⟩, Or.inl rfl⟩, (Except.ok.inj walked).symm⟩

end SchemaOptions

theorem Command.loaded_of_plan? {c : Command} {files : Files} {plan : Plan} (ready : (c.plan? files).2 = .ok plan) :
    ∃ (x : Prepared) (o : Authored), SchemaOptions.Loaded x o ∧
      Compiler.compile ⟨id, c.schema.maxDepth⟩ x (some o) = .ok plan := by
  rw [plan?] at ready
  cases walked : c.schema.walk files with
  | error e =>
    rw [walked] at ready
    cases ready
  | ok w =>
    obtain ⟨x, o, loaded, rfl⟩ := SchemaOptions.walk_eq_ok walked
    refine ⟨x, o, loaded, ?_⟩
    rw [walked] at ready
    rw [Compiler.compile]
    dsimp only at ready
    split at ready
    · cases ready
    · rename_i compiled
      rw [compiled, Except.ok.inj ready]

/-- Whatever schemas the files hold, the plan is that of a schema which declares no property twice. -/
theorem Command.compiled_of_plan? {c : Command} {files : Files} {plan : Plan} (ready : (c.plan? files).2 = .ok plan) :
    ∃ (x : Prepared) (o : Authored), x.Distinct ∧
      Compiler.compile ⟨id, c.schema.maxDepth⟩ x (some o) = .ok plan := by
  obtain ⟨x, o, loaded, compiled⟩ := loaded_of_plan? ready
  exact ⟨x, o, loaded.distinct, compiled⟩

/-- Different paths have different labels, whatever their names are. So in a compiled plan, a command's or any
other, no two leaves share a label, and the row of a document has a column for each leaf. -/
theorem row_keeps_columns :
    (∀ p q : Path, p.label = q.label → p = q) ∧
    (Path.label [] = "<root>" ∧ ∀ p : Path, p ≠ [] → p.label = p.pointer) ∧
    (∀ (x : Prepared) (authored : Option Authored) (n : Nat) (plan : Plan), x.Distinct →
      Compiler.compile ⟨id, n⟩ x authored = .ok plan →
        (plan.leaves.map fun l => l.path.label).Nodup ∧ ∀ d, plan.Tabulates d) ∧
    ∀ (c : Command) (files : Files) (plan : Plan), (c.plan? files).2 = .ok plan →
      (plan.leaves.map fun l => l.path.label).Nodup ∧ ∀ d, plan.Tabulates d := by
  have compiles (x : Prepared) (authored : Option Authored) (n : Nat) (plan : Plan) (distinct : x.Distinct)
      (compiled : Compiler.compile ⟨id, n⟩ x authored = .ok plan) :
      (plan.leaves.map fun l => l.path.label).Nodup ∧ ∀ d, plan.Tabulates d := by
    have apart := Compiler.paths_apart distinct compiled
    exact ⟨Plan.nodup_labels apart, Plan.tabulates_of_apart apart⟩
  refine ⟨fun p q => Path.label_injective, ⟨rfl, ?_⟩, compiles, ?_⟩
  · intro p below
    cases p with
    | nil => exact (below rfl).elim
    | cons k p => exact Path.label_cons k p
  · intro c files plan ready
    obtain ⟨x, o, distinct, compiled⟩ := Command.compiled_of_plan? ready
    exact compiles x (some o) _ plan distinct compiled

/-- One name looks like a pointer and one like the root's label. -/
theorem row_keeps_columns_lookalikes :
    let schema : Json := .object [("a/b", .array [.string "join"]), ("<root>", .string "string")]
    let files : Files := ⟨.directory [("s", .file schema.compact.toUTF8)], []⟩
    let plan : Plan :=
      ⟨[⟨some "a/b", ["a/b"], .list Builtin.join.method⟩, ⟨some "<root>", ["<root>"], .scalar .string⟩]⟩
    let d : Json := .object [("a/b", .array [.bool true, .string "x"])]
    ((Command.plan ⟨"s", none, 64⟩ false none).plan? files).2 = .ok plan ∧
      (plan.leaves.map fun l => l.path.label).Nodup ∧ plan.Tabulates d ∧
      plan.row d = .object [("/a~1b", .string "true,x"), ("/<root>", .null)] ∧
      Prepared.invoice.Distinct ∧ Compiler.compile ⟨id, 2⟩ Prepared.invoice none = .ok Plan.invoice ∧
      Plan.invoice.Tabulates d := by
  intro schema files plan d
  have ready : ((Command.plan ⟨"s", none, 64⟩ false none).plan? files).2 = .ok plan := by cbv
  have shown : plan.row d = .object [("/a~1b", .string "true,x"), ("/<root>", .null)] := by cbv
  obtain ⟨-, -, compiles, commands⟩ := row_keeps_columns
  obtain ⟨unique, tabulates⟩ := commands _ files plan ready
  exact ⟨ready, unique, tabulates d, shown, Prepared.distinct_invoice, Compiler.compile_invoice,
    (compiles _ _ _ _ Prepared.distinct_invoice Compiler.compile_invoice).2 d⟩

end LeafPlan
