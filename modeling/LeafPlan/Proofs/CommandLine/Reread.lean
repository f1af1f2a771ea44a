import LeafPlan.Filter.Run
import LeafPlan.Proofs.CommandLine.Row
import LeafPlan.Proofs.CommandLine.Sources
import LeafPlan.Proofs.Plan.Rendered
import LeafPlan.Proofs.Text.Lines

/-!
# Rows read again

`rows_read_again` shows that the text which a `read` command puts out is a source of one document for each line, and
that its documents are the rows: whatever stands in names and strings, no row is broken over lines.
-/

namespace LeafPlan

open InputOptions

/-! ### Rows -/

theorem Leaf.recoverable_render? {n : Nat} {l : Leaf} {d v : Json} (recoverable : d.Recoverable n)
    (shown : l.render? d = some v) : v.Recoverable n := by
  obtain ⟨w, found, same⟩ := Option.map_eq_some_iff.mp shown
  have within := Path.within_of_find? recoverable found
  split at same
  · subst same
    exact Json.within_string _
  · exact same ▸ within

theorem Plan.recoverable_row {plan : Plan} (apart : plan.leaves.Pairwise fun l m => Path.Apart l.path m.path)
    {n : Nat} {d : Json} (recoverable : d.Recoverable n) : (plan.row d).Recoverable (n + 1) := by
  rw [row_of_apart apart]
  refine Json.within_object.mpr ⟨?_, List.forall_mem_map.mpr fun l _ => ?_⟩
  · rw [entries, Members.keys, List.map_map]
    exact nodup_labels apart
  · cases shown : l.render? d with
    | none => exact Json.within_null
    | some v => exact l.recoverable_render? recoverable shown

/-- The characters of a row. -/
def Plan.rowChars (plan : Plan) (d : Json) : List Char := (plan.row d).compact.toList

theorem Plan.solid_rowChars {plan : Plan} {n : Nat} {d : Json} (recoverable : (plan.row d).Recoverable n) :
    Lines.Solid (plan.rowChars d) := by
  have visible := Json.visible_chars recoverable.numbers
  rw [rowChars, Json.compact, String.toList_ofList]
  refine ⟨fun feed => absurd (visible _ feed) (by decide), fun back => absurd (visible _ back) (by decide), ?_⟩
  rw [row_eq_ofList]
  -- a brace is no white space
  cases Members.ofList (plan.entries d) <;> rfl

/-! ### Sources -/

theorem InputOptions.documentsOf_shows {plan : Plan} {docs : List Json} {source : List Char}
    (each : ∀ d ∈ docs, (plan.row d).Recoverable 127) (shows : Lines.Shows (docs.map plan.rowChars) source)
    (file : String) : documentsOf true file source = .ok (docs.map plan.row) := by
  have rows := Lines.filter_split shows (List.forall_mem_map.mpr fun d member => Plan.solid_rowChars (each d member))
  rw [documentsOf_eq_ok_iff, pieces, if_pos rfl, rows, List.forall₂_map_left_iff, List.forall₂_map_right_iff,
    List.forall₂_same]
  exact fun d member => Json.read_compact (each d member)

/-- For a command's plan and documents of integers of 64 bits, nested at most 126 deep: the text that a `read`
command puts out for them is read, line by line, as their rows. So is that text with a line feed behind it, and every
other text that shows the rows on lines of their own, with either end of line and white lines anywhere among them. -/
theorem rows_read_again {c : Command} {files : Files} {plan : Plan} (ready : (c.plan? files).2 = .ok plan)
    {docs : List Json} (each : ∀ d ∈ docs, d.Recoverable 126) (file : String) :
    let text := "\n".intercalate (docs.map fun d => (plan.row d).compact)
    (∀ schema input out coloured tools, input.load tools files = .ok docs →
      ((Command.read schema input out).textOf coloured tools files plan).2 = .ok text) ∧
    documentsOf true file text.toList = .ok (docs.map plan.row) ∧
    documentsOf true file (text ++ "\n").toList = .ok (docs.map plan.row) ∧
    ∀ source, Lines.Shows (docs.map fun d => (plan.row d).compact.toList) source →
      documentsOf true file source = .ok (docs.map plan.row) := by
  obtain ⟨x, o, distinct, compiled⟩ := Command.compiled_of_plan? ready
  have apart := Compiler.paths_apart distinct compiled
  have rows (d : Json) (member : d ∈ docs) := Plan.recoverable_row apart (each d member)
  have joined : ("\n".intercalate (docs.map fun d => (plan.row d).compact)).toList =
      ['\n'].intercalate (docs.map plan.rowChars) := by
    rw [String.toList_intercalate, List.map_map]
    rfl
  refine ⟨?_, ?_, ?_, fun source shows => documentsOf_shows rows shows file⟩
  · intro schema input out coloured tools loaded
    rw [Command.textOf, loaded]
  · rw [joined]
    exact documentsOf_shows rows (Lines.shows_intercalate _) file
  · rw [String.toList_append, joined]
    exact documentsOf_shows rows (Lines.shows_intercalate_feed _) file

/-- Line ends in a property's name, in its label and in a string, once with mixed line ends and white lines. -/
theorem rows_read_again_breaks :
    let schema : Json := .object [("a\r\n", .array [.string "json"]), ("é", .string "string")]
    let d : Json := .object [("a\r\n", .array [.number (.int (-1)), .string "\n"]), ("é", .string "\r\n\x01\"")]
    let files : Files :=
      ⟨.directory [("s", .file schema.compact.toUTF8), ("d", .file (d.compact ++ "\r\n\nnull").toUTF8)], []⟩
    let schemas : SchemaOptions := ⟨"s", none, 64⟩
    let input : InputOptions := ⟨true, none, none, ["d"]⟩
    let tools : Tools := ⟨Filter.run, Glob.paths⟩
    let plan : Plan :=
      ⟨[⟨some "a\r\n", ["a\r\n"], .list Builtin.json.method⟩, ⟨some "é", ["é"], .scalar .string⟩]⟩
    let row (d : Json) : List Char := (plan.row d).compact.toList
    ((Command.read schemas input none).plan? files).2 = .ok plan ∧ (∀ e ∈ [d, .null], Json.Recoverable 126 e) ∧
      input.load tools files = .ok [d, .null] ∧
      ((Command.read schemas input none).textOf false tools files plan).2 =
        .ok ("\n".intercalate [(plan.row d).compact, (plan.row .null).compact]) ∧
      documentsOf true "out" ("\n".intercalate [(plan.row d).compact, (plan.row .null).compact] ++ "\n").toList =
        .ok [plan.row d, plan.row .null] ∧
      documentsOf true "out"
          ([' '] ++ (['\r', '\n'] ++ (row d ++ (['\r', '\n'] ++ (['\t'] ++ (['\n'] ++ row .null)))))) =
        .ok [plan.row d, plan.row .null] := by
  intro schema d files schemas input tools plan row
  have ready : ((Command.read schemas input none).plan? files).2 = .ok plan := by cbv
  have each : ∀ e ∈ [d, .null], Json.Recoverable 126 e := by decide
  have loaded : input.load tools files = .ok [d, .null] := by cbv
  obtain ⟨text, -, closed, shown⟩ := rows_read_again ready each "out"
  refine ⟨ready, each, loaded, text schemas input none false tools loaded, closed, shown _ ?_⟩
  exact .blank rfl (by decide) (Or.inr rfl) (.row (Or.inr rfl) (.blank rfl (by decide) (Or.inl rfl) (.lastRow _)))

end LeafPlan
