import LeafPlan.Filter.Run
import LeafPlan.Proofs.CommandLine.Documents

/-!
# Runs that fail

A run has three stages: the schema, the inputs and the output. `failing_run_leaves_no_output` shows that a run which
fails in one of the first two leaves nothing behind, and that a failure in the first one does not hang on anything
but the schema's options.
-/

namespace LeafPlan

inductive Stage where
  | schema
  | input
  | output
deriving DecidableEq

namespace RunError

/-- The stage in which a run fails with the error. -/
def stage : RunError → Stage
  | schemaUnreadable _ _ _ | schemaRefused _ _ _ | notCompiled _ => .schema
  | pattern _ | unlisted _ | noMatch _ | sourceUnreadable _ _ | sourceUnencoded _ | sourceRefused _ _ _ => .input
  | .pointer _ _ | .filter _ _ => .input
  | directories _ | unwritable _ _ => .output

end RunError

/-! ### The schema -/

namespace SchemaOptions

variable {files : Files} {e : RunError}

theorem stage_of_load {α : Type} {loader : Text → Except LoadError α} {role : SchemaRole} {file : String}
    (failed : load files loader role file = .error e) : e.stage = .schema := by
  rw [load] at failed
  cases read : files.read file with
  | error d =>
    rw [read] at failed
    rw [← Except.error.inj failed]
    rfl
  | ok bytes =>
    rw [read] at failed
    obtain ⟨d, -, rfl⟩ := mapError_eq_error_iff.mp failed
    rfl

theorem stage_of_walk {s : SchemaOptions} (failed : s.walk files = .error e) : e.stage = .schema := by
  rw [walk] at failed
  obtain unloaded | ⟨authored, -, failed⟩ := bind_eq_error_iff.mp failed
  · exact stage_of_load unloaded
  · dsimp only at failed
    split at failed
    · exact stage_of_load (bind_pure_eq_error_iff.mp failed)
    · cases failed

end SchemaOptions

theorem Command.stage_of_plan? {c : Command} {files : Files} {e : RunError} (failed : (c.plan? files).2 = .error e) :
    e.stage = .schema := by
  rw [plan?] at failed
  split at failed
  · rename_i stopped
    obtain rfl := Except.error.inj failed
    exact SchemaOptions.stage_of_walk stopped
  · split at failed
    · rw [← Except.error.inj failed]
      rfl
    · cases failed

/-! ### The inputs -/

namespace InputOptions

variable {o : InputOptions} {runner : FilterRunner} {tools : Tools} {files : Files} {e : RunError}

theorem stage_of_matched {pattern : String} {found : Except GlobError (List GlobEntry)}
    (failed : matched pattern found = .error e) : e.stage = .input := by
  rw [matched.eq_def] at failed
  split at failed
  · rw [← Except.error.inj failed]
    rfl
  · rw [← Except.error.inj failed]
    rfl
  · obtain ⟨before, entry, after, -, -, failed⟩ := mapM_eq_error_iff.mp failed
    obtain ⟨d, -, rfl⟩ := mapError_eq_error_iff.mp failed
    rfl

theorem stage_of_resolve {inputs : List String} (failed : resolve tools files inputs = .error e) :
    e.stage = .input := by
  rw [resolve] at failed
  obtain ⟨before, i, after, -, -, failed⟩ := mapM_eq_error_iff.mp (bind_pure_eq_error_iff.mp failed)
  rw [filesOf] at failed
  split at failed
  · exact stage_of_matched failed
  · cases failed

theorem Stops.stage {file : String} (stops : o.Stops runner files file e) : e.stage = .input := by
  cases stops <;> rfl

theorem stage_of_load (failed : o.load tools files = .error e) : e.stage = .input := by
  rw [load] at failed
  obtain unresolved | ⟨paths, -, failed⟩ := bind_eq_error_iff.mp failed
  · exact stage_of_resolve unresolved
  · obtain ⟨before, file, after, -, -, stopped⟩ := mapM_eq_error_iff.mp (bind_pure_eq_error_iff.mp failed)
    exact (ofFile_eq_error_iff.mp stopped).stage

end InputOptions

theorem Command.stage_of_textOf {c : Command} {coloured : Bool} {tools : Tools} {files : Files} {plan : Plan}
    {e : RunError} (failed : (c.textOf coloured tools files plan).2 = .error e) : e.stage = .input := by
  cases c with
  | plan schema json out => cases failed
  | read schema input out =>
    rw [textOf_read] at failed
    exact InputOptions.stage_of_load (bind_pure_eq_error_iff.mp failed)

/-! ### The output -/

theorem stage_of_emit {out : Option String} {text : String} {files : Files} {e : RunError}
    (failed : (emit out text files).2.2 = some e) : e.stage = .output := by
  cases out with
  | none => cases failed
  | some file =>
    rw [emit] at failed
    split at failed
    · rw [← Option.some.inj failed]
      rfl
    · split at failed
      · cases failed
      · rw [← Option.some.inj failed]
        rfl

/-! ### Runs -/

theorem Command.prepare_of_plan?_failed {c : Command} {files : Files} {e : RunError}
    (failed : (c.plan? files).2 = .error e) (coloured : Bool) (tools : Tools) :
    c.prepare coloured tools files = ((c.plan? files).1, .error e) := by
  rw [prepare]
  generalize c.plan? files = planned at failed
  obtain ⟨log, outcome⟩ := planned
  obtain rfl : outcome = .error e := failed
  rfl

namespace CommandLine

variable {c : CommandLine} {coloured : Bool} {tools : Tools} {files : Files} {e : RunError}

theorem stage_of_prepare (failed : (c.command.prepare coloured tools files).2 = .error e) :
    (c.command.plan? files).2 = .error e ∧ e.stage = .schema ∨
      (∃ plan, (c.command.plan? files).2 = .ok plan) ∧ e.stage = .input := by
  cases planned : (c.command.plan? files).2 with
  | error d =>
    rw [Command.prepare_of_plan?_failed planned] at failed
    obtain rfl := Except.error.inj failed
    exact Or.inl ⟨rfl, Command.stage_of_plan? planned⟩
  | ok plan =>
    rw [Command.prepare_of_plan? planned] at failed
    exact Or.inr ⟨⟨plan, rfl⟩, Command.stage_of_textOf failed⟩

/-- Whether a run fails in front of the output can be told from its error. -/
theorem prepare_failed_iff : (c.command.prepare coloured tools files).2 = .error e ↔
    (c.run coloured tools files).failure = some e ∧ e.stage ≠ .output := by
  constructor
  · intro failed
    refine ⟨congrArg RunReport.failure (run_of_prepare_failed failed), ?_⟩
    obtain ⟨-, schema⟩ | ⟨-, input⟩ := stage_of_prepare failed
    · simp [schema]
    · simp [input]
  · rintro ⟨failed, early⟩
    cases prepared : (c.command.prepare coloured tools files).2 with
    | error d =>
      rw [run_of_prepare_failed prepared] at failed
      exact congrArg _ (Option.some.inj failed)
    | ok text =>
      have emitted := congrArg (fun outcome => outcome.2.2) (run_of_prepare prepared)
      exact (early (stage_of_emit (emitted.symm.trans failed))).elim

theorem plan?_failed_iff : (c.command.plan? files).2 = .error e ↔
    (c.run coloured tools files).failure = some e ∧ e.stage = .schema := by
  constructor
  · intro planned
    have failed := congrArg Prod.snd (Command.prepare_of_plan?_failed planned coloured tools)
    exact ⟨(prepare_failed_iff.mp failed).1, Command.stage_of_plan? planned⟩
  · rintro ⟨failed, schema⟩
    have early : e.stage ≠ .output := by simp [schema]
    obtain ⟨planned, -⟩ | ⟨-, input⟩ := stage_of_prepare (prepare_failed_iff.mpr ⟨failed, early⟩)
    · exact planned
    · cases schema.symm.trans input

theorem planned_of_failure (failed : (c.run coloured tools files).failure = some e) (input : e.stage = .input) :
    ∃ plan, (c.command.plan? files).2 = .ok plan := by
  have early : e.stage ≠ .output := by simp [input]
  obtain ⟨-, schema⟩ | ⟨planned, -⟩ := stage_of_prepare (prepare_failed_iff.mpr ⟨failed, early⟩)
  · cases schema.symm.trans input
  · exact planned

theorem run_of_plan?_failed (failed : (c.command.plan? files).2 = .error e) :
    c.run coloured tools files = ⟨(c.command.plan? files).1, "", files, some e⟩ := by
  have staged := Command.prepare_of_plan?_failed failed coloured tools
  rw [run_of_prepare_failed (congrArg Prod.snd staged), staged]

end CommandLine

theorem Command.plan?_congr {c d : Command} (same : c.schema = d.schema) (files : Files) :
    c.plan? files = d.plan? files := by
  rw [plan?, plan?, same]

/-- In front of its output a run leaves every world as it was but for the log. So a run that fails there leaves the files
as they were and prints nothing, whichever of its stages fails. If it is the schema, then every command with the same
options for the schema has the same report, whatever its inputs, its pointer and its filter are; an error of the inputs
tells that the schema has compiled. -/
theorem failing_run_leaves_no_output (c : CommandLine) (coloured : Bool) (tools : Tools) (files : Files) :
    let prepared (w : World) := (Run.prepare c.command coloured tools).run.run w
    let report := c.run coloured tools files
    (∀ w, ∃ told, prepared w = ((c.command.prepare coloured tools w.files).2, { w with log := w.log ++ told })) ∧
    (∀ e, (prepared ⟨files, "", []⟩).1 = .error e ↔ report.failure = some e ∧ e.stage ≠ .output) ∧
    (∀ e, (c.command.prepare coloured tools files).2 = .error e ↔ report.failure = some e ∧ e.stage ≠ .output) ∧
    (∀ e, report.failure = some e → e.stage ≠ .output → report.files = files ∧ report.printed = "") ∧
    (∀ e, report.failure = some e → e.stage = .schema →
      ∀ (other : CommandLine) (colouredToo : Bool) (toolsToo : Tools),
        other.command.schema = c.command.schema → other.run colouredToo toolsToo files = report) ∧
    ∀ e, report.failure = some e → e.stage = .input → ∃ plan, (c.command.plan? files).2 = .ok plan := by
  intro prepared report
  have finds : ∀ w, prepared w = _ := Run.prepare_finds c.command coloured tools
  refine ⟨fun w => ⟨_, finds w⟩, fun e => ?_, fun e => CommandLine.prepare_failed_iff, fun e failed early => ?_,
    fun e failed schema => ?_, fun e => CommandLine.planned_of_failure⟩
  · rw [finds]
    exact CommandLine.prepare_failed_iff
  · have stopped := CommandLine.prepare_failed_iff.mpr ⟨failed, early⟩
    have left : report = _ := CommandLine.run_of_prepare_failed stopped
    rw [left]
    exact ⟨rfl, rfl⟩
  · intro other colouredToo toolsToo same
    have planned := CommandLine.plan?_failed_iff.mpr ⟨failed, schema⟩
    have plannedToo : (other.command.plan? files).2 = .error e := by
      rw [Command.plan?_congr same, planned]
    have left : report = _ := CommandLine.run_of_plan?_failed planned
    rw [left, CommandLine.run_of_plan?_failed plannedToo, Command.plan?_congr same]

/-- The second document has no match, after the first one has been read; a directory cannot be listed; a schema is not
there. -/
theorem failing_run_leaves_no_output_late :
    let files : Files :=
      ⟨.directory
        [("s", .file (Json.string "number").compact.toUTF8),
          ("d", .file ((Json.object [("k", .null)]).compact ++ "\n1").toUTF8), ("p", .closed true .denied)], []⟩
    let tools : Tools := ⟨Filter.run, Glob.paths⟩
    let late : CommandLine := ⟨0, .read ⟨"s", none, 64⟩ ⟨true, some "/k", none, ["d"]⟩ (some "new/rows")⟩
    let barred : CommandLine := ⟨0, .read ⟨"s", none, 64⟩ ⟨false, none, none, ["d", "p/*"]⟩ (some "new/rows")⟩
    let gone : CommandLine := ⟨0, .read ⟨"t", none, 64⟩ ⟨false, none, some "[", ["*"]⟩ (some "new/rows")⟩
    let table : CommandLine := ⟨3, .plan ⟨"t", none, 64⟩ false none⟩
    (late.run false tools files).failure = some (.pointer "/k" "d") ∧
      (late.run false tools files).files = files ∧ (late.run false tools files).printed = "" ∧
      (∃ plan, (late.command.plan? files).2 = .ok plan) ∧
      (barred.run false tools files).failure = some (.unlisted ⟨"p", .denied⟩) ∧
      (barred.run false tools files).files = files ∧ (barred.run false tools files).printed = "" ∧
      (gone.run false tools files).failure = some (.schemaUnreadable .authored "t" .notFound) ∧
      table.run true tools files = gone.run false tools files := by
  intro files tools late barred gone table
  have failed : (late.run false tools files).failure = some (.pointer "/k" "d") := by cbv
  have closed : (barred.run false tools files).failure = some (.unlisted ⟨"p", .denied⟩) := by cbv
  have missing : (gone.run false tools files).failure = some (.schemaUnreadable .authored "t" .notFound) := by cbv
  obtain ⟨-, -, -, clean, -, compiled⟩ := failing_run_leaves_no_output late false tools files
  obtain ⟨-, -, -, cleanToo, -⟩ := failing_run_leaves_no_output barred false tools files
  obtain ⟨-, -, -, -, schema, -⟩ := failing_run_leaves_no_output gone false tools files
  obtain ⟨same, nothing⟩ := clean _ failed (by decide)
  obtain ⟨sameToo, nothingToo⟩ := cleanToo _ closed (by decide)
  exact ⟨failed, same, nothing, compiled _ failed rfl, closed, sameToo, nothingToo, missing,
    schema _ missing rfl table true tools rfl⟩

end LeafPlan
