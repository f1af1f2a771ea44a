import LeafPlan.CommandLine.Run
import LeafPlan.Proofs.Except

/-!
# The stages of a run

In front of its output a run changes nothing in the world but the log. `Run.prepare_finds` shows this stage by stage:
what each of them comes to is what the function of the same command finds in the files. `Run.run_emit` tells the same
of the output, which changes the files or what was printed.
-/

namespace LeafPlan

variable {α β : Type}

/-- One stage behind another one, and their logs in this order. -/
def Staged.andThen (x : Staged α) (next : α → Staged β) : Staged β :=
  match x with
  | (log, .error e) => (log, .error e)
  | (log, .ok a) => (log ++ (next a).1, (next a).2)

namespace Run

theorem run_bind (x : Run α) (y : α → Run β) (w : World) :
    (x >>= y).run.run w =
      match x.run.run w with
      | (.ok a, v) => (y a).run.run v
      | (.error e, v) => (.error e, v) := by
  rw [ExceptT.run_bind, StateT.run_bind]
  rcases x.run.run w with ⟨r, v⟩
  cases r <;> rfl

/-! ### Parts that leave the world -/

/-- The part of a run leaves the world as it is, and comes to what is found in the files. -/
def Reads (x : Run α) (found : Files → Except RunError α) : Prop := ∀ w, x.run.run w = (found w.files, w)

theorem reads_pure (a : α) : Reads (pure a) fun _ => .ok a := fun _ => rfl

theorem reads_ofExcept (x : Except RunError α) : Reads (ofExcept x) fun _ => x := fun _ => rfl

theorem reads_readFile (file : String) : Reads (readFile file) fun files => .ok (files.read file) := fun _ => rfl

theorem reads_expand (tools : Tools) (pattern : String) :
    Reads (expand tools pattern) fun files => .ok (tools.expand files pattern) := fun _ => rfl

theorem Reads.bind {x : Run α} {y : α → Run β} {f : Files → Except RunError α} {g : α → Files → Except RunError β}
    (first : Reads x f) (second : ∀ a, Reads (y a) (g a)) :
    Reads (x >>= y) fun files => f files >>= fun a => g a files := by
  intro w
  rw [run_bind, first w]
  dsimp only
  cases f w.files with
  | error e => rfl
  | ok a => exact second a w

theorem Reads.mapM {x : α → Run β} {f : α → Files → Except RunError β} (each : ∀ a, Reads (x a) (f a)) (l : List α) :
    Reads (l.mapM x) fun files => l.mapM fun a => f a files := by
  induction l with
  | nil => exact fun _ => rfl
  | cons a l ih =>
    simp only [List.mapM_cons]
    exact (each a).bind fun _ => ih.bind fun _ => reads_pure _

theorem loadSchema_reads (loader : Text → Except LoadError α) (role : SchemaRole) (file : String) :
    Reads (loadSchema loader role file) fun files => SchemaOptions.load files loader role file :=
  (reads_readFile file).bind fun _ => reads_ofExcept _

theorem walk_reads (s : SchemaOptions) : Reads (walk s) s.walk := by
  have walked (authored : Authored) (prepared : Prepared) :
      Reads (pure ((⟨id, s.maxDepth⟩ : Compiler).walk prepared (some authored))) fun _ => .ok _ :=
    reads_pure _
  unfold walk SchemaOptions.walk
  refine (loadSchema_reads Authored.load .authored s.authored).bind fun authored => ?_
  cases s.prepared with
  | none => exact walked authored authored.prepare
  | some file => exact (loadSchema_reads Prepared.load .prepared file).bind (walked authored)

theorem filesOf_reads (tools : Tools) (input : String) :
    Reads (filesOf tools input) fun files => InputOptions.filesOf tools files input := by
  unfold filesOf InputOptions.filesOf
  split
  · exact (reads_expand tools input).bind fun _ => reads_ofExcept _
  · exact reads_pure _

theorem resolve_reads (tools : Tools) (inputs : List String) :
    Reads (resolve tools inputs) fun files => InputOptions.resolve tools files inputs :=
  (Reads.mapM (filesOf_reads tools) inputs).bind fun _ => reads_pure _

theorem readSource_reads (file : String) : Reads (readSource file) fun files => InputOptions.readSource files file :=
  (reads_readFile file).bind fun _ => reads_ofExcept _

theorem documentsOf_reads (o : InputOptions) (runner : FilterRunner) (file : String) :
    Reads (documentsOf o runner file) fun files => o.ofFile runner files file :=
  (readSource_reads file).bind fun _ => (reads_ofExcept _).bind fun documents =>
    (Reads.mapM (fun d => reads_ofExcept (o.select runner file d)) documents).bind fun _ => reads_pure _

/-! ### Parts that add to the log -/

/-- The part of a run changes nothing but the log, and what it tells and comes to is found in the files. -/
def Finds (x : Run α) (staged : Files → Staged α) : Prop :=
  ∀ w, x.run.run w = ((staged w.files).2, { w with log := w.log ++ (staged w.files).1 })

theorem Reads.finds {x : Run α} {f : Files → Except RunError α} (reads : Reads x f) :
    Finds x fun files => ([], f files) := by
  intro w
  rw [reads w, List.append_nil]

theorem finds_tell (r : LogRecord) : Finds (tell r) fun _ => ([r], .ok ()) := fun _ => rfl

theorem Finds.bind {x : Run α} {y : α → Run β} {f : Files → Staged α} {g : α → Files → Staged β}
    (first : Finds x f) (second : ∀ a, Finds (y a) (g a)) :
    Finds (x >>= y) fun files => (f files).andThen fun a => g a files := by
  intro w
  rw [run_bind, first w]
  dsimp only [Staged.andThen]
  rcases f w.files with ⟨log, r⟩
  cases r with
  | error e => rfl
  | ok a =>
    refine (second a _).trans ?_
    rw [List.append_assoc]

theorem Finds.of_eq {x : Run α} {f g : Files → Staged α} (finds : Finds x f) (same : ∀ files, f files = g files) :
    Finds x g :=
  funext same ▸ finds

theorem finds_forM_tell (log : List LogRecord) : Finds (log.forM tell) fun _ => (log, .ok ()) := by
  induction log with
  | nil => exact (reads_pure ()).finds
  | cons r log ih => exact (finds_tell r).bind fun _ => ih

theorem compile_finds (c : Command) : Finds (compile c.schema) c.plan? := by
  have ready (plan : Plan) : Finds (do tell (.planReady plan.size); return plan) fun _ =>
      ([.planReady plan.size], .ok plan) :=
    (finds_tell _).bind fun _ => (reads_pure plan).finds
  have told (w : Walk) := (finds_forM_tell w.log).bind fun _ =>
    (reads_ofExcept (w.plan.mapError .notCompiled)).finds.bind ready
  refine ((walk_reads c.schema).finds.bind told).of_eq fun files => ?_
  rw [Command.plan?]
  cases c.schema.walk files with
  | error e => rfl
  | ok w => cases planned : w.plan <;> simp [Staged.andThen, planned, Except.mapError]

theorem loadDocuments_finds (o : InputOptions) (tools : Tools) :
    Finds (loadDocuments o tools) fun files =>
      match o.load tools files with
      | .error e => ([], .error e)
      | .ok documents => ([.documentsReady documents.length], .ok documents) := by
  have told (parts : List (List Json)) :
      Finds (do tell (.documentsReady parts.flatten.length); return parts.flatten) fun _ =>
        ([.documentsReady parts.flatten.length], .ok parts.flatten) :=
    (finds_tell _).bind fun _ => (reads_pure parts.flatten).finds
  have gathered (paths : List String) := (Reads.mapM (documentsOf_reads o tools.filter) paths).finds.bind told
  refine ((resolve_reads tools o.inputs).finds.bind gathered).of_eq fun files => ?_
  rw [InputOptions.load]
  cases InputOptions.resolve tools files o.inputs with
  | error e => rfl
  | ok paths =>
    dsimp only [Staged.andThen, Except.bind, bind]
    cases paths.mapM (o.ofFile tools.filter files) <;> rfl

theorem textOf_finds (c : Command) (coloured : Bool) (tools : Tools) (plan : Plan) :
    Finds (textOf c coloured tools plan) fun files => c.textOf coloured tools files plan := by
  cases c with
  | plan schema json out => exact (reads_pure _).finds
  | read schema input out =>
    have rows (documents : List Json) :=
      (reads_pure ("\n".intercalate (documents.map fun d => (plan.row d).compact))).finds
    refine ((loadDocuments_finds input tools).bind rows).of_eq fun files => ?_
    rw [Command.textOf]
    cases input.load tools files <;> rfl

/-- In front of its output a run changes nothing but the log, and comes to what the command finds in the files. -/
theorem prepare_finds (c : Command) (coloured : Bool) (tools : Tools) :
    Finds (prepare c coloured tools) (c.prepare coloured tools) := by
  refine ((compile_finds c).bind (textOf_finds c coloured tools)).of_eq fun files => ?_
  rw [Command.prepare]
  rcases c.plan? files with ⟨log, r⟩
  cases r <;> rfl

/-! ### The output -/

theorem run_get_bind (x : World → Run α) (w : World) : (get >>= x).run.run w = (x w).run.run w := by
  rw [run_bind]
  rfl

theorem run_makeDirectories (absolute : Bool) (names : List String) (w : World) :
    (makeDirectories absolute names).run.run w =
      let made := w.files.makeDirectories absolute names
      (made.2.elim (.ok ()) fun e => .error (.directories e), { w with files := made.1 }) := by
  rw [makeDirectories, run_get_bind]
  rcases w.files.makeDirectories absolute names with ⟨files, none | e⟩ <;> rfl

theorem run_writeFile (file : String) (bytes : ByteArray) (w : World) :
    (writeFile file bytes).run.run w =
      match w.files.write file bytes with
      | .ok files => (.ok (), { w with files })
      | .error e => (.error (.unwritable file e), w) := by
  rw [writeFile, run_get_bind]
  cases w.files.write file bytes <;> rfl

theorem run_emit (out : Option String) (text : String) (w : World) :
    (emit out text).run.run w =
      let (printed, files, failure) := LeafPlan.emit out text w.files
      (failure.elim (.ok ()) .error, { w with printed := w.printed ++ printed, files }) := by
  cases out with
  | none => rfl
  | some file =>
    rw [emit, run_bind, run_makeDirectories, LeafPlan.emit]
    dsimp only
    rcases w.files.makeDirectories _ _ with ⟨files, none | e⟩
    · dsimp only [Option.elim]
      rw [run_writeFile]
      dsimp only
      cases files.write file text.toUTF8 <;> simp
    · simp

end Run

/-! ### Whole runs -/

namespace CommandLine

variable {c : CommandLine} {coloured : Bool} {tools : Tools} {files : Files}

theorem run_of_prepare {text : String} (prepared : (c.command.prepare coloured tools files).2 = .ok text) :
    let report := c.run coloured tools files
    (report.printed, report.files, report.failure) = emit c.command.out text files := by
  rw [run, Run.command, Run.run_bind, Run.prepare_finds]
  dsimp only
  rw [prepared]
  dsimp only
  rw [Run.run_emit]
  rcases emit c.command.out text files with ⟨printed, left, none | e⟩ <;> simp

theorem run_of_prepare_failed {e : RunError} (failed : (c.command.prepare coloured tools files).2 = .error e) :
    c.run coloured tools files = ⟨(c.command.prepare coloured tools files).1, "", files, some e⟩ := by
  rw [run, Run.command, Run.run_bind, Run.prepare_finds]
  dsimp only
  rw [failed]
  rfl

end CommandLine

end LeafPlan
