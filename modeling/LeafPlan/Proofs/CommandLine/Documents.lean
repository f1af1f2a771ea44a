import Mathlib
import LeafPlan.Proofs.CommandLine.Selection
import LeafPlan.Proofs.CommandLine.Sources
import LeafPlan.Proofs.CommandLine.Stages
import LeafPlan.Proofs.Files.Written

/-!
# The documents of a command

A `read` command goes through its files, through the documents of each file, and through what the filter makes of
each document. `read_gathers_rows` says which documents come together on the way and in which order, and which of
all the faults on the way is the one that a failing command reports.
-/

namespace LeafPlan

/-- The texts of the rows of documents. -/
def Plan.rowTexts (plan : Plan) (documents : List Json) : List String := documents.map fun d => (plan.row d).compact

namespace InputOptions

/-- What the filter makes of a document. -/
def filtered (o : InputOptions) (runner : FilterRunner) (d : Json) : Except Filter.Failure (List Json) :=
  o.filter.elim (.ok [d]) fun source => runner source d

/-- The file holds a text whose pieces are these documents. -/
def Parses (o : InputOptions) (files : Files) (file : String) (documents : List Json) : Prop :=
  ∃ source : String, files.read file = .ok source.toUTF8 ∧
    List.Forall₂ (fun piece d => Json.read (piece.map .char) = .ok d) (pieces o.lines source.toList) documents

/-- The pointer matches in the document, and the filter makes `outputs` of what it matches. -/
def Picks (o : InputOptions) (runner : FilterRunner) (d : Json) (outputs : List Json) : Prop :=
  ∃ e, o.pointed? d = some e ∧ o.filtered runner e = .ok outputs

/-- The file is read to its end, and `documents` is what is picked from its documents one after another. -/
def Gives (o : InputOptions) (runner : FilterRunner) (files : Files) (file : String) (documents : List Json) : Prop :=
  ∃ found parts, o.Parses files file found ∧ List.Forall₂ (o.Picks runner) found parts ∧ documents = parts.flatten

/-- The fault at which a command stops in a file. All of the file is parsed before anything is picked. -/
inductive Stops (o : InputOptions) (runner : FilterRunner) (files : Files) (file : String) : RunError → Prop
  | unreadable {e : OsError} (failed : files.read file = .error e) :
    Stops o runner files file (.sourceUnreadable file e)
  | unencoded {bytes : ByteArray} (read : files.read file = .ok bytes) (stray : ∀ s : String, bytes ≠ s.toUTF8) :
    Stops o runner files file (.sourceUnencoded file)
  | refused {source : String} {before after : List (List Char)} {piece : List Char} {fault : Fault}
    (read : files.read file = .ok source.toUTF8) (split : pieces o.lines source.toList = before ++ piece :: after)
    (clear : ∀ other ∈ before, ∃ d, Json.read (other.map .char) = .ok d)
    (failed : Json.read (piece.map .char) = .error fault) :
    Stops o runner files file (.sourceRefused file (piece.map .char) fault)
  | unmatched {before after : List Json} {d : Json} {pointer : String}
    (parses : o.Parses files file (before ++ d :: after))
    (clear : ∀ other ∈ before, ∃ outputs, o.Picks runner other outputs) (asked : o.pointer = some pointer)
    (missing : d.pointer? pointer = none) : Stops o runner files file (.pointer pointer file)
  | unfiltered {before after : List Json} {d e : Json} {failure : Filter.Failure}
    (parses : o.Parses files file (before ++ d :: after))
    (clear : ∀ other ∈ before, ∃ outputs, o.Picks runner other outputs)
    (pointed : o.pointed? d = some e) (failed : o.filtered runner e = .error failure) :
    Stops o runner files file (.filter file failure)

variable {o : InputOptions} {runner : FilterRunner} {files : Files} {file : String}

/-! ### One document -/

theorem pointed?_eq_none_iff {d : Json} : o.pointed? d = none ↔ ∃ p, o.pointer = some p ∧ d.pointer? p = none := by
  rw [pointed?]
  cases o.pointer <;> simp

theorem select_of_pointed? {d e : Json} (pointed : o.pointed? d = some e) :
    o.select runner file d = (o.filtered runner e).mapError (.filter file) := by
  rw [pointed?] at pointed
  rw [select, filtered]
  cases asked : o.pointer with
  | none =>
    rw [asked] at pointed
    obtain rfl := Option.some.inj pointed
    cases o.filter <;> rfl
  | some p =>
    rw [asked, Option.elim_some] at pointed
    simp only [pointed]
    cases o.filter <;> rfl

theorem select_eq_ok_iff {d : Json} {outputs : List Json} :
    o.select runner file d = .ok outputs ↔ o.Picks runner d outputs := by
  rw [Picks]
  cases pointed : o.pointed? d with
  | none =>
    obtain ⟨p, asked, missing⟩ := pointed?_eq_none_iff.mp pointed
    rw [select_of_pointer?_none asked missing]
    simp
  | some e =>
    rw [select_of_pointed? pointed, mapError_eq_ok_iff]
    simp

theorem select_eq_error_iff {d : Json} {e : RunError} :
    o.select runner file d = .error e ↔
      (∃ p, o.pointer = some p ∧ d.pointer? p = none ∧ e = .pointer p file) ∨
      ∃ picked failure, o.pointed? d = some picked ∧ o.filtered runner picked = .error failure ∧
        e = .filter file failure := by
  cases pointed : o.pointed? d with
  | none =>
    obtain ⟨p, asked, missing⟩ := pointed?_eq_none_iff.mp pointed
    rw [select_of_pointer?_none asked missing]
    simp [asked, missing, eq_comm]
  | some picked =>
    have matched : ¬ ∃ p, o.pointer = some p ∧ d.pointer? p = none := by
      rw [← pointed?_eq_none_iff, pointed]
      exact Option.some_ne_none picked
    rw [select_of_pointed? pointed, mapError_eq_error_iff]
    constructor
    · rintro ⟨failure, failed, rfl⟩
      exact Or.inr ⟨picked, failure, rfl, failed, rfl⟩
    · rintro (⟨p, asked, missing, -⟩ | ⟨_, failure, ⟨rfl⟩, failed, rfl⟩)
      · exact (matched ⟨p, asked, missing⟩).elim
      · exact ⟨failure, failed, rfl⟩

/-! ### One file -/

theorem parses_iff {found : List Json} :
    o.Parses files file found ↔
      ∃ source, readSource files file = .ok source ∧ documentsOf o.lines file source = .ok found := by
  simp only [readSource_eq_ok_iff, documentsOf_eq_ok_iff]
  constructor
  · rintro ⟨source, read, documents⟩
    exact ⟨source.toList, by rwa [String.ofList_toList], documents⟩
  · rintro ⟨source, read, documents⟩
    exact ⟨String.ofList source, read, by rwa [String.toList_ofList]⟩

theorem ofFile_eq_ok_iff {documents : List Json} :
    o.ofFile runner files file = .ok documents ↔ o.Gives runner files file documents := by
  rw [ofFile, Gives]
  simp only [bind_eq_ok_iff, pure_eq_ok_iff, mapM_eq_ok_iff, select_eq_ok_iff, parses_iff]
  constructor
  · rintro ⟨source, read, found, parsed, parts, picked, rfl⟩
    exact ⟨found, parts, ⟨source, read, parsed⟩, picked, rfl⟩
  · rintro ⟨found, parts, ⟨source, read, parsed⟩, picked, rfl⟩
    exact ⟨source, read, found, parsed, parts, picked, rfl⟩

/-- A file is read, then parsed to its end, and only then something is picked. -/
theorem ofFile_failed_iff {e : RunError} :
    o.ofFile runner files file = .error e ↔
      readSource files file = .error e ∨
      (∃ source, readSource files file = .ok source ∧ documentsOf o.lines file source = .error e) ∨
      ∃ found, o.Parses files file found ∧ found.mapM (o.select runner file) = .error e := by
  rw [ofFile]
  simp only [bind_eq_error_iff, parses_iff]
  constructor
  · rintro (unread | ⟨source, read, refused | ⟨found, parsed, unpicked | ⟨parts, -, never⟩⟩⟩)
    · exact Or.inl unread
    · exact Or.inr (Or.inl ⟨source, read, refused⟩)
    · exact Or.inr (Or.inr ⟨found, ⟨source, read, parsed⟩, unpicked⟩)
    · cases never
  · rintro (unread | ⟨source, read, refused⟩ | ⟨found, ⟨source, read, parsed⟩, unpicked⟩)
    · exact Or.inl unread
    · exact Or.inr ⟨source, read, Or.inl refused⟩
    · exact Or.inr ⟨source, read, Or.inr ⟨found, parsed, Or.inl unpicked⟩⟩

/-- What is picked fails at the first document without a match or without an output. -/
theorem mapM_select_eq_error_iff {found : List Json} {e : RunError} :
    found.mapM (o.select runner file) = .error e ↔
      ∃ before d after, found = before ++ d :: after ∧ (∀ other ∈ before, ∃ outputs, o.Picks runner other outputs) ∧
        o.select runner file d = .error e := by
  rw [mapM_eq_error_iff]
  simp only [select_eq_ok_iff]

theorem ofFile_eq_error_iff {e : RunError} : o.ofFile runner files file = .error e ↔ o.Stops runner files file e := by
  rw [ofFile_failed_iff]
  constructor
  · rintro (unread | ⟨source, read, refused⟩ | ⟨found, parses, unpicked⟩)
    · obtain ⟨failure, failed, rfl⟩ | ⟨bytes, read, stray, rfl⟩ := readSource_eq_error_iff.mp unread
      · exact .unreadable failed
      · exact .unencoded read stray
    · obtain ⟨before, piece, after, fault, split, clear, failed, rfl⟩ := documentsOf_eq_error_iff.mp refused
      rw [← String.toList_ofList (l := source)] at split
      exact .refused (readSource_eq_ok_iff.mp read) split clear failed
    · obtain ⟨before, d, after, rfl, clear, failed⟩ := mapM_select_eq_error_iff.mp unpicked
      obtain ⟨p, asked, missing, rfl⟩ | ⟨picked, failure, pointed, raised, rfl⟩ := select_eq_error_iff.mp failed
      · exact .unmatched parses clear asked missing
      · exact .unfiltered parses clear pointed raised
  · intro stops
    cases stops with
    | unreadable failed => exact Or.inl (readSource_eq_error_iff.mpr (Or.inl ⟨_, failed, rfl⟩))
    | unencoded read stray => exact Or.inl (readSource_eq_error_iff.mpr (Or.inr ⟨_, read, stray, rfl⟩))
    | @refused source before after piece fault read split clear failed =>
      rw [← String.ofList_toList (s := source)] at read
      have refused : documentsOf o.lines file source.toList = .error _ :=
        documentsOf_eq_error_iff.mpr ⟨before, piece, after, fault, split, clear, failed, rfl⟩
      exact Or.inr (Or.inl ⟨source.toList, readSource_eq_ok_iff.mpr read, refused⟩)
    | @unmatched before after d pointer parses clear asked missing =>
      have failed : o.select runner file d = .error _ := select_eq_error_iff.mpr (Or.inl ⟨pointer, asked, missing, rfl⟩)
      exact Or.inr (Or.inr ⟨_, parses, mapM_select_eq_error_iff.mpr ⟨before, d, after, rfl, clear, failed⟩⟩)
    | @unfiltered before after d picked failure parses clear pointed raised =>
      have failed : o.select runner file d = .error _ :=
        select_eq_error_iff.mpr (Or.inr ⟨picked, failure, pointed, raised, rfl⟩)
      exact Or.inr (Or.inr ⟨_, parses, mapM_select_eq_error_iff.mpr ⟨before, d, after, rfl, clear, failed⟩⟩)

/-! ### All files -/

variable {tools : Tools}

/-- No input is a pattern. -/
def Literal (o : InputOptions) : Prop := ∀ i ∈ o.inputs, Glob.isPattern i = false

theorem resolve_of_literal (literal : o.Literal) : resolve tools files o.inputs = .ok o.inputs := by
  have alone : o.inputs.mapM (filesOf tools files) = .ok (o.inputs.map fun i => [i]) := by
    rw [mapM_eq_ok_iff, List.forall₂_map_right_iff, List.forall₂_same]
    intro i member
    rw [filesOf, literal i member]
    rfl
  rw [resolve, alone]
  exact congrArg Except.ok (List.flatMap_singleton' o.inputs)

theorem load_of_literal (literal : o.Literal) :
    o.load tools files = (do return (← o.inputs.mapM (o.ofFile tools.filter files)).flatten) := by
  rw [load, resolve_of_literal literal]
  rfl

theorem load_eq_ok_iff (literal : o.Literal) {documents : List Json} :
    o.load tools files = .ok documents ↔
      ∃ parts, List.Forall₂ (o.Gives tools.filter files) o.inputs parts ∧ parts.flatten = documents := by
  rw [load_of_literal literal]
  simp only [bind_eq_ok_iff, pure_eq_ok_iff, mapM_eq_ok_iff, ofFile_eq_ok_iff]

theorem load_succeeds_iff (literal : o.Literal) :
    (∃ documents, o.load tools files = .ok documents) ↔
      ∀ file ∈ o.inputs, ∃ documents, o.Gives tools.filter files file documents := by
  simp only [← ofFile_eq_ok_iff, ← exists_mapM_eq_ok_iff, load_of_literal literal]
  exact exists_bind_pure_eq_ok_iff

theorem load_eq_error_iff (literal : o.Literal) {e : RunError} :
    o.load tools files = .error e ↔
      ∃ before file after, o.inputs = before ++ file :: after ∧
        (∀ other ∈ before, ∃ documents, o.Gives tools.filter files other documents) ∧ o.Stops tools.filter files file e := by
  simp only [← ofFile_eq_ok_iff, ← ofFile_eq_error_iff, ← mapM_eq_error_iff]
  rw [load_of_literal literal]
  exact bind_pure_eq_error_iff

end InputOptions

/-! ### Commands -/

theorem Command.prepare_of_plan? {c : Command} {files : Files} {plan : Plan} (ready : (c.plan? files).2 = .ok plan)
    (coloured : Bool) (tools : Tools) :
    (c.prepare coloured tools files).2 = (c.textOf coloured tools files plan).2 := by
  rw [prepare]
  generalize c.plan? files = planned at ready
  obtain ⟨log, outcome⟩ := planned
  obtain rfl : outcome = .ok plan := ready
  rfl

theorem Command.textOf_read (schema : SchemaOptions) (input : InputOptions) (out : Option String) (coloured : Bool)
    (tools : Tools) (files : Files) (plan : Plan) :
    ((Command.read schema input out).textOf coloured tools files plan).2 =
      (do return "\n".intercalate (plan.rowTexts (← input.load tools files))) := by
  rw [textOf]
  cases input.load tools files <;> rfl

/-- Where the schema compiles and no input is a pattern, a `read` command comes to its output if and only if each file
holds a text, each piece of it is a document, the pointer matches in each document and the filter makes documents of
each match. It puts out the rows of these in the order of the files, of the documents in a file and of the filter's
outputs, so the rows of more files stand behind those of the first ones. Else it stops at the first file at fault:
where the file cannot be read, else at the first piece that is no document, else at the first document without a match
or without an output. -/
theorem read_gathers_rows {schema : SchemaOptions} {input : InputOptions} {out : Option String} {files : Files}
    {plan : Plan} (ready : ((Command.read schema input out).plan? files).2 = .ok plan) (literal : input.Literal)
    (verbosity : Nat) (coloured : Bool) (tools : Tools) :
    let prepared (o : InputOptions) := ((Command.read schema o out).prepare coloured tools files).2
    let report := (⟨verbosity, .read schema input out⟩ : CommandLine).run coloured tools files
    let text (rows : List String) := "\n".intercalate rows
    ((∃ t, prepared input = .ok t) ↔
      ∀ file ∈ input.inputs, ∃ documents, input.Gives tools.filter files file documents) ∧
    (∀ parts, List.Forall₂ (input.Gives tools.filter files) input.inputs parts →
      (report.printed, report.files, report.failure) = emit out (text (plan.rowTexts parts.flatten)) files ∧
      (out = none → report.printed = text (plan.rowTexts parts.flatten) ++ "\n" ∧ report.files = files ∧
        report.failure = none) ∧
      ∀ file, out = some file → report.printed = "" ∧
        (report.failure = none → report.files.read file = .ok (text (plan.rowTexts parts.flatten)).toUTF8)) ∧
    (∀ xs ys ps qs, input.inputs = xs ++ ys → List.Forall₂ (input.Gives tools.filter files) xs ps →
      List.Forall₂ (input.Gives tools.filter files) ys qs →
      prepared { input with inputs := xs } = .ok (text (plan.rowTexts ps.flatten)) ∧
      prepared { input with inputs := ys } = .ok (text (plan.rowTexts qs.flatten)) ∧
      prepared input = .ok (text (plan.rowTexts ps.flatten ++ plan.rowTexts qs.flatten))) ∧
    ∀ e, (prepared input = .error e ↔
        ∃ before file after, input.inputs = before ++ file :: after ∧
          (∀ other ∈ before, ∃ documents, input.Gives tools.filter files other documents) ∧
          input.Stops tools.filter files file e) ∧
      (prepared input = .error e → report.failure = some e) := by
  intro prepared report text
  have loads (o : InputOptions) : prepared o = (do return text (plan.rowTexts (← o.load tools files))) := by
    have compiled : ((Command.read schema o out).plan? files).2 = .ok plan := ready
    exact (Command.prepare_of_plan? compiled coloured tools).trans (Command.textOf_read ..)
  have gathers (o : InputOptions) (bare : o.Literal) (parts : List (List Json))
      (given : List.Forall₂ (o.Gives tools.filter files) o.inputs parts) :
      prepared o = .ok (text (plan.rowTexts parts.flatten)) := by
    rw [loads, (InputOptions.load_eq_ok_iff bare).mpr ⟨parts, given, rfl⟩]
    rfl
  refine ⟨?_, ?_, ?_, fun e => ⟨?_, ?_⟩⟩
  · rw [← InputOptions.load_succeeds_iff literal, loads]
    exact exists_bind_pure_eq_ok_iff
  · intro parts given
    have left : (report.printed, report.files, report.failure) = emit out _ files :=
      CommandLine.run_of_prepare (c := ⟨verbosity, .read schema input out⟩) (gathers input literal parts given)
    refine ⟨left, ?_, ?_⟩
    · rintro rfl
      simp only [emit, Prod.mk.injEq] at left
      exact left
    · rintro file rfl
      have held := emit_some file (text (plan.rowTexts parts.flatten)) files
      rwa [← left] at held
  · intro xs ys ps qs both first second
    have left : ({ input with inputs := xs }).Literal := fun i member => literal i (by simp [both, member])
    have right : ({ input with inputs := ys }).Literal := fun i member => literal i (by simp [both, member])
    have all : List.Forall₂ (input.Gives tools.filter files) input.inputs (ps ++ qs) := by
      rw [both]
      exact List.rel_append first second
    have whole := gathers input literal (ps ++ qs) all
    rw [List.flatten_append, Plan.rowTexts, List.map_append] at whole
    exact ⟨gathers _ left ps first, gathers _ right qs second, whole⟩
  · rw [← InputOptions.load_eq_error_iff literal, loads]
    exact bind_pure_eq_error_iff
  · intro failed
    exact congrArg RunReport.failure
      (CommandLine.run_of_prepare_failed (c := ⟨verbosity, .read schema input out⟩) failed)

/-- One file is given twice around another one, with a pointer and a filter that puts out each match twice; the rows are
printed, or put into a new file. The first line of the file `bad` has no match and its second line is no
document: it is the second line that is told of. -/
theorem read_gathers_rows_twice :
    let one (d : Json) : Json := .object [("d", d)]
    let n (i : Int) : Json := .object [("a", .number (.int i))]
    let files : Files :=
      ⟨.directory
        [("s", .file (Json.object [("a", .string "number")]).compact.toUTF8),
          ("x", .file ((one (n 1)).compact ++ "\r\n \n" ++ (one .null).compact).toUTF8),
          ("y", .file ((one (n 2)).compact ++ "\n").toUTF8), ("bad", .file "1\n?".toUTF8)], []⟩
    let schema : SchemaOptions := ⟨"s", none, 64⟩
    let input (inputs : List String) : InputOptions := ⟨true, some "/d", some "twice", inputs⟩
    let tools : Tools := ⟨fun _ d => .ok [d, d], Glob.paths⟩
    let plan : Plan := ⟨[⟨some "a", ["a"], .scalar .number⟩]⟩
    let run (inputs : List String) (out : Option String) : RunReport :=
      (⟨0, .read schema (input inputs) out⟩ : CommandLine).run false tools files
    let x : List Json := [n 1, n 1, .null, .null]
    let y : List Json := [n 2, n 2]
    let rows := "\x7b\"/a\":1\x7d\n\x7b\"/a\":1\x7d\n\x7b\"/a\":null\x7d\n\x7b\"/a\":null\x7d"
    let more := "\x7b\"/a\":2\x7d\n\x7b\"/a\":2\x7d"
    ((Command.read schema (input ["x", "y", "x"]) none).plan? files).2 = .ok plan ∧
      (input ["x", "y", "x"]).Literal ∧
      List.Forall₂ ((input ["x", "y", "x"]).Gives tools.filter files) ["x", "y", "x"] [x, y, x] ∧
      (run ["x", "y", "x"] none).printed = rows ++ "\n" ++ more ++ "\n" ++ rows ++ "\n" ∧
      (run ["x", "y", "x"] none).failure = none ∧
      (run ["x", "y", "x"] (some "o")).failure = none ∧
      (run ["x", "y", "x"] (some "o")).files.read "o" =
        .ok (rows ++ "\n" ++ more ++ "\n" ++ rows).toUTF8 ∧
      ((Command.read schema (input ["x", "y", "x"]) none).prepare false tools files).2 =
        .ok ("\n".intercalate (plan.rowTexts [x].flatten ++ plan.rowTexts [y, x].flatten)) ∧
      (run ["x", "bad", "z"] none).failure = some (.sourceRefused "bad" [.char '?'] ⟨.valueExpected, 0⟩) := by
  intro one n files schema input tools plan run x y rows more
  have ready (inputs : List String) (out : Option String) :
      ((Command.read schema (input inputs) out).plan? files).2 = .ok plan := by cbv
  have literal : (input ["x", "y", "x"]).Literal :=
    show ∀ i ∈ ["x", "y", "x"], Glob.isPattern i = false by decide
  have bare : (input ["x", "bad", "z"]).Literal :=
    show ∀ i ∈ ["x", "bad", "z"], Glob.isPattern i = false by decide
  have givesX (inputs : List String) : (input inputs).Gives tools.filter files "x" x :=
    InputOptions.ofFile_eq_ok_iff.mp (by cbv)
  have givesY (inputs : List String) : (input inputs).Gives tools.filter files "y" y :=
    InputOptions.ofFile_eq_ok_iff.mp (by cbv)
  have fault : InputOptions.ofFile (input ["x", "bad", "z"]) tools.filter files "bad" =
      .error (.sourceRefused "bad" [.char '?'] ⟨.valueExpected, 0⟩) := by cbv
  have shown : "\n".intercalate (plan.rowTexts [x, y, x].flatten) = rows ++ "\n" ++ more ++ "\n" ++ rows := by cbv
  have stored : (emit (some "o") (rows ++ "\n" ++ more ++ "\n" ++ rows) files).2.2 = none := by cbv
  obtain ⟨-, printed, appended, -⟩ := read_gathers_rows (ready ["x", "y", "x"] none) literal 0 false tools
  obtain ⟨-, written, -, -⟩ := read_gathers_rows (ready ["x", "y", "x"] (some "o")) literal 0 false tools
  obtain ⟨-, -, -, stops⟩ := read_gathers_rows (ready ["x", "bad", "z"] none) bare 0 false tools
  have all : List.Forall₂ ((input ["x", "y", "x"]).Gives tools.filter files) ["x", "y", "x"] [x, y, x] :=
    .cons (givesX _) (.cons (givesY _) (.cons (givesX _) .nil))
  have first : List.Forall₂ ((input ["x", "y", "x"]).Gives tools.filter files) ["x"] [x] := .cons (givesX _) .nil
  have rest : List.Forall₂ ((input ["x", "y", "x"]).Gives tools.filter files) ["y", "x"] [y, x] :=
    .cons (givesY _) (.cons (givesX _) .nil)
  obtain ⟨-, told, -⟩ := printed _ all
  obtain ⟨left, -, held⟩ := written _ all
  dsimp only at told held left
  rw [shown] at told held left
  obtain ⟨toldText, -, unfailed⟩ := told rfl
  have done : (run ["x", "y", "x"] (some "o")).failure = none := (congrArg (fun r => r.2.2) left).trans stored
  refine ⟨ready _ _, literal, all, toldText, unfailed, done, (held _ rfl).2 done,
    (appended ["x"] ["y", "x"] [x] [y, x] rfl first rest).2.2, ?_⟩
  refine (stops _).2 ((stops _).1.mpr ⟨["x"], "bad", ["z"], rfl, ?_, InputOptions.ofFile_eq_error_iff.mp fault⟩)
  exact List.forall_mem_singleton.mpr ⟨x, givesX _⟩

end LeafPlan
