import Mathlib
import LeafPlan.Filter.Run
import LeafPlan.Proofs.CommandLine.Selection
import LeafPlan.Proofs.CommandLine.Sources
import LeafPlan.Proofs.Json.Documents

/-!
# The filter that picks its input

`identity_filter_is_none` shows that the filter `.` gives back the document that it is put to, through the text that
every output is written to, and that documents are picked with it as they are picked without a filter. It holds with
every engine that knows this filter and shows values as JSON, in whichever of JSON's spellings of a string.
-/

namespace LeafPlan

open Grammar Json

/-! ### Digits and separators -/

theorem Number.toList_toString (i : Int) : (toString i).toList = (Number.int i).chars := by
  cases i with
  | ofNat n => simp [toString, Int.repr, Nat.repr, Number.chars]
  | negSucc n => simp [toString, Int.repr, Nat.repr, Number.chars]

theorem intercalate_cons {α : Type} (separator x : List α) (xs : List (List α)) :
    separator.intercalate (x :: xs) = x ++ xs.flatMap (separator ++ ·) := by
  induction xs generalizing x with
  | nil => simp
  | cons y ys ih => rw [List.intercalate_cons_cons, ih, List.flatMap_cons, List.append_assoc, List.append_assoc]

namespace Filter

/-! ### Engines -/

namespace Engine

variable {e : Engine}

/-- The text of a document that has become a value. -/
def shown (e : Engine) (d : Json) : String := e.text (e.ofJson d)

/-- `.` is a filter of the engine: it puts out the value that it is put to, and nothing else. -/
def KnowsIdentity (e : Engine) : Prop :=
  ∃ source program, e.load "." = .ok source ∧ e.compile source = .ok program ∧
    ∀ v, (e.outputs program v).toList = [.ok v]

/-- Values are shown as JSON without blanks: integers by their digits, the characters of a string one by one, and the
parts of an array or object in their order. -/
structure ShowsJson (e : Engine) : Prop where
  null : e.shown .null = "null"
  bool (b : Bool) : e.shown (.bool b) = toString b
  integer (i : Int) (whole : (Number.int i).Whole) : e.shown (.number (.int i)) = toString i
  string : ∃ spell : Char → List Char, (∀ c, Spelling c (spell c)) ∧
    ∀ s, e.shown (.string s) = String.ofList ('"' :: s.toList.flatMap spell ++ ['"'])
  array (items : List Json) : e.shown (.array items) = "[" ++ ",".intercalate (items.map e.shown) ++ "]"
  object (members : Members Json) (distinct : (Members.keys members).Nodup) :
    e.shown (.object members) =
      "\x7b" ++ ",".intercalate (members.map fun m => e.shown (.string m.1) ++ ":" ++ e.shown m.2) ++ "\x7d"

/-! ### The text of a value -/

namespace ShowsJson

theorem content (shows : e.ShowsJson) (s : String) (rest : Text) :
    ∃ t, (e.shown (.string s)).toList.map .char ++ rest = .char '"' :: t ∧ Content t s.toList rest := by
  obtain ⟨spell, spelled, written⟩ := shows.string
  rw [written, String.toList_ofList]
  exact Json.content_flatMap spelled s rest

def style (shows : e.ShowsJson) : Json.Style :=
  ⟨fun s => (e.shown (.string s)).toList, [], [], [], shows.content, Json.blank_nil, Json.blank_nil, Json.blank_nil⟩

theorem spelled (shows : e.ShowsJson) {d : Json} (distinct : d.Distinct) (whole : d.Numbers Number.Whole) :
    d.SpelledBy (e.shown d).toList := by
  induction d using Json.induction with
  | null =>
    rw [shows.null]
    exact .null
  | bool b =>
    rw [shows.bool]
    cases b with
    | true => exact .true
    | false => exact .false
  | number n =>
    cases n with
    | float f => exact whole.elim
    | int i =>
      rw [shows.integer i whole, Number.toList_toString]
      exact Json.spelled_number whole
  | string s => exact Json.spelled_string (shows.content s)
  | array items ih =>
    have each := fun d member => ih d member (distinct_array.mp distinct d member) (numbers_array.mp whole d member)
    rw [shows.array]
    cases items with
    | nil =>
      rw [List.map_nil, String.intercalate_nil]
      exact fun rest => .emptyArray (.none _)
    | cons d ds =>
      have array := shows.style.spelled_array each
      simpa [String.toList_intercalate, intercalate_cons, List.flatMap_map, Style.items, style] using array
  | object members ih =>
    obtain ⟨apart, distinct⟩ := distinct_object.mp distinct
    have each := fun m member => ih m member (distinct m member) (numbers_object.mp whole m member)
    rw [shows.object members apart]
    cases members with
    | nil =>
      rw [List.map_nil, String.intercalate_nil]
      exact fun rest => .emptyObject (.none _)
    | cons m ms =>
      have object := @Style.spelled_object shows.style (fun d => (e.shown d).toList) m ms each
      simpa [String.toList_intercalate, intercalate_cons, List.flatMap_map, Style.members, Style.member, style]
        using object

end ShowsJson

theorem document_ofJson (shows : e.ShowsJson) {d : Json} (recoverable : d.Recoverable 127) :
    e.document (e.ofJson d) = .ok d :=
  mapError_eq_ok_iff.mpr
    (Json.read_of_spells recoverable (shows.spelled recoverable.distinct recoverable.numbers).spells)

/-! ### The filter -/

theorem documents_one {outputs : Outputs (Except String e.Value)} {v : e.Value} {d : Json}
    (one : outputs.toList = [.ok v]) (made : e.document v = .ok d) : e.documents outputs = .ok [d] := by
  cases outputs with
  | done => cases one
  | item first next =>
    obtain ⟨rfl, ended⟩ := List.cons.inj one
    cases last : next () with
    | done =>
      rw [documents, made, last]
      rfl
    | item second more =>
      rw [last] at ended
      cases ended

theorem run_dot (identity : e.KnowsIdentity) (shows : e.ShowsJson) {d : Json} (recoverable : d.Recoverable 127) :
    e.run "." d = .ok [d] := by
  obtain ⟨source, program, loaded, compiled, outputs⟩ := identity
  have ran : e.run "." d = (do
      let program ← (e.compile source).mapError .undefined
      e.documents (e.outputs program (e.ofJson d))) := by
    rw [run, loaded]
    rfl
  rw [ran, compiled]
  exact documents_one (outputs _) (document_ofJson shows recoverable)

end Engine

end Filter

/-! ### Documents picked with it -/

namespace Json

theorem within_of_step? {P : Number → Prop} {n : Nat} {d e : Json} {name : String} (within : d.Within P n)
    (found : Pointer.step? d name = some e) : e.Within P n := by
  cases d with
  | object members => exact within_member within (Members.mem_of_find? found)
  | array items =>
    obtain ⟨i, -, here⟩ := Option.bind_eq_some_iff.mp found
    exact within_item within (List.mem_of_getElem? here)
  | _ => cases found

theorem within_of_foldlM {P : Number → Prop} {n : Nat} {names : List String} {d e : Json} (within : d.Within P n)
    (found : names.foldlM Pointer.step? d = some e) : e.Within P n := by
  induction names generalizing d with
  | nil =>
    obtain rfl := Option.some.inj found
    exact within
  | cons name names ih =>
    rw [List.foldlM_cons] at found
    obtain ⟨c, here, below⟩ := Option.bind_eq_some_iff.mp found
    exact ih (within_of_step? within here) below

end Json

namespace InputOptions

theorem within_of_pointed? {P : Number → Prop} {n : Nat} {o : InputOptions} {d e : Json} (within : d.Within P n)
    (found : o.pointed? d = some e) : e.Within P n := by
  rw [pointed?] at found
  cases pointer : o.pointer with
  | none =>
    rw [pointer] at found
    obtain rfl := Option.some.inj found
    exact within
  | some p =>
    rw [pointer] at found
    obtain ⟨names, -, found⟩ := Option.bind_eq_some_iff.mp found
    exact Json.within_of_foldlM within found

/-- A filter that gives back every document of integers. -/
def Keeps (runner : FilterRunner) (source : String) : Prop := ∀ d : Json, d.Recoverable 127 → runner source d = .ok [d]

variable {o : InputOptions} {tools : Tools} {runner : FilterRunner} {source : String} {files : Files}

theorem select_of_keeps (keeps : Keeps runner source) {file : String} {d : Json}
    (each : ∀ e, o.pointed? d = some e → e.Recoverable 127) :
    ({ o with filter := some source }).select runner file d = ({ o with filter := none }).select runner file d := by
  have picked (e : Json) (found : o.pointed? d = some e) :
      (runner source e).mapError (RunError.filter file) = .ok [e] :=
    mapError_eq_ok_iff.mpr (keeps e (each e found))
  rw [select, select]
  cases pointer : o.pointer with
  | none => exact picked d (by rw [pointed?, pointer]; rfl)
  | some p =>
    cases found : d.pointer? p with
    | none => simp only [found]; rfl
    | some e =>
      simp only [found]
      exact picked e (by rw [pointed?, pointer]; exact found)

theorem read_of_documentsOf {lines : Bool} {file : String} {source : List Char} {docs : List Json}
    (parsed : documentsOf lines file source = .ok docs) {d : Json} (member : d ∈ docs) : ∃ t, Json.read t = .ok d := by
  obtain ⟨piece, -, read⟩ := forall₂_right (documentsOf_eq_ok_iff.mp parsed) d member
  exact ⟨_, read⟩

/-- No document that is picked in front of the filter has a floating point number. -/
def Integral (o : InputOptions) (tools : Tools) (files : Files) : Prop :=
  ∀ paths file text docs d e, resolve tools files o.inputs = .ok paths → file ∈ paths →
    readSource files file = .ok text → documentsOf o.lines file text = .ok docs → d ∈ docs →
      o.pointed? d = some e → e.Numbers Number.IsInt

theorem load_of_keeps (keeps : Keeps tools.filter source) (integral : o.Integral tools files) :
    ({ o with filter := some source }).load tools files = ({ o with filter := none }).load tools files := by
  rw [load, load]
  refine bind_congr_of_ok fun paths resolved => ?_
  have same : ∀ file ∈ paths, ({ o with filter := some source }).ofFile tools.filter files file =
      ({ o with filter := none }).ofFile tools.filter files file := by
    intro file listed
    rw [ofFile, ofFile]
    refine bind_congr_of_ok fun text read => bind_congr_of_ok fun docs parsed => ?_
    have selected : ∀ d ∈ docs, ({ o with filter := some source }).select tools.filter file d =
        ({ o with filter := none }).select tools.filter file d := by
      refine fun d member => select_of_keeps keeps fun e pointed => ?_
      obtain ⟨t, found⟩ := read_of_documentsOf parsed member
      have within := within_of_pointed? (Json.within_of_read found) pointed
      have integers := integral paths file text docs d e resolved listed read parsed member pointed
      exact ⟨within.distinct, within.numbers.mp integers, within.shallow⟩
    rw [mapM_congr selected]
  rw [mapM_congr same]

end InputOptions

/-- With an engine that knows the filter `.` and shows values as JSON, this filter puts out the document that it is put
to, where all numbers are integers of 64 bits and the document is nested at most 127 deep. So with it a command picks
the documents that it picks without a filter, from one document as from its files, as long as no floating point number
is among what it picks: what is read from a file repeats no key, has no other integers and is nested no deeper. -/
theorem identity_filter_is_none (e : Filter.Engine) (identity : e.KnowsIdentity) (shows : e.ShowsJson) :
    (∀ d : Json, d.Recoverable 127 → e.run "." d = .ok [d]) ∧
    (∀ (o : InputOptions) (file : String) (d : Json), d.Recoverable 127 →
      ({ o with filter := some "." }).select e.run file d = ({ o with filter := none }).select e.run file d) ∧
    ∀ (o : InputOptions) (tools : Tools) (files : Files), tools.filter = e.run → o.Integral tools files →
      ({ o with filter := some "." }).load tools files = ({ o with filter := none }).load tools files := by
  have keeps : InputOptions.Keeps e.run "." := fun d => Filter.Engine.run_dot identity shows
  refine ⟨keeps, fun o file d recoverable => ?_, fun o tools files filter integral => ?_⟩
  · exact InputOptions.select_of_keeps keeps fun _ => InputOptions.within_of_pointed? recoverable
  · exact InputOptions.load_of_keeps (filter ▸ keeps) integral

/-! ### An engine that does so -/

namespace Filter

theorem itemChars_eq (ds : List Json) :
    Value.itemChars (Value.ofItems ds) = ds.flatMap fun d => ',' :: (Value.ofJson d).chars := by
  have joined : Joined _ fun ds => Value.itemChars (Value.ofItems ds) := ⟨rfl, fun _ _ => rfl⟩
  exact joined.eq ds

theorem memberChars_eq (ms : List (String × Json)) :
    Value.memberChars (Value.ofMembers ms) =
      ms.flatMap fun m => ',' :: Value.quote m.1 ++ ':' :: (Value.ofJson m.2).chars := by
  have joined : Joined _ fun ms => Value.memberChars (Value.ofMembers ms) := ⟨rfl, fun _ _ => rfl⟩
  exact joined.eq ms

theorem spelling_escapeChar (c : Char) : Spelling c (Value.escapeChar c) := by
  unfold Value.escapeChar
  split
  · rename_i same
    refine .escape fun rest => ?_
    have unit : CodeUnit ("007f".toList.map .char ++ rest) 0x7f rest :=
      .intro (.digit (n := 0) (by decide)) (.digit (n := 0) (by decide)) (.digit (n := 7) (by decide))
        (.lower (n := 5) (by decide)) rest
    rw [same]
    exact .code unit (Or.inl (by decide))
  · exact Json.spelling_escapeChar c

theorem ofText?_dot : Term.ofText? "." = some .input := by cbv

theorem Eval.run_input (n : Nat) (env : Environment) (i : Item) : run (n + 1) env .input i = .one i := by
  rw [run]

theorem engine_knowsIdentity : engine.KnowsIdentity := by
  have inScope : scope.undefinedIn .input = [] := rfl
  refine ⟨(".", .input), .input, ?_, ?_, fun v => ?_⟩
  · simp [engine, ofText?_dot]
  · simp [engine, inScope]
  · simp only [engine, Outputs.toList_map]
    rw [Eval.depth, Eval.run_input]
    rfl

theorem chars_ofNumber (n : Number) : (Value.ofNumber n).chars = n.chars := by
  unfold Value.ofNumber
  split
  · split
    · rfl
    · exact String.toList_ofList
  · exact String.toList_ofList

theorem engine_showsJson : engine.ShowsJson where
  null := by decide
  bool b := by cases b <;> decide
  integer i _ := by
    apply String.toList_injective
    rw [Number.toList_toString, ← chars_ofNumber]
    exact String.toList_ofList
  string := ⟨Value.escapeChar, spelling_escapeChar, fun _ => rfl⟩
  array items := by
    apply String.toList_injective
    cases items with
    | nil => decide
    | cons d ds =>
      simp [Engine.shown, engine, Value.text, Value.ofJson, Value.ofItems, Value.chars, itemChars_eq,
        String.toList_intercalate, intercalate_cons, List.flatMap_map]
  object members _ := by
    apply String.toList_injective
    cases members with
    | nil => decide
    | cons m ms =>
      simp [Engine.shown, engine, Value.text, Value.ofJson, Value.ofMembers, Value.chars, memberChars_eq,
        String.toList_intercalate, intercalate_cons, List.flatMap_map]

end Filter

/-- The delete character, which only a filter's texts escape, in a key; the greatest and the least integer. -/
theorem identity_filter_is_none_delete :
    let d : Json := .object
      [("\x7f", .array [.number (.int 18446744073709551615), .number (.int (-9223372036854775808))]),
        ("", .string "é\x01\"")]
    let files : Files := ⟨.directory [("d", .file d.compact.toUTF8)], []⟩
    let tools : Tools := ⟨Filter.engine.run, Glob.paths⟩
    let o : InputOptions := ⟨false, some "/\x7f", none, ["d"]⟩
    Filter.engine.KnowsIdentity ∧ Filter.engine.ShowsJson ∧ d.Recoverable 127 ∧
      Filter.engine.shown d =
        "\x7b\"\\u007f\":[18446744073709551615,-9223372036854775808],\"\":\"é\\u0001\\\"\"\x7d" ∧
      Filter.engine.run "." d = .ok [d] ∧
      ({ o with filter := some "." }).select Filter.engine.run "d" d =
        ({ o with filter := none }).select Filter.engine.run "d" d ∧
      o.Integral tools files ∧
      ({ o with filter := some "." }).load tools files = ({ o with filter := none }).load tools files := by
  intro d files tools o
  have recoverable : d.Recoverable 127 := by decide
  have integral : o.Integral tools files := by
    intro paths file source docs e f resolved listed read parsed member pointed
    have only : InputOptions.resolve tools files o.inputs = .ok ["d"] := by cbv
    obtain rfl := Except.ok.inj (only.symm.trans resolved)
    obtain rfl := List.mem_singleton.mp listed
    have text : InputOptions.readSource files "d" = .ok d.compact.toList := by cbv
    obtain rfl := Except.ok.inj (text.symm.trans read)
    have document : InputOptions.documentsOf false "d" d.compact.toList = .ok [d] :=
      bind_eq_ok_iff.mpr ⟨d, mapError_eq_ok_iff.mpr (Json.read_compact recoverable), rfl⟩
    obtain rfl := Except.ok.inj (document.symm.trans parsed)
    obtain rfl := List.mem_singleton.mp member
    have list : o.pointed? d = d.child? "\x7f" := by cbv
    obtain rfl := Option.some.inj (list.symm.trans pointed)
    decide
  obtain ⟨outputs, selected, loaded⟩ :=
    identity_filter_is_none Filter.engine Filter.engine_knowsIdentity Filter.engine_showsJson
  exact ⟨Filter.engine_knowsIdentity, Filter.engine_showsJson, recoverable, by cbv, outputs d recoverable,
    selected o "d" d recoverable, integral, loaded o tools files rfl integral⟩

end LeafPlan
