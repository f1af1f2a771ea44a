import LeafPlan.Proofs.CommandLine.Row
import LeafPlan.Proofs.Plan.Methods
import LeafPlan.Proofs.Plan.Summary
import LeafPlan.Proofs.Text.Lines

/-!
# Tables read back

A name may hold spaces, digits and whole columns of a table. But no kind has a space in it, so the last space of a line
stands in front of the kind, whatever stands in the label. `table_determines_plan` shows that the plan comes back from
its table.
-/

namespace LeafPlan

/-! ### Kinds -/

theorem Builtin.name_injective {b c : Builtin} (same : b.name = c.name) : b = c := by
  cases b with
  | json =>
    cases c with
    | json => rfl
    | join => exact absurd same (by decide)
  | join =>
    cases c with
    | json => exact absurd same (by decide)
    | join => rfl

namespace LeafKind

theorem display_list (m : Method) : (list m).display = "array[" ++ m.name ++ "]" := rfl

theorem display_scalar_ne_list (m : Marker) (n : Method) : (scalar m).display ≠ (list n).display := by
  intro same
  have bracket : '[' ∈ (list n).display.toList := by simp [display_list]
  rw [← same] at bracket
  cases m <;> exact absurd bracket (by decide)

variable {k j : LeafKind}

theorem display_injective (builtin : k.IsBuiltin) (builtinToo : j.IsBuiltin) (same : k.display = j.display) : k = j := by
  cases k with
  | scalar m =>
    cases j with
    | scalar n => exact congrArg scalar (Marker.name_injective same)
    | list n => exact (display_scalar_ne_list m n same).elim
  | list m =>
    cases j with
    | scalar n => exact (display_scalar_ne_list n m same.symm).elim
    | list n =>
      obtain ⟨b, rfl⟩ := builtin m rfl
      obtain ⟨c, rfl⟩ := builtinToo n rfl
      rw [display_list, display_list, String.append_left_inj, String.append_right_inj] at same
      rw [Builtin.name_injective same]

/-- A kind is a single word. -/
theorem isSpace_display (builtin : k.IsBuiltin) : k.display.toList.any Lines.isSpace = false := by
  cases k with
  | scalar m => cases m <;> decide
  | list m =>
    obtain ⟨b, rfl⟩ := builtin m rfl
    cases b <;> decide

theorem not_mem_display (builtin : k.IsBuiltin) {c : Char} (white : Lines.isSpace c = true) : c ∉ k.display.toList :=
  fun member => List.any_eq_false.mp (isSpace_display builtin) c member white

theorem display_ne_nil (k : LeafKind) : k.display.toList ≠ [] := by
  cases k with
  | scalar m => cases m <;> decide
  | list m => simp [display_list]

end LeafKind

/-! ### Labels -/

theorem Pointer.mem_of_mem_escape {name : List Char} {c : Char} (inside : c ∈ name.flatMap escapeChar) :
    c ∈ name ∨ c ∈ ['~', '0', '1'] := by
  obtain ⟨d, member, inside⟩ := List.mem_flatMap.mp inside
  rw [escapeChar] at inside
  split at inside
  · have escape : ['~', '0'] ⊆ ['~', '0', '1'] := by decide
    exact Or.inr (escape inside)
  · split at inside
    · have escape : ['~', '1'] ⊆ ['~', '0', '1'] := by decide
      exact Or.inr (escape inside)
    · exact Or.inl (List.mem_singleton.mp inside ▸ member)

theorem Path.feed_not_mem_label {p : Path} (feedless : ∀ k ∈ p, '\n' ∉ k.toList) : '\n' ∉ p.label.toList := by
  cases p with
  | nil => decide
  | cons k p =>
    rw [label_cons, pointer, Pointer.write, String.toList_ofList, Pointer.writeChars, List.mem_flatMap]
    rintro ⟨name, member, inside⟩
    rcases List.mem_cons.mp inside with slash | inside
    · exact absurd slash (by decide)
    · rcases Pointer.mem_of_mem_escape inside with here | escape
      · exact feedless name member here
      · exact absurd escape (by decide)

/-! ### Lines -/

/-- A leaf whose line in a table is one line. -/
structure Leaf.Printable (l : Leaf) : Prop where
  builtin : l.kind.IsBuiltin
  feedless : ∀ k ∈ l.path, '\n' ∉ k.toList

/-- The leaves are the same in all that a table shows. -/
structure Leaf.ShownAlike (l m : Leaf) : Prop where
  path : l.path = m.path
  isList : l.kind.isList = m.kind.isList
  method : l.kind.method? = m.kind.method?
  marker : l.kind.marker? = m.kind.marker?

theorem Leaf.shownAlike_iff {l m : Leaf} : l.ShownAlike m ↔ l.path = m.path ∧ l.kind = m.kind := by
  obtain ⟨name, path, kind⟩ := l
  obtain ⟨nameToo, pathToo, kindToo⟩ := m
  constructor
  · rintro ⟨here, -, method, marker⟩
    refine ⟨here, ?_⟩
    cases kind with
    | scalar m =>
      cases kindToo with
      | scalar n => exact congrArg LeafKind.scalar (Option.some.inj marker)
      | list n => cases marker
    | list m =>
      cases kindToo with
      | scalar n => cases marker
      | list n => exact congrArg LeafKind.list (Option.some.inj method)
  · rintro ⟨here, same⟩
    exact ⟨here, congrArg _ same, congrArg _ same, congrArg _ same⟩

namespace Table

/-- A line without its end. -/
def lineText (n : Nat) (l : Leaf) : String := numberText n ++ "  " ++ l.path.label ++ "  " ++ l.kind.display

theorem line_eq (n : Nat) (l : Leaf) : line false n l = lineText n l ++ "\n" := rfl

theorem toList_lineText (n : Nat) (l : Leaf) :
    (lineText n l).toList =
      (numberText n).toList ++ ' ' :: ' ' :: (l.path.label.toList ++ [' '] ++ ' ' :: l.kind.display.toList) := by
  simp [lineText]

theorem feed_not_mem_numberText (n : Nat) : '\n' ∉ (numberText n).toList := by
  rw [numberText, String.toList_append, String.toList_ofList, String.toList_ofList, List.mem_append]
  rintro (blank | digit)
  · exact absurd (List.eq_of_mem_replicate blank) (by decide)
  · exact absurd (Nat.isDigit_of_mem_toDigits (by decide) (by decide) digit) (by decide)

variable {n : Nat} {l m : Leaf}

theorem feed_not_mem_lineText (printable : l.Printable) : '\n' ∉ (lineText n l).toList := by
  have number := feed_not_mem_numberText n
  have label := Path.feed_not_mem_label printable.feedless
  have kind : '\n' ∉ l.kind.display.toList := LeafKind.not_mem_display printable.builtin rfl
  simp [toList_lineText, number, label, kind]

theorem ended_lineText (printable : l.Printable) : Lines.ended (lineText n l).toList = (lineText n l).toList := by
  have bare : '\r' ∉ l.kind.display.toList := LeafKind.not_mem_display printable.builtin rfl
  have line := Lines.ended_append bare l.kind.display_ne_nil
    ((numberText n).toList ++ ' ' :: ' ' :: (l.path.label.toList ++ [' ', ' ']))
  simpa [toList_lineText] using line

/-- A text is cut in front of its last word in one way only. -/
theorem cut_unique {c : Char} {front frontToo word wordToo : List Char} (bare : c ∉ word) (bareToo : c ∉ wordToo)
    (same : front ++ c :: word = frontToo ++ c :: wordToo) : front = frontToo ∧ word = wordToo := by
  have nothing {more u v : List Char} (bare : c ∉ u) (rest : c :: u = more ++ c :: v) : more = [] := by
    cases more with
    | nil => rfl
    | cons d more =>
      obtain ⟨-, rfl⟩ := List.cons.inj rest
      exact absurd (List.mem_append_right _ List.mem_cons_self) bare
  rcases List.append_eq_append_iff.mp same with ⟨more, front, rest⟩ | ⟨more, front, rest⟩
  · obtain rfl := nothing bare rest
    exact ⟨by simpa using front.symm, (List.cons.inj rest).2⟩
  · obtain rfl := nothing bareToo rest
    exact ⟨by simpa using front, (List.cons.inj rest).2.symm⟩

/-- The label may end in spaces and in words that are kinds. -/
theorem shownAlike_of_lineText (builtin : l.kind.IsBuiltin) (builtinToo : m.kind.IsBuiltin)
    (same : lineText n l = lineText n m) : l.ShownAlike m := by
  have chars := congrArg String.toList same
  rw [toList_lineText, toList_lineText, List.append_cancel_left_eq, List.cons_inj_right, List.cons_inj_right] at chars
  have bare : ' ' ∉ l.kind.display.toList := LeafKind.not_mem_display builtin rfl
  have bareToo : ' ' ∉ m.kind.display.toList := LeafKind.not_mem_display builtinToo rfl
  obtain ⟨label, kind⟩ := cut_unique bare bareToo chars
  refine Leaf.shownAlike_iff.mpr ⟨?_, ?_⟩
  · exact Path.label_injective (String.toList_injective (List.append_cancel_right label))
  · exact LeafKind.display_injective builtin builtinToo (String.toList_injective kind)

theorem lineText_of_shownAlike (n : Nat) (alike : l.ShownAlike m) : lineText n l = lineText n m := by
  obtain ⟨path, kind⟩ := Leaf.shownAlike_iff.mp alike
  rw [lineText, lineText, path, kind]

theorem split_lines {leaves : List Leaf} (printable : ∀ l ∈ leaves, l.Printable) (n : Nat) :
    Lines.split (String.join (lines false n leaves)).toList = leaves.mapIdx fun i l => (lineText (n + i) l).toList := by
  induction leaves generalizing n with
  | nil => rfl
  | cons l leaves ih =>
    obtain ⟨here, printable⟩ := List.forall_mem_cons.mp printable
    have chars : (String.join (lines false n (l :: leaves))).toList =
        (lineText n l).toList ++ '\n' :: (String.join (lines false (n + 1) leaves)).toList := by
      simp [lines, line_eq]
    rw [chars, Lines.split_append (feed_not_mem_lineText here), ended_lineText here, ih printable, List.mapIdx_cons]
    simp only [Nat.add_zero, Nat.add_right_comm n 1, Nat.add_assoc]

theorem lines_of_shownAlike {leaves others : List Leaf} (alike : List.Forall₂ Leaf.ShownAlike leaves others) (n : Nat) :
    lines false n leaves = lines false n others := by
  induction alike generalizing n with
  | nil => rfl
  | cons here _ ih => rw [lines, lines, line_eq, line_eq, lineText_of_shownAlike n here, ih]

end Table

/-! ### Tables -/

theorem forall₂_of_mapIdx {α β : Type} {R : α → α → Prop} {f : Nat → α → β} {xs ys : List α}
    (same : xs.mapIdx f = ys.mapIdx f) (each : ∀ i, ∀ x ∈ xs, ∀ y ∈ ys, f i x = f i y → R x y) :
    List.Forall₂ R xs ys := by
  induction xs generalizing ys f with
  | nil =>
    cases ys with
    | nil => exact .nil
    | cons y ys => simp at same
  | cons x xs ih =>
    cases ys with
    | nil => simp at same
    | cons y ys =>
      rw [List.mapIdx_cons, List.mapIdx_cons] at same
      obtain ⟨here, there⟩ := List.cons.inj same
      refine .cons (each 0 x List.mem_cons_self y List.mem_cons_self here) (ih there fun i u left v right => ?_)
      exact each (i + 1) u (List.mem_cons_of_mem _ left) v (List.mem_cons_of_mem _ right)

namespace Plan

variable {plan other : Plan}

/-- A table has a line for each leaf, in the order of the plan. -/
theorem split_table (printable : ∀ l ∈ plan.leaves, l.Printable) :
    Lines.split (plan.table false).toList = plan.leaves.mapIdx fun i l => (Table.lineText i l).toList := by
  rw [table, Table.split_lines printable]
  simp only [Nat.zero_add]

theorem table_eq_iff (printable : ∀ l ∈ plan.leaves, l.Printable) (printableToo : ∀ l ∈ other.leaves, l.Printable) :
    plan.table false = other.table false ↔ List.Forall₂ Leaf.ShownAlike plan.leaves other.leaves := by
  constructor
  · intro same
    have lines : Lines.split (plan.table false).toList = Lines.split (other.table false).toList := by rw [same]
    rw [split_table printable, split_table printableToo] at lines
    refine forall₂_of_mapIdx lines fun i l member m memberToo line => ?_
    exact Table.shownAlike_of_lineText (printable l member).builtin (printableToo m memberToo).builtin
      (String.toList_injective line)
  · intro alike
    rw [table, table, Table.lines_of_shownAlike alike]

end Plan

/-! ### Plans of commands -/

theorem SchemaOptions.Loaded.isBuiltin {x : Prepared} {o : Authored} (loaded : Loaded x o) {n : Nat} {plan : Plan}
    (compiled : Compiler.compile ⟨id, n⟩ x (some o) = .ok plan) : ∀ l ∈ plan.leaves, l.kind.IsBuiltin := by
  obtain ⟨t, authored⟩ := loaded.authored
  have named := Authored.builtin_of_load authored
  refine fun l => Compiler.isBuiltin_of_compile loaded.distinct (fun p items m found => ?_) named compiled
  rcases loaded.prepared with rfl | ⟨u, prepared⟩
  · obtain ⟨b, method⟩ := named.carried found
    exact ⟨b, Option.some.inj method⟩
  · cases (Prepared.bare_of_load prepared).carried found

/-- A command's plan is made of paths and kinds: there is nothing else that its leaves could differ in. -/
theorem Command.eq_of_shownAlike {c d : Command} {files others : Files} {plan other : Plan}
    (ready : (c.plan? files).2 = .ok plan) (readyToo : (d.plan? others).2 = .ok other)
    (alike : List.Forall₂ Leaf.ShownAlike plan.leaves other.leaves) : plan = other := by
  obtain ⟨x, o, -, compiled⟩ := loaded_of_plan? ready
  obtain ⟨y, u, -, compiledToo⟩ := loaded_of_plan? readyToo
  have leaves : List.Forall₂ (· = ·) plan.leaves other.leaves := by
    refine forall₂_imp_of_mem (fun l member m memberToo alike => ?_) alike
    have name := Compiler.name_of_compile compiled member
    have nameToo := Compiler.name_of_compile compiledToo memberToo
    obtain ⟨path, kind⟩ := Leaf.shownAlike_iff.mp alike
    rw [path, ← nameToo] at name
    cases l
    cases m
    exact (Leaf.mk.injEq ..).mpr ⟨name, path, kind⟩
  rw [List.forall₂_eq_eq_eq] at leaves
  cases plan
  exact congrArg Plan.mk leaves

/-- The table without colours that a command prints has a line for each leaf, in the order of the plan, and no other
lines. If no name has a line feed in it, the text determines the plan: plans of commands with the same text have as
many leaves, and leaf by leaf the same path, be it a list or not, the same method and the same marker. -/
theorem table_determines_plan {c d : Command} {files others : Files} {plan other : Plan}
    (ready : (c.plan? files).2 = .ok plan) (readyToo : (d.plan? others).2 = .ok other)
    (feedless : ∀ l ∈ plan.leaves, ∀ k ∈ l.path, '\n' ∉ k.toList)
    (feedlessToo : ∀ l ∈ other.leaves, ∀ k ∈ l.path, '\n' ∉ k.toList) :
    Lines.split (plan.table false).toList = plan.leaves.mapIdx (fun i l => (Table.lineText i l).toList) ∧
    (plan.table false = other.table false ↔ List.Forall₂ Leaf.ShownAlike plan.leaves other.leaves) ∧
    (plan.table false = other.table false → plan = other) := by
  obtain ⟨x, o, loaded, compiled⟩ := Command.loaded_of_plan? ready
  obtain ⟨y, u, loadedToo, compiledToo⟩ := Command.loaded_of_plan? readyToo
  have printable (l : Leaf) (member : l ∈ plan.leaves) : l.Printable :=
    ⟨loaded.isBuiltin compiled l member, feedless l member⟩
  have printableToo (l : Leaf) (member : l ∈ other.leaves) : l.Printable :=
    ⟨loadedToo.isBuiltin compiledToo l member, feedlessToo l member⟩
  have shown := Plan.table_eq_iff printable printableToo
  exact ⟨Plan.split_table printable, shown, fun same => Command.eq_of_shownAlike ready readyToo (shown.mp same)⟩

/-- One plan, of an authored schema alone and with a prepared one. Its names look like columns of a table. -/
theorem table_determines_plan_lookalikes :
    let schema : Json := .object [("a  number", .object [("", .array [.string "json"])]), ("\r  1", .string "number")]
    let bare : Json := .object [("a  number", .object [("", .array [])]), ("\r  1", .string "number__sjs")]
    let files : Files := ⟨.directory [("s", .file schema.compact.toUTF8), ("p", .file bare.compact.toUTF8)], []⟩
    let alone : Command := .plan ⟨"s", none, 64⟩ false none
    let both : Command := .plan ⟨"s", some "p", 64⟩ false none
    let plan : Plan :=
      ⟨[⟨some "", ["a  number", ""], .list Builtin.json.method⟩, ⟨some "\r  1", ["\r  1"], .scalar .number⟩]⟩
    (alone.plan? files).2 = .ok plan ∧ (both.plan? files).2 = .ok plan ∧
      (∀ l ∈ plan.leaves, ∀ k ∈ l.path, '\n' ∉ k.toList) ∧
      (Lines.split (plan.table false).toList).map String.ofList =
        ["  0  /a  number/  array[json]", "  1  /\r  1  number"] ∧
      List.Forall₂ Leaf.ShownAlike plan.leaves plan.leaves := by
  intro schema bare files alone both plan
  have ready : (alone.plan? files).2 = .ok plan := by cbv
  have readyToo : (both.plan? files).2 = .ok plan := by cbv
  have feedless : ∀ l ∈ plan.leaves, ∀ k ∈ l.path, '\n' ∉ k.toList := by decide +zetaReduce
  obtain ⟨lines, shown, -⟩ := table_determines_plan ready readyToo feedless feedless
  refine ⟨ready, readyToo, feedless, ?_, shown.mp rfl⟩
  rw [lines]
  decide +zetaReduce

-- With a line feed in a name, one leaf has the lines of two.
example :
    Plan.table ⟨[⟨some "b", ["a  number\n  1  ", "b"], .scalar .number⟩]⟩ false =
      Plan.table ⟨[⟨some "a", ["a"], .scalar .number⟩, ⟨some "b", ["b"], .scalar .number⟩]⟩ false := by decide

end LeafPlan
