import LeafPlan.Text.Lines

/-!
# Rows on lines

`Lines.filter_split` shows that the rows of a text come back from its lines, whatever ends the lines and whichever
lines of white space stand among them. `Lines.lined_split` shows that every text consists of its lines and their ends.
-/

namespace LeafPlan.Lines

/-- A line as a line feed behind it ends it. -/
def ended (line : List Char) : List Char := if line.getLast? = some '\r' then line.dropLast else line

theorem ended_of_not_mem {line : List Char} (bare : '\r' ∉ line) : ended line = line :=
  if_neg fun last => bare (List.mem_of_getLast? last)

theorem ended_append {word : List Char} (bare : '\r' ∉ word) (more : word ≠ []) (front : List Char) :
    ended (front ++ word) = front ++ word := by
  have last : (front ++ word).getLast? = word.getLast? := by
    rw [List.getLast?_append, List.getLast?_eq_some_getLast more, Option.some_or]
  exact if_neg fun back => bare (List.mem_of_getLast? (last ▸ back))

theorem ended_return (line : List Char) : ended (line ++ ['\r']) = line := by
  rw [ended, if_pos List.getLast?_concat, List.dropLast_concat]

theorem ended_cons {c : Char} {line : List Char} (more : c = '\r' → line ≠ []) :
    ended (c :: line) = c :: ended line := by
  cases line with
  | nil =>
    have other : c ≠ '\r' := fun same => more same rfl
    simp [ended, other]
  | cons d line =>
    rw [ended, ended, List.getLast?_cons_cons]
    split <;> rfl

theorem split_cons {c : Char} {rest : List Char} (feed : c ≠ '\n') (more : c = '\r' → ∀ u, rest ≠ '\n' :: u) :
    split (c :: rest) =
      match split rest with
      | [] => [[c]]
      | line :: lines => (c :: line) :: lines := by
  rw [split.eq_def]
  split
  · rename_i same
    cases same
  · rename_i same
    exact absurd (List.cons.inj same).1 feed
  · rename_i u same
    exact absurd (List.cons.inj same).2 (more (List.cons.inj same).1 u)
  · rename_i same
    obtain ⟨rfl, rfl⟩ := List.cons.inj same
    rfl

theorem split_append {line : List Char} (single : '\n' ∉ line) (rest : List Char) :
    split (line ++ '\n' :: rest) = ended line :: split rest := by
  induction line with
  | nil => rfl
  | cons c line ih =>
    obtain ⟨feed, single⟩ := not_or.mp (mt List.mem_cons.mpr single)
    by_cases last : c = '\r' ∧ line = []
    · obtain ⟨rfl, rfl⟩ := last
      rfl
    · have more : c = '\r' → line ≠ [] := fun same empty => last ⟨same, empty⟩
      rw [List.cons_append, split_cons (Ne.symm feed), ih single, ended_cons more]
      intro same u here
      obtain ⟨d, line, rfl⟩ := List.exists_cons_of_ne_nil (more same)
      exact single ((List.cons.inj here).1 ▸ List.mem_cons_self)

theorem split_last {line : List Char} (single : '\n' ∉ line) (more : line ≠ []) : split line = [line] := by
  induction line with
  | nil => exact (more rfl).elim
  | cons c line ih =>
    obtain ⟨feed, single⟩ := not_or.mp (mt List.mem_cons.mpr single)
    rw [split_cons (Ne.symm feed)]
    · cases line with
      | nil => rfl
      | cons d line => rw [ih single (List.cons_ne_nil d line)]
    · rintro - u rfl
      exact single List.mem_cons_self

/-- What ends a line. -/
def IsEnd (e : List Char) : Prop := e = ['\n'] ∨ e = ['\r', '\n']

/-- The text shows the rows in their order, each on a line of its own, among lines of white space. The last line may
have no end. -/
inductive Shows : List (List Char) → List Char → Prop
  | nothing : Shows [] []
  | blank {line e text : List Char} {rows : List (List Char)} (white : isBlank line = true) (single : '\n' ∉ line)
    (ends : IsEnd e) (more : Shows rows text) : Shows rows (line ++ (e ++ text))
  | row {row e text : List Char} {rows : List (List Char)} (ends : IsEnd e) (more : Shows rows text) :
    Shows (row :: rows) (row ++ (e ++ text))
  | lastBlank {line : List Char} (white : isBlank line = true) (single : '\n' ∉ line) : Shows [] line
  | lastRow (row : List Char) : Shows [row] row

theorem shows_intercalate (rows : List (List Char)) : Shows rows (['\n'].intercalate rows) := by
  induction rows with
  | nil => exact .nothing
  | cons row rows ih =>
    cases rows with
    | nil =>
      rw [List.intercalate_singleton]
      exact .lastRow row
    | cons next rows =>
      rw [List.intercalate_cons_cons, List.append_assoc]
      exact .row (Or.inl rfl) ih

theorem shows_intercalate_feed (rows : List (List Char)) : Shows rows (['\n'].intercalate rows ++ ['\n']) := by
  induction rows with
  | nil =>
    have white : isBlank [] = true := rfl
    exact .blank white List.not_mem_nil (Or.inl rfl) .nothing
  | cons row rows ih =>
    cases rows with
    | nil =>
      rw [List.intercalate_singleton]
      exact .row (Or.inl rfl) .nothing
    | cons next rows =>
      rw [List.intercalate_cons_cons, List.append_assoc, List.append_assoc]
      exact .row (Or.inl rfl) ih

theorem split_end {line e : List Char} (single : '\n' ∉ line) (ends : IsEnd e) (rest : List Char) :
    split (line ++ (e ++ rest)) = ended line :: split rest ∨ split (line ++ (e ++ rest)) = line :: split rest := by
  rcases ends with rfl | rfl
  · exact Or.inl (split_append single rest)
  · refine Or.inr ?_
    have alone : '\n' ∉ line ++ ['\r'] := by simpa using single
    have lines := split_append alone rest
    rwa [ended_return, List.append_assoc] at lines

theorem isBlank_ended {line : List Char} (white : isBlank line = true) : isBlank (ended line) = true := by
  rw [ended]
  split
  · exact List.all_eq_true.mpr fun c member => List.all_eq_true.mp white c ((List.dropLast_sublist line).mem member)
  · exact white

/-- A row that stands on one line and is no line of white space. -/
structure Solid (row : List Char) : Prop where
  feedless : '\n' ∉ row
  returnless : '\r' ∉ row
  solid : isBlank row = false

theorem filter_split {rows : List (List Char)} {text : List Char} (shows : Shows rows text)
    (each : ∀ row ∈ rows, Solid row) : (split text).filter (fun line => !isBlank line) = rows := by
  induction shows with
  | nothing => rfl
  | blank white single ends more ih =>
    rcases split_end single ends _ with same | same
    · rw [same, List.filter_cons_of_neg (by simp [isBlank_ended white]), ih each]
    · rw [same, List.filter_cons_of_neg (by simp [white]), ih each]
  | row ends more ih =>
    obtain ⟨here, each⟩ := List.forall_mem_cons.mp each
    have same := split_end here.feedless ends
    simp only [ended_of_not_mem here.returnless, or_self] at same
    rw [same, List.filter_cons_of_pos (by simp [here.solid]), ih each]
  | @lastBlank line white single =>
    by_cases empty : line = []
    · rw [empty]
      rfl
    · rw [split_last single empty, List.filter_cons_of_neg (by simp [white]), List.filter_nil]
  | lastRow row =>
    obtain ⟨here, -⟩ := List.forall_mem_cons.mp each
    have more : row ≠ [] := by
      rintro rfl
      cases here.solid
    rw [split_last here.feedless more, List.filter_cons_of_pos (by simp [here.solid]), List.filter_nil]

/-! ### Lines of any text -/

/-- The text consists of the lines in their order, each with its end. The last line may have none. -/
inductive Lined : List (List Char) → List Char → Prop
  | nothing : Lined [] []
  | line {line e text : List Char} {lines : List (List Char)} (ends : IsEnd e) (more : Lined lines text) :
    Lined (line :: lines) (line ++ (e ++ text))
  | last (line : List Char) : Lined [line] line

theorem lined_split (text : List Char) : Lined (split text) text := by
  fun_induction split text with
  | case1 => exact .nothing
  | case2 rest ih => exact @Lined.line [] _ _ _ (Or.inl rfl) ih
  | case3 rest ih => exact @Lined.line [] _ _ _ (Or.inr rfl) ih
  | case4 c rest _ _ alone ih =>
    rw [alone] at ih
    cases ih
    exact .last [c]
  | case5 c rest _ _ _ _ found ih =>
    rw [found] at ih
    cases ih with
    | line ends more => exact .line ends more
    | last => exact .last _

section

variable {P : Char → Prop} (feed : P '\n') (back : P '\r')

include feed back

theorem IsEnd.forall_mem {e : List Char} (ends : IsEnd e) : ∀ c ∈ e, P c := by
  rcases ends with rfl | rfl
  · simpa using feed
  · simpa using ⟨back, feed⟩

theorem Lined.forall_mem {lines : List (List Char)} {text : List Char} (lined : Lined lines text)
    (each : ∀ line ∈ lines, ∀ c ∈ line, P c) : ∀ c ∈ text, P c := by
  induction lined with
  | nothing => exact nofun
  | line ends more ih =>
    obtain ⟨here, below⟩ := List.forall_mem_cons.mp each
    exact List.forall_mem_append.mpr ⟨here, List.forall_mem_append.mpr ⟨ends.forall_mem feed back, ih below⟩⟩
  | last line => exact each line List.mem_cons_self

/-- A line stands in its text between characters of other lines and of line ends. -/
theorem Lined.surrounded {before after : List (List Char)} {line text : List Char}
    (lined : Lined (before ++ line :: after) text) (above : ∀ other ∈ before, ∀ c ∈ other, P c)
    (below : ∀ other ∈ after, ∀ c ∈ other, P c) :
    ∃ front rest, text = front ++ (line ++ rest) ∧ (∀ c ∈ front, P c) ∧ ∀ c ∈ rest, P c := by
  induction before generalizing text with
  | nil =>
    cases lined with
    | line ends more =>
      have behind := List.forall_mem_append.mpr ⟨ends.forall_mem feed back, more.forall_mem feed back below⟩
      exact ⟨[], _, rfl, nofun, behind⟩
    | last => exact ⟨[], [], (List.append_nil line).symm, nofun, nofun⟩
  | cons other before ih =>
    obtain ⟨here, above⟩ := List.forall_mem_cons.mp above
    rw [List.cons_append] at lined
    generalize same : before ++ line :: after = lines at lined
    cases lined with
    | @line _ e _ _ ends more =>
      obtain ⟨front, rest, rfl, clear, behind⟩ := ih (same ▸ more) above
      refine ⟨other ++ (e ++ front), rest, by simp only [List.append_assoc], ?_, behind⟩
      exact List.forall_mem_append.mpr ⟨here, List.forall_mem_append.mpr ⟨ends.forall_mem feed back, clear⟩⟩
    | last => exact absurd same (by simp)

end

end LeafPlan.Lines
