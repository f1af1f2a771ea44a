import Mathlib
import LeafPlan.Proofs.CommandLine.Sources
import LeafPlan.Proofs.Json.Printed
import LeafPlan.Proofs.Json.Surrounded
import LeafPlan.Proofs.Text.Lines

/-!
# Sources of one line

A source with a single line that is not blank may be read by lines or as a whole: `one_line_read_either_way` shows
that its documents do not depend on it, as long as the blank lines hold nothing but blanks of the grammar.
-/

namespace LeafPlan.InputOptions

open Grammar

theorem isBlank_of_blank {cs : List Char} (blank : Json.Blank cs) : ∀ s ∈ cs.map Symbol.char, s.isBlank = true := by
  have blanks := Json.blanks_of_blank blank []
  rw [List.append_nil] at blanks
  exact blanks_nil_iff.mp blanks

/-- The document of a source is that of its only line which is not blank. -/
theorem exists_only_line {source : List Char}
    (single : (Lines.split source).countP (fun line => !Lines.isBlank line) = 1)
    (blank : ∀ line ∈ Lines.split source, Lines.isBlank line = true → Json.Blank line) :
    ∃ line, pieces true source = [line] ∧
      ∀ d, Json.read (source.map .char) = .ok d ↔ Json.read (line.map .char) = .ok d := by
  rw [List.countP_eq_length_filter] at single
  obtain ⟨line, alone⟩ := List.length_eq_one_iff.mp single
  obtain ⟨before, after, lines, clear, -, rest⟩ := List.filter_eq_cons_iff.mp alone
  have lined := lines ▸ Lines.lined_split source
  rw [lines] at blank
  have above : ∀ other ∈ before, Json.Blank other := fun other member =>
    blank other (List.mem_append_left _ member) (by simpa using clear other member)
  have below : ∀ other ∈ after, Json.Blank other := fun other member =>
    blank other (by simp [member]) (by simpa using List.filter_eq_nil_iff.mp rest other member)
  obtain ⟨front, back, same, start, behind⟩ := lined.surrounded (by simp) (by simp) above below
  refine ⟨line, alone, fun d => ?_⟩
  rw [same, List.map_append, List.map_append]
  exact Json.read_surrounded (isBlank_of_blank start) (isBlank_of_blank behind)

theorem documentsOf_eq_ok_of_single {lines : Bool} {source piece : List Char} (single : pieces lines source = [piece])
    {file : String} {documents : List Json} :
    documentsOf lines file source = .ok documents ↔ ∃ d, Json.read (piece.map .char) = .ok d ∧ documents = [d] := by
  rw [documentsOf_eq_ok_iff, single, List.forall₂_cons_left_iff]
  simp

/-- For every source with exactly one line that is not blank, whose blank lines hold only spaces, tabs, carriage
returns and line feeds: read as a whole it is refused if and only if it is refused read by lines, and if it is not,
it is the same single document either way. -/
theorem one_line_read_either_way {source : List Char}
    (single : (Lines.split source).countP (fun line => !Lines.isBlank line) = 1)
    (blank : ∀ line ∈ Lines.split source, Lines.isBlank line = true → Json.Blank line) (file : String) :
    ((∃ ds, documentsOf false file source = .ok ds) ↔ ∃ ds, documentsOf true file source = .ok ds) ∧
    ∀ ds es, documentsOf false file source = .ok ds → documentsOf true file source = .ok es →
      ∃ d, ds = [d] ∧ es = [d] := by
  obtain ⟨line, alone, same⟩ := exists_only_line single blank
  have whole : pieces false source = [source] := rfl
  have either (ds : List Json) : documentsOf false file source = .ok ds ↔ documentsOf true file source = .ok ds := by
    rw [documentsOf_eq_ok_of_single whole, documentsOf_eq_ok_of_single alone]
    simp only [same]
  refine ⟨exists_congr either, fun ds es read again => ?_⟩
  obtain rfl := Except.ok.inj (((either ds).mp read).symm.trans again)
  obtain ⟨d, -, rfl⟩ := (documentsOf_eq_ok_of_single whole).mp read
  exact ⟨d, rfl, rfl⟩

/-- Both ends of lines, blank lines on either side of the document and blanks around it. -/
theorem one_line_read_either_way_returns :
    let source : List Char := "\r\n \t\n\t[\"a\", 1] \r\r\n\n".toList
    let d : Json := .array [.string "a", .number (.int 1)]
    (Lines.split source).countP (fun line => !Lines.isBlank line) = 1 ∧
      (∀ line ∈ Lines.split source, Lines.isBlank line = true → Json.Blank line) ∧
      documentsOf false "x.json" source = .ok [d] ∧ (∃ ds, documentsOf true "x.json" source = .ok ds) ∧
      ∀ ds, documentsOf true "x.json" source = .ok ds → ds = [d] := by
  intro source d
  have lines : Lines.split source = [[], [' ', '\t'], "\t[\"a\", 1] \r".toList, []] := by
    dsimp only [source]
    cbv
  have single : (Lines.split source).countP (fun line => !Lines.isBlank line) = 1 := by
    rw [lines]
    decide
  have blank : ∀ line ∈ Lines.split source, Lines.isBlank line = true → Json.Blank line := by
    rw [lines]
    simp [Lines.isBlank, Lines.isSpace, Json.Blank]
  have read : documentsOf false "x.json" source = .ok [d] := by
    dsimp only [source]
    cbv
  obtain ⟨either, same⟩ := one_line_read_either_way single blank "x.json"
  refine ⟨single, blank, read, either.mp ⟨_, read⟩, fun ds again => ?_⟩
  obtain ⟨e, whole, byLines⟩ := same _ ds read again
  rw [byLines, whole]

-- A no-break space is white, but no blank of the grammar: only line by line is the document found.
example : documentsOf true "x.json" "1\n\u00a0".toList = .ok [.number (.int 1)] := by cbv

example : (documentsOf false "x.json" "1\n\u00a0".toList).isOk = false := by cbv

end LeafPlan.InputOptions
