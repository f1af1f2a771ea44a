import LeafPlan.CommandLine.Run
import LeafPlan.Proofs.Except
import LeafPlan.Proofs.Text.Encoding

/-!
# Sources

When a file is a source of documents: it holds a text, and each piece of the text is a document. Else the first thing
at fault is told.
-/

namespace LeafPlan.InputOptions

variable {files : Files} {file : String} {lines : Bool} {source : List Char} {e : RunError}

/-! ### Texts of files -/

theorem readSource_eq_ok_iff :
    readSource files file = .ok source ↔ files.read file = .ok (String.ofList source).toUTF8 := by
  rw [readSource]
  cases files.read file with
  | error e => simp [decoded]
  | ok bytes =>
    rw [decoded]
    rw [Except.ok.injEq, ← Text.chars?_ofBytes_iff]
    cases Text.chars? (Text.ofBytes bytes) <;> simp

theorem readSource_eq_error_iff :
    readSource files file = .error e ↔
      (∃ failure, files.read file = .error failure ∧ e = .sourceUnreadable file failure) ∨
      ∃ bytes, files.read file = .ok bytes ∧ (∀ s : String, bytes ≠ s.toUTF8) ∧ e = .sourceUnencoded file := by
  simp only [← Text.chars?_ofBytes_eq_none_iff]
  rw [readSource]
  cases files.read file with
  | error failure => simp [decoded, eq_comm]
  | ok bytes =>
    rw [decoded]
    cases chars : Text.chars? (Text.ofBytes bytes) <;> simp [chars, eq_comm]

/-! ### Documents of texts -/

/-- The texts in a source that have to be documents: each line that is not blank, or all of it. -/
def pieces (lines : Bool) (source : List Char) : List (List Char) :=
  if lines then (Lines.split source).filter fun line => !Lines.isBlank line else [source]

theorem documentsOf_eq_mapM (lines : Bool) (file : String) (source : List Char) :
    documentsOf lines file source = (pieces lines source).mapM fun piece => parse file (piece.map .char) := by
  rw [documentsOf, pieces]
  split
  · rfl
  · rw [List.mapM_cons, List.mapM_nil]
    rfl

theorem documentsOf_eq_ok_iff {documents : List Json} :
    documentsOf lines file source = .ok documents ↔
      List.Forall₂ (fun piece d => Json.read (piece.map .char) = .ok d) (pieces lines source) documents := by
  rw [documentsOf_eq_mapM, mapM_eq_ok_iff]
  simp only [parse, mapError_eq_ok_iff]

/-- The error of a source is that of the first piece that is no document. -/
theorem documentsOf_eq_error_iff :
    documentsOf lines file source = .error e ↔
      ∃ before piece after fault, pieces lines source = before ++ piece :: after ∧
        (∀ other ∈ before, ∃ d, Json.read (other.map .char) = .ok d) ∧ Json.read (piece.map .char) = .error fault ∧
        e = .sourceRefused file (piece.map .char) fault := by
  rw [documentsOf_eq_mapM, mapM_eq_error_iff]
  simp only [parse, mapError_eq_ok_iff, mapError_eq_error_iff]
  constructor
  · rintro ⟨before, piece, after, split, clear, fault, failed, rfl⟩
    exact ⟨before, piece, after, fault, split, clear, failed, rfl⟩
  · rintro ⟨before, piece, after, fault, split, clear, failed, rfl⟩
    exact ⟨before, piece, after, split, clear, fault, failed, rfl⟩

end LeafPlan.InputOptions
