import LeafPlan.Json.Pointer

/-!
# Paths

A path lists property names from the root down. It leads through objects only, in a document as in a
schema; a list is never entered.
-/

namespace LeafPlan

abbrev Path := List String

/-- Trees whose objects have named children. -/
class Branching (α : Type) where
  child? : α → String → Option α

namespace Path

/-- The path as messages show it. -/
def display (p : Path) : String := if p.isEmpty then "<root>" else ".".intercalate p

@[simp] theorem display_nil : display [] = "<root>" := rfl

theorem display_of_ne_nil {p : Path} (named : p ≠ []) : p.display = ".".intercalate p := by
  rw [display, List.isEmpty_eq_false_iff.mpr named]
  rfl

/-- The JSON pointer of the path. Unlike the displayed form it differs for different paths. -/
def pointer (p : Path) : String := Pointer.write p

/-- The pointer, or a name for the root. -/
def label (p : Path) : String := if p.isEmpty then "<root>" else p.pointer

def json (p : Path) : Json := .array (p.map .string)

variable {α : Type} [Branching α]

def find? : Path → α → Option α
  | [], a => some a
  | k :: p, a =>
    match Branching.child? a k with
    | some c => find? p c
    | none => none

end Path

end LeafPlan
