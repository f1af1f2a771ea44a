/-!
# Texts

A text is a list of symbols: a character, or a byte that belongs to none because the bytes around it
are not UTF-8. Positions in a text count bytes, so a symbol knows its width.
-/

namespace LeafPlan

inductive Symbol where
  | char (c : Char)
  | stray (b : UInt8)
deriving DecidableEq

def Symbol.width : Symbol → Nat
  | .char c => c.utf8Size
  | .stray _ => 1

theorem Symbol.width_pos (s : Symbol) : 0 < s.width := by
  cases s with
  | char c => exact c.utf8Size_pos
  | stray _ => exact Nat.one_pos

abbrev Text := List Symbol

/-- A line, counted from 1, and the bytes before the place on that line. -/
structure Position where
  line : Nat
  column : Nat
deriving DecidableEq

namespace Text

def ofString (s : String) : Text := s.toList.map .char

/-- The symbols of `b` from byte `i` on, a byte that starts no character standing for itself. -/
def ofBytesFrom (b : ByteArray) (i : Nat) : Text :=
  if h : i < b.size then
    match b.utf8DecodeChar? i with
    | some c => .char c :: ofBytesFrom b (i + c.utf8Size)
    | none => .stray b[i] :: ofBytesFrom b (i + 1)
  else []
termination_by b.size - i
decreasing_by
  · have := c.utf8Size_pos; omega
  · omega

def ofBytes (b : ByteArray) : Text := ofBytesFrom b 0

/-- The characters of a text, if all of it is characters. -/
def chars? : Text → Option (List Char)
  | [] => some []
  | .char c :: rest => (chars? rest).map (c :: ·)
  | .stray _ :: _ => none

def width : Text → Nat
  | [] => 0
  | s :: rest => s.width + width rest

@[simp] theorem width_nil : width [] = 0 := rfl

@[simp] theorem width_cons (s : Symbol) (t : Text) : width (s :: t) = s.width + width t := rfl

/-- The place `n` bytes into the text, for a text that starts at `p`. -/
def positionFrom (p : Position) : Text → Nat → Position
  | [], _ => p
  | s :: rest, n =>
    if n < s.width then { p with column := p.column + n }
    else if s = .char '\n' then positionFrom ⟨p.line + 1, 0⟩ rest (n - s.width)
    else positionFrom { p with column := p.column + s.width } rest (n - s.width)

def position (t : Text) (n : Nat) : Position := positionFrom ⟨1, 0⟩ t n

end Text

end LeafPlan
