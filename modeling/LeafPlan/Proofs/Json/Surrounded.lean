import LeafPlan.Proofs.Json.Documents
import LeafPlan.Proofs.Json.Unambiguous

/-!
# Blanks around a document

What the grammar takes off a text does not depend on what stands behind it, and a value does not end in a blank. So
`Json.read_surrounded` shows that blanks around a text change nothing about the document in it, nor whether there is
one.
-/

namespace LeafPlan

namespace Grammar

/-- What `R` takes off a text it takes off whatever stands behind it. -/
def Framed (R : Text → Text → Prop) : Prop :=
  ∀ ⦃t rest⦄, R t rest → ∃ piece, t = piece ++ rest ∧ ∀ other, R (piece ++ other) other

/-- What `R` takes off a text it takes off whatever stands behind it, and it ends in no blank. -/
def Closed (R : Text → Text → Prop) : Prop :=
  ∀ ⦃t rest⦄, R t rest → ∃ front c, t = front ++ .char c :: rest ∧ (Symbol.char c).isBlank = false ∧
    ∀ other, R (front ++ .char c :: other) other

theorem framed_blanks : Framed Blanks := by
  intro t rest blanks
  induction blanks with
  | none rest => exact ⟨[], rfl, .none⟩
  | @cons c t rest blank more ih =>
    obtain ⟨piece, rfl, frame⟩ := ih
    exact ⟨.char c :: piece, rfl, fun other => .cons blank (frame other)⟩

/-! ### Strings -/

theorem framed_codeUnit (n : Nat) : Framed fun t rest => CodeUnit t n rest := by
  intro t rest unit
  obtain @⟨a, b, c, d, w, x, y, z, first, second, third, fourth, rest⟩ := unit
  exact ⟨[.char a, .char b, .char c, .char d], rfl, fun other => .intro first second third fourth other⟩

theorem framed_escape (c : Char) : Framed fun t rest => Escape t c rest := by
  intro t rest escaped
  cases escaped with
  | @name e c listed rest => exact ⟨[.char e], rfl, fun other => .name listed other⟩
  | code unit single =>
    obtain ⟨piece, rfl, frame⟩ := framed_codeUnit _ unit
    exact ⟨.char 'u' :: piece, rfl, fun other => .code (frame other) single⟩
  | pair high leads low trails =>
    obtain ⟨first, rfl, frame⟩ := framed_codeUnit _ high
    obtain ⟨second, rfl, frameToo⟩ := framed_codeUnit _ low
    refine ⟨.char 'u' :: (first ++ .char '\\' :: .char 'u' :: second), by simp, fun other => ?_⟩
    have both := Escape.pair (frame (.char '\\' :: .char 'u' :: (second ++ other))) leads (frameToo other) trails
    simpa using both

theorem closed_content (cs : List Char) : Closed fun t rest => Content t cs rest := by
  intro t rest content
  induction content with
  | close rest => exact ⟨[], '"', rfl, rfl, .close⟩
  | @plain c t rest cs bare more ih =>
    obtain ⟨front, last, rfl, solid, frame⟩ := ih
    exact ⟨.char c :: front, last, rfl, solid, fun other => .plain bare (frame other)⟩
  | escape escaped more ih =>
    obtain ⟨front, last, rfl, solid, frame⟩ := ih
    obtain ⟨piece, rfl, frameToo⟩ := framed_escape _ escaped
    refine ⟨.char '\\' :: (piece ++ front), last, by simp, solid, fun other => ?_⟩
    have both := Content.escape (frameToo (front ++ .char last :: other)) (frame other)
    simpa using both

/-! ### Containers -/

section

variable {α : Type} {R : Text → α → Text → Prop}

theorem closed_separated {as : List α} (each : ∀ a ∈ as, Closed fun t rest => R t a rest) :
    Closed fun t rest => Separated R t as rest := by
  intro t rest pieces
  induction pieces with
  | one piece =>
    obtain ⟨front, last, rfl, solid, frame⟩ := List.forall_mem_singleton.mp each piece
    exact ⟨front, last, rfl, solid, fun other => .one (frame other)⟩
  | cons piece before behind more ih =>
    obtain ⟨here, each⟩ := List.forall_mem_cons.mp each
    obtain ⟨front, last, rfl, solid, frame⟩ := ih each
    obtain ⟨gap, rfl, frameGap⟩ := framed_blanks behind
    obtain ⟨pause, rfl, framePause⟩ := framed_blanks before
    obtain ⟨first, c, rfl, -, frameFirst⟩ := here piece
    refine ⟨first ++ .char c :: (pause ++ .char ',' :: (gap ++ front)), last, by simp, solid, fun other => ?_⟩
    have joined := Separated.cons (frameFirst _) (framePause _) (frameGap _) (frame other)
    simpa using joined

/-- Blanks, pieces and blanks in front of a closing character. -/
theorem framed_inside {s u rest : Text} {as : List α} {c : Char} {t : Text}
    (each : ∀ a ∈ as, Closed fun t rest => R t a rest) (before : Blanks t s) (pieces : Separated R s as u)
    (behind : Blanks u (.char c :: rest)) :
    ∃ front, t = front ++ .char c :: rest ∧ ∀ other, ∃ s u, Blanks (front ++ .char c :: other) s ∧
      Separated R s as u ∧ Blanks u (.char c :: other) := by
  obtain ⟨pause, rfl, framePause⟩ := framed_blanks behind
  obtain ⟨middle, last, rfl, -, frame⟩ := closed_separated each pieces
  obtain ⟨gap, rfl, frameGap⟩ := framed_blanks before
  refine ⟨gap ++ (middle ++ .char last :: pause), by simp, fun other => ?_⟩
  refine ⟨middle ++ .char last :: (pause ++ .char c :: other), pause ++ .char c :: other, ?_, frame _, framePause _⟩
  have opened := frameGap (middle ++ .char last :: (pause ++ .char c :: other))
  simpa using opened

end

theorem closed_member {V : Text → Written → Text → Prop} {m : String × Written}
    (closed : Closed fun t rest => V t m.2 rest) : Closed fun t rest => Member V t m rest := by
  intro t rest member
  cases member with
  | intro name before behind value =>
    obtain ⟨front, last, rfl, solid, frame⟩ := closed value
    obtain ⟨gap, rfl, frameGap⟩ := framed_blanks behind
    obtain ⟨pause, rfl, framePause⟩ := framed_blanks before
    obtain ⟨key, quote, rfl, -, frameKey⟩ := closed_content _ name
    refine ⟨.char '"' :: (key ++ .char quote :: (pause ++ .char ':' :: (gap ++ front))), last, by simp, solid,
      fun other => ?_⟩
    have joined := Member.intro (frameKey _) (framePause _) (frameGap _) (frame other)
    simpa using joined

/-! ### Values -/

theorem isBlank_of_isDigit {d : Char} (digit : d.isDigit = true) : (Symbol.char d).isBlank = false := by
  refine Bool.eq_false_iff.mpr fun blank => ?_
  simp only [Symbol.isBlank, Bool.or_eq_true, decide_eq_true_eq, Symbol.char.injEq] at blank
  rcases blank with ((rfl | rfl) | rfl) | rfl <;> exact absurd digit (by decide)

theorem closed_value (w : Written) : Closed fun t rest => Value t w rest := by
  induction w using Written.induction with
  | null =>
    rintro t rest ⟨⟩
    exact ⟨['n', 'u', 'l'].map .char, 'l', rfl, rfl, .null⟩
  | bool b =>
    intro t rest value
    cases value with
    | true => exact ⟨['t', 'r', 'u'].map .char, 'e', rfl, rfl, .true⟩
    | false => exact ⟨['f', 'a', 'l', 's'].map .char, 'e', rfl, rfl, .false⟩
  | number cs =>
    rintro t rest ⟨⟩
    rename_i numeral
    obtain ⟨d, last, digit⟩ := last_of_numeral numeral
    obtain ⟨front, rfl⟩ := List.getLast?_eq_some_iff.mp last
    refine ⟨front.map .char, d, by simp, isBlank_of_isDigit digit, fun other => ?_⟩
    have value := Value.number numeral other
    simpa using value
  | string s =>
    intro t rest value
    cases value with
    | string content =>
      obtain ⟨front, last, rfl, solid, frame⟩ := closed_content _ content
      exact ⟨.char '"' :: front, last, rfl, solid, fun other => .string (frame other)⟩
  | array items ih =>
    intro t rest value
    cases value with
    | emptyArray inside =>
      obtain ⟨gap, rfl, frame⟩ := framed_blanks inside
      exact ⟨.char '[' :: gap, ']', rfl, rfl, fun other => .emptyArray (frame _)⟩
    | array before each behind =>
      obtain ⟨front, rfl, frame⟩ := framed_inside ih before each behind
      refine ⟨.char '[' :: front, ']', rfl, rfl, fun other => ?_⟩
      obtain ⟨s, u, before, each, behind⟩ := frame other
      exact .array before each behind
  | object members ih =>
    intro t rest value
    cases value with
    | emptyObject inside =>
      obtain ⟨gap, rfl, frame⟩ := framed_blanks inside
      exact ⟨.char '{' :: gap, '}', rfl, rfl, fun other => .emptyObject (frame _)⟩
    | object before each behind =>
      obtain ⟨front, rfl, frame⟩ := framed_inside (fun m member => closed_member (ih m member)) before each behind
      refine ⟨.char '{' :: front, '}', rfl, rfl, fun other => ?_⟩
      obtain ⟨s, u, before, each, behind⟩ := frame other
      exact .object before each behind

/-! ### Texts of blanks -/

theorem blanks_nil_iff {t : Text} : Blanks t [] ↔ ∀ s ∈ t, s.isBlank = true := by
  constructor
  · intro blanks
    generalize none : ([] : Text) = rest at blanks
    induction blanks with
    | none rest => exact none ▸ nofun
    | cons blank more ih =>
      refine List.forall_mem_cons.mpr ⟨?_, ih none⟩
      rcases blank with rfl | rfl | rfl | rfl <;> rfl
  · intro each
    induction t with
    | nil => exact .none []
    | cons s t ih =>
      obtain ⟨here, below⟩ := List.forall_mem_cons.mp each
      cases s with
      | stray b => cases here
      | char c =>
        simp only [Symbol.isBlank, Bool.or_eq_true, decide_eq_true_eq, Symbol.char.injEq, or_assoc] at here
        exact .cons here (ih below)

theorem blanks_append {t : Text} (blank : ∀ s ∈ t, s.isBlank = true) (rest : Text) : Blanks (t ++ rest) rest := by
  obtain ⟨piece, same, frame⟩ := framed_blanks (blanks_nil_iff.mpr blank)
  rw [List.append_nil] at same
  exact same ▸ frame rest

/-- Blanks behind a text go to what is left behind a value in it. -/
theorem exists_rest_of_append {front t rest back : Text} {c : Char} (solid : (Symbol.char c).isBlank = false)
    (blank : ∀ s ∈ back, s.isBlank = true) (same : t ++ back = front ++ .char c :: rest) :
    ∃ r, rest = r ++ back ∧ t = front ++ .char c :: r := by
  rw [List.append_cons] at same
  rcases List.append_eq_append_iff.mp same with ⟨more, longer, rfl⟩ | ⟨r, shorter, rfl⟩
  · rcases List.eq_nil_or_concat more with rfl | ⟨front', last, rfl⟩
    · exact ⟨[], rfl, by simpa using longer.symm⟩
    · -- then the last symbol of the value is one of the blanks
      rw [List.concat_eq_append, ← List.append_assoc] at longer
      obtain ⟨-, rfl⟩ := List.append_singleton_inj.mp longer
      have member : Symbol.char c ∈ (front'.concat (.char c)) ++ rest := by simp
      exact absurd (solid.symm.trans (blank _ member)) Bool.false_ne_true
  · exact ⟨r, rfl, by simpa using shorter⟩

end Grammar

open Grammar

namespace Json

variable {front back t : Text} {d : Json}

theorem read_blanks_append (before : ∀ s ∈ front, s.isBlank = true) :
    read (front ++ t) = .ok d ↔ read t = .ok d := by
  have skipped : Text.skipBlanks (front ++ t) = Text.skipBlanks t :=
    Text.skipBlanks_eq_of_blanks (blanks_append before t)
  have starts {s rest : Text} {w : Written} (value : Value s w rest) : Blanks (front ++ t) s ↔ Blanks t s := by
    obtain ⟨c, u, rfl, solid⟩ := solid_value s w rest value
    rw [← Text.skipBlanks_eq_iff solid, ← Text.skipBlanks_eq_iff solid, skipped]
  rw [read_eq_ok_iff, read_eq_ok_iff]
  constructor
  · rintro ⟨s, w, rest, blanks, value, behind⟩
    exact ⟨s, w, rest, (starts value).mp blanks, value, behind⟩
  · rintro ⟨s, w, rest, blanks, value, behind⟩
    exact ⟨s, w, rest, (starts value).mpr blanks, value, behind⟩

theorem read_append_blanks (behind : ∀ s ∈ back, s.isBlank = true) :
    read (t ++ back) = .ok d ↔ read t = .ok d := by
  rw [read_eq_ok_iff, read_eq_ok_iff]
  constructor
  · rintro ⟨s, w, rest, blanks, value, ended, shallow, denotes⟩
    obtain ⟨gap, split, frameGap⟩ := framed_blanks blanks
    obtain ⟨front, c, rfl, solid, frame⟩ := closed_value w value
    rw [← List.append_assoc] at split
    obtain ⟨r, rfl, rfl⟩ := exists_rest_of_append solid behind split
    have inside := (List.forall_mem_append.mp (blanks_nil_iff.mp ended)).1
    refine ⟨front ++ .char c :: r, w, r, ?_, frame r, blanks_nil_iff.mpr inside, shallow, denotes⟩
    rw [List.append_assoc]
    exact frameGap _
  · rintro ⟨s, w, rest, blanks, value, ended, shallow, denotes⟩
    obtain ⟨gap, rfl, frameGap⟩ := framed_blanks blanks
    obtain ⟨front, c, rfl, -, frame⟩ := closed_value w value
    have after := List.forall_mem_append.mpr ⟨blanks_nil_iff.mp ended, behind⟩
    refine ⟨front ++ .char c :: (rest ++ back), w, rest ++ back, ?_, frame _, blanks_nil_iff.mpr after, shallow,
      denotes⟩
    have opened := frameGap (front ++ .char c :: (rest ++ back))
    simpa using opened

/-- Blanks around a text change neither whether it is a document nor which one it is. -/
theorem read_surrounded (before : ∀ s ∈ front, s.isBlank = true) (behind : ∀ s ∈ back, s.isBlank = true) :
    read (front ++ (t ++ back)) = .ok d ↔ read t = .ok d :=
  (read_blanks_append before).trans (read_append_blanks behind)

end Json

end LeafPlan
