import LeafPlan.Json.Numeral
import LeafPlan.Proofs.Json.Grammar

/-!
# Numerals are read by the grammar

`Numeral.read_cuts` shows that the reader of numbers cuts a numeral off the text, and that it would cut off the same
one with any other end behind it.
-/

namespace LeafPlan

open Grammar

theorem Symbol.digit?_char {c : Char} (digit : c.isDigit = true) :
    (Symbol.char c).digit? = some (c.toNat - '0'.toNat) := if_pos digit

theorem Grammar.Ends.digit?_head {s : Symbol} {rest : Text} (ends : Ends (s :: rest)) : s.digit? = none := by
  cases s with
  | stray b => rfl
  | char c => exact if_neg (by rw [(ends c rest rfl).1]; exact Bool.false_ne_true)

/-! ### Digits -/

namespace Text

/-- The values of digits. -/
def digitValues (cs : List Char) : List Nat := cs.map fun c => c.toNat - '0'.toNat

theorem cut_of_spanDigits {t rest : Text} {ds : List Nat} (span : spanDigits t = (ds, rest)) :
    ∃ cs, t = cs.map .char ++ rest ∧ (∀ c ∈ cs, c.isDigit = true) ∧ digitValues cs = ds := by
  induction t generalizing ds with
  | nil =>
    obtain ⟨rfl, rfl⟩ := Prod.mk.inj span
    exact ⟨[], rfl, nofun, rfl⟩
  | cons s t ih =>
    rw [spanDigits] at span
    split at span
    · rename_i d here
      obtain ⟨rfl, rfl⟩ := Prod.mk.inj span
      obtain ⟨cs, split, digits, values⟩ := ih rfl
      cases s with
      | stray b => cases here
      | char c =>
        obtain ⟨digit, same⟩ := Option.ite_none_right_eq_some.mp here
        have all : ∀ d ∈ c :: cs, d.isDigit = true := List.forall_mem_cons.mpr ⟨digit, digits⟩
        exact ⟨c :: cs, congrArg _ split, all, congr (congrArg _ (Option.some.inj same)) values⟩
    · obtain ⟨rfl, rfl⟩ := Prod.mk.inj span
      exact ⟨[], rfl, nofun, rfl⟩

theorem spanDigits_of_ends {rest : Text} (ends : Ends rest) : spanDigits rest = ([], rest) := by
  cases rest with
  | nil => rfl
  | cons s rest => rw [spanDigits, ends.digit?_head]

theorem spanDigits_append {cs : List Char} (digits : ∀ c ∈ cs, c.isDigit = true) {rest : Text}
    (stops : spanDigits rest = ([], rest)) : spanDigits (cs.map .char ++ rest) = (digitValues cs, rest) := by
  induction cs with
  | nil => exact stops
  | cons c cs ih =>
    obtain ⟨here, digits⟩ := List.forall_mem_cons.mp digits
    rw [List.map_cons, List.cons_append, spanDigits, Symbol.digit?_char here]
    simp only [ih digits, digitValues, List.map_cons]

theorem iff_exists_spanDigits {P : List Nat → Text → Prop} {t rest : Text} {ds : List Nat}
    (span : spanDigits t = (ds, rest)) (more : ds ≠ []) :
    P ds rest ↔ ∃ es u, spanDigits t = (es, u) ∧ es ≠ [] ∧ P es u := by
  constructor
  · exact fun here => ⟨ds, rest, span, more, here⟩
  · rintro ⟨es, u, same, -, here⟩
    obtain ⟨rfl, rfl⟩ := Prod.mk.inj (span.symm.trans same)
    exact here

theorem isDigit_of_front {cs : List Char} (digits : Digits cs) {rest u : Text} {c : Char}
    (front : cs.map .char ++ rest = .char c :: u) : c.isDigit = true := by
  obtain ⟨d, ds, rfl⟩ := List.exists_cons_of_ne_nil digits.1
  obtain rfl := Symbol.char.inj (List.cons.inj front).1
  exact digits.2 d List.mem_cons_self

end Text

namespace Numeral

variable {negative down : Bool} {n : Nat} {e : Int} {x : Number} {t after rest : Text}

/-- The reader cuts a piece off the text, and would cut the same piece off with any other end behind it. -/
def Cuts (read : Text → Except Fault (Number × Text)) (piece : List Char → Prop) : Prop :=
  ∀ t x rest, read t = .ok (x, rest) →
    ∃ cs, t = cs.map .char ++ rest ∧ piece cs ∧ ∀ after, Ends after → read (cs.map .char ++ after) = .ok (x, after)

/-! ### Exponents -/

theorem ofExponent_eq_ok_iff {digits : List Nat} :
    ofExponent negative down n e digits t = .ok (x, after) ↔
      after = t ∧ ofExponent negative down n e digits [] = .ok (x, []) := by
  unfold ofExponent
  split
  · split
    · simp [eq_comm, and_comm]
    · simp
  · split
    · simp
    · simp [eq_comm, and_comm]

/-- Whether an exponent's sign is a minus, and the text behind the sign. -/
def scaleSign (t : Text) : Bool × Text :=
  match t with
  | .char '+' :: rest => (false, rest)
  | .char '-' :: rest => (true, rest)
  | _ => (false, t)

theorem scaleSign_digits {cs : List Char} (digits : Digits cs) (after : Text) :
    scaleSign (cs.map .char ++ after) = (false, cs.map .char ++ after) := by
  unfold scaleSign
  split
  · rename_i plus
    cases Text.isDigit_of_front digits plus
  · rename_i minus
    cases Text.isDigit_of_front digits minus
  · rfl

theorem exists_scaleSign (t : Text) :
    ∃ sign : List Char, (sign = [] ∨ sign = ['+'] ∨ sign = ['-']) ∧ t = sign.map .char ++ (scaleSign t).2 ∧
      ∀ cs after, Digits cs →
        scaleSign (sign.map .char ++ (cs.map .char ++ after)) = ((scaleSign t).1, cs.map .char ++ after) := by
  unfold scaleSign
  split
  · exact ⟨['+'], by simp, rfl, fun cs after digits => rfl⟩
  · exact ⟨['-'], by simp, rfl, fun cs after digits => rfl⟩
  · exact ⟨[], by simp, rfl, fun cs after digits => scaleSign_digits digits after⟩

theorem exponent_eq_ok_iff :
    exponent negative n e t = .ok (x, after) ↔
      ∃ ds v, Text.spanDigits (scaleSign t).2 = (ds, v) ∧ ds ≠ [] ∧
        ofExponent negative (scaleSign t).1 n e ds v = .ok (x, after) := by
  unfold exponent
  split
  rename_i down u sign
  have signed : scaleSign t = (down, u) := sign
  rw [signed]
  split
  · simp [*]
  · simp [*]
  · rename_i ds v _ more digits
    rw [← Text.iff_exists_spanDigits digits more]

/-- What stands behind the letter of an exponent. -/
def Scale (cs : List Char) : Prop :=
  ∃ sign digits, (sign = [] ∨ sign = ['+'] ∨ sign = ['-']) ∧ Digits digits ∧ cs = sign ++ digits

theorem exponent_cuts : Cuts (exponent negative n e) Scale := by
  intro t x rest read
  obtain ⟨ds, v, span, more, read⟩ := exponent_eq_ok_iff.mp read
  obtain ⟨rfl, alone⟩ := ofExponent_eq_ok_iff.mp read
  obtain ⟨sign, spelled, split, signed⟩ := exists_scaleSign t
  obtain ⟨cs, cut, each, rfl⟩ := Text.cut_of_spanDigits span
  have digits : Digits cs := ⟨fun empty => more (congrArg _ empty), each⟩
  refine ⟨sign ++ cs, ?_, ⟨sign, cs, spelled, digits, rfl⟩, fun after ends => exponent_eq_ok_iff.mpr ?_⟩
  · rw [split, cut, List.map_append, List.append_assoc]
  · rw [List.map_append, List.append_assoc, signed cs after digits]
    have spanned := Text.spanDigits_append each (Text.spanDigits_of_ends ends)
    exact ⟨_, after, spanned, more, ofExponent_eq_ok_iff.mpr ⟨rfl, alone⟩⟩

/-- Where a reader leaves what stands behind a letter to the reader of exponents, it cuts an exponent off. -/
theorem cut_of_letter {read : Text → Except Fault (Number × Text)} {c : Char} (letter : c = 'e' ∨ c = 'E')
    (scaled : ∀ u, read (.char c :: u) = exponent negative n e u) {u : Text}
    (found : read (.char c :: u) = .ok (x, rest)) :
    ∃ cs, .char c :: u = cs.map .char ++ rest ∧ Exponent cs ∧
      ∀ after, Ends after → read (cs.map .char ++ after) = .ok (x, after) := by
  rw [scaled] at found
  obtain ⟨cs, rfl, ⟨sign, digits, signs, spelled, rfl⟩, further⟩ := exponent_cuts u x rest found
  refine ⟨c :: (sign ++ digits), rfl, Or.inr ⟨c, sign, digits, letter, signs, spelled, rfl⟩, fun after ends => ?_⟩
  rw [List.map_cons, List.cons_append, scaled]
  exact further after ends

/-! ### Fractions -/

variable {whole fraction : List Nat}

theorem afterFraction_letter {c : Char} (letter : c = 'e' ∨ c = 'E') (u : Text) :
    afterFraction negative whole fraction (.char c :: u) =
      exponent negative (significand whole fraction).1 (significand whole fraction).2 u := by
  rcases letter with rfl | rfl <;> rfl

theorem afterFraction_of_not_letter (other : ∀ c u, t = .char c :: u → ¬ (c = 'e' ∨ c = 'E')) :
    afterFraction negative whole fraction t =
      match scale (significand whole fraction).1 (significand whole fraction).2 with
      | some f => .ok (.float (signed negative f), t)
      | none => .error ⟨.numberOutOfRange, Text.width t⟩ := by
  unfold afterFraction
  dsimp only
  split
  · exact (other _ _ rfl (Or.inl rfl)).elim
  · exact (other _ _ rfl (Or.inr rfl)).elim
  · rfl

theorem afterFraction_cuts : Cuts (afterFraction negative whole fraction) Exponent := by
  intro t x rest read
  by_cases letter : ∃ c u, t = .char c :: u ∧ (c = 'e' ∨ c = 'E')
  · obtain ⟨c, u, rfl, letter⟩ := letter
    exact cut_of_letter letter (afterFraction_letter letter) read
  · rw [afterFraction_of_not_letter fun c u same letters => letter ⟨c, u, same, letters⟩] at read
    split at read
    · rename_i f found
      obtain ⟨rfl, rfl⟩ := Prod.mk.inj (Except.ok.inj read)
      refine ⟨[], rfl, Or.inl rfl, fun after ends => ?_⟩
      rw [List.map_nil, List.nil_append, afterFraction_of_not_letter, found]
      intro c u same
      exact not_or.mpr (ends c u same).2.2
    · cases read

theorem afterWhole_point (u : Text) :
    afterWhole negative whole (.char '.' :: u) = .ok (x, rest) ↔
      ∃ ds v, Text.spanDigits u = (ds, v) ∧ ds ≠ [] ∧ afterFraction negative whole ds v = .ok (x, rest) := by
  rw [afterWhole]
  split
  · simp [*]
  · simp [*]
  · rename_i ds v _ more digits
    rw [← Text.iff_exists_spanDigits digits more]

theorem afterWhole_letter {c : Char} (letter : c = 'e' ∨ c = 'E') (u : Text) :
    afterWhole negative whole (.char c :: u) =
      exponent negative (significand whole []).1 (significand whole []).2 u := by
  rcases letter with rfl | rfl <;> rfl

theorem afterWhole_of_other (other : ∀ c u, t = .char c :: u → c ≠ '.' ∧ ¬ (c = 'e' ∨ c = 'E')) :
    afterWhole negative whole t =
      match ofDigits negative whole with
      | some n => .ok (n, t)
      | none => .error ⟨.numberOutOfRange, Text.width t⟩ := by
  unfold afterWhole
  split
  · exact ((other _ _ rfl).1 rfl).elim
  · exact ((other _ _ rfl).2 (Or.inl rfl)).elim
  · exact ((other _ _ rfl).2 (Or.inr rfl)).elim
  · rfl

/-- What may stand behind the digits of a whole number. -/
def Tail (cs : List Char) : Prop :=
  ∃ fraction exponent, Fraction fraction ∧ Exponent exponent ∧ cs = fraction ++ exponent

theorem spanDigits_exponent {cs : List Char} (scale : Exponent cs) (ends : Ends after) :
    Text.spanDigits (cs.map .char ++ after) = ([], cs.map .char ++ after) := by
  rcases scale with rfl | ⟨c, sign, digits, rfl | rfl, -, -, rfl⟩
  · exact Text.spanDigits_of_ends ends
  · rfl
  · rfl

theorem spanDigits_tail {cs : List Char} (tail : Tail cs) (ends : Ends after) :
    Text.spanDigits (cs.map .char ++ after) = ([], cs.map .char ++ after) := by
  obtain ⟨fraction, scale, rfl | ⟨digits, -, rfl⟩, exponent, rfl⟩ := tail
  · exact spanDigits_exponent exponent ends
  · rfl

theorem afterWhole_cuts : Cuts (afterWhole negative whole) Tail := by
  intro t x rest read
  by_cases point : ∃ u, t = .char '.' :: u
  · obtain ⟨u, rfl⟩ := point
    obtain ⟨ds, v, span, more, read⟩ := (afterWhole_point u).mp read
    obtain ⟨scale, rfl, written, further⟩ := afterFraction_cuts v x rest read
    obtain ⟨cs, rfl, each, rfl⟩ := Text.cut_of_spanDigits span
    have digits : Digits cs := ⟨fun empty => more (congrArg _ empty), each⟩
    refine ⟨'.' :: cs ++ scale, by simp, ⟨_, scale, Or.inr ⟨cs, digits, rfl⟩, written, rfl⟩, fun after ends => ?_⟩
    rw [List.map_append, List.append_assoc]
    have spanned := Text.spanDigits_append each (spanDigits_exponent written ends)
    exact (afterWhole_point _).mpr ⟨_, _, spanned, more, further after ends⟩
  · by_cases letter : ∃ c u, t = .char c :: u ∧ (c = 'e' ∨ c = 'E')
    · obtain ⟨c, u, rfl, letter⟩ := letter
      obtain ⟨cs, split, scale, further⟩ := cut_of_letter letter (afterWhole_letter letter) read
      exact ⟨cs, split, ⟨[], cs, Or.inl rfl, scale, rfl⟩, further⟩
    · rw [afterWhole_of_other] at read
      split at read
      · rename_i y found
        obtain ⟨rfl, rfl⟩ := Prod.mk.inj (Except.ok.inj read)
        refine ⟨[], rfl, ⟨[], [], Or.inl rfl, Or.inl rfl, rfl⟩, fun after ends => ?_⟩
        rw [List.map_nil, List.nil_append, afterWhole_of_other, found]
        intro c u same
        exact ⟨(ends c u same).2.1, not_or.mpr (ends c u same).2.2⟩
      · cases read
      · intro c u same
        exact ⟨fun here => point ⟨u, here ▸ same⟩, fun letters => letter ⟨c, u, same, letters⟩⟩

/-! ### Whole numerals -/

theorem unsigned_eq_ok_iff :
    unsigned negative t = .ok (x, rest) ↔
      ∃ ds v, Text.spanDigits t = (ds, v) ∧ ds ≠ [] ∧ (∀ d more, ds ≠ 0 :: d :: more) ∧
        afterWhole negative ds v = .ok (x, rest) := by
  unfold unsigned
  split
  · simp [*]
  · simp [*]
  · simp [*]
  · rename_i ds v _ more single digits
    rw [← Text.iff_exists_spanDigits digits more, and_iff_right single]

theorem zero_of_single {cs : List Char} (single : ∀ d more, Text.digitValues cs ≠ 0 :: d :: more)
    (zero : cs.head? = some '0') : cs = ['0'] := by
  obtain ⟨tail, rfl⟩ := List.head?_eq_some_iff.mp zero
  cases tail with
  | nil => rfl
  | cons d tail => exact (single _ _ rfl).elim

theorem unsigned_cuts :
    Cuts (unsigned negative) fun cs =>
      ∃ whole tail, Digits whole ∧ (whole.head? = some '0' → whole = ['0']) ∧ Tail tail ∧ cs = whole ++ tail := by
  intro t x rest read
  obtain ⟨ds, v, span, more, single, read⟩ := unsigned_eq_ok_iff.mp read
  obtain ⟨tail, rfl, written, further⟩ := afterWhole_cuts v x rest read
  obtain ⟨cs, rfl, each, rfl⟩ := Text.cut_of_spanDigits span
  have digits : Digits cs := ⟨fun empty => more (congrArg _ empty), each⟩
  refine ⟨cs ++ tail, by simp, ⟨cs, tail, digits, zero_of_single single, written, rfl⟩, fun after ends => ?_⟩
  rw [List.map_append, List.append_assoc]
  have spanned := Text.spanDigits_append each (spanDigits_tail written ends)
  exact unsigned_eq_ok_iff.mpr ⟨_, _, spanned, more, single, further after ends⟩

theorem read_of_not_minus (other : ∀ u, t ≠ .char '-' :: u) : read t = unsigned false t := by
  unfold read
  split
  · exact (other _ rfl).elim
  · rfl

theorem read_digits {cs : List Char} (digits : Digits cs) (after : Text) :
    read (cs.map .char ++ after) = unsigned false (cs.map .char ++ after) := by
  refine read_of_not_minus fun u minus => ?_
  cases Text.isDigit_of_front digits minus

theorem read_cuts : Cuts read Grammar.Numeral := by
  intro t x rest found
  by_cases minus : ∃ u, t = .char '-' :: u
  · obtain ⟨u, rfl⟩ := minus
    obtain ⟨cs, rfl, inside, further⟩ := unsigned_cuts u x rest found
    obtain ⟨whole, _, digits, leading, ⟨fraction, scale, point, exponent, rfl⟩, rfl⟩ := inside
    have numeral := Grammar.Numeral.intro (Or.inr rfl) digits leading point exponent
    refine ⟨'-' :: (whole ++ (fraction ++ scale)), rfl, ?_, further⟩
    rwa [List.append_assoc, List.append_assoc] at numeral
  · rw [read_of_not_minus fun u same => minus ⟨u, same⟩] at found
    obtain ⟨cs, rfl, inside, further⟩ := unsigned_cuts t x rest found
    obtain ⟨whole, _, digits, leading, ⟨fraction, scale, point, exponent, rfl⟩, rfl⟩ := inside
    have numeral := Grammar.Numeral.intro (Or.inl rfl) digits leading point exponent
    refine ⟨whole ++ (fraction ++ scale), rfl, ?_, fun after ends => ?_⟩
    · rwa [List.append_assoc, List.append_assoc] at numeral
    · have read := further after ends
      rw [List.map_append, List.append_assoc] at read ⊢
      rwa [read_digits digits]

/-- A numeral is read alike whatever ends it. -/
theorem read_append {cs : List Char} (alone : read (cs.map .char) = .ok (x, [])) (ends : Ends rest) :
    read (cs.map .char ++ rest) = .ok (x, rest) := by
  obtain ⟨ds, split, -, further⟩ := read_cuts _ x [] alone
  rw [List.append_nil] at split
  rw [split]
  exact further rest ends

theorem numeral_of_read {cs : List Char} (alone : read (cs.map .char) = .ok (x, [])) : Grammar.Numeral cs := by
  obtain ⟨ds, split, numeral, -⟩ := read_cuts _ x [] alone
  rw [List.append_nil] at split
  rwa [(List.map_inj_right fun _ _ => Symbol.char.inj).mp split]

theorem read_alone {cs : List Char} (found : read (cs.map .char ++ rest) = .ok (x, rest)) :
    read (cs.map .char) = .ok (x, []) := by
  obtain ⟨ds, split, -, further⟩ := read_cuts _ x rest found
  have same : cs.map Symbol.char = ds.map .char := List.append_cancel_right split
  have alone := further [] nofun
  rwa [List.append_nil, ← same] at alone

theorem numeral_starts {cs : List Char} (numeral : Grammar.Numeral cs) :
    ∃ c ds, cs = c :: ds ∧ (c = '-' ∨ c.isDigit = true) := by
  obtain ⟨rfl | rfl, digits, -⟩ := numeral
  · obtain ⟨c, ds, rfl⟩ := List.exists_cons_of_ne_nil digits.1
    exact ⟨c, _, rfl, Or.inr (digits.2 c List.mem_cons_self)⟩
  · exact ⟨'-', _, rfl, Or.inl rfl⟩

end Numeral

end LeafPlan
