import LeafPlan.Proofs.Json.Numerals

/-!
# Integers and their digits

`Numeral.read_chars` shows that an integer of 64 bits comes back from its digits, and `Numeral.whole_read` that no
other integer is read.
-/

namespace LeafPlan

open Grammar

namespace Numeral

variable {negative : Bool} {n : Nat} {x : Number}

theorem absorb_digitValues {limit : Nat} {cs : List Char} (small : Nat.ofDigitChars 10 cs n < limit) :
    absorb limit n (Text.digitValues cs) = (Nat.ofDigitChars 10 cs n, []) := by
  induction cs generalizing n with
  | nil => rfl
  | cons c cs ih =>
    rw [Nat.ofDigitChars_cons] at small ⊢
    -- later digits make the number no smaller
    have grows : 10 * n + (c.toNat - '0'.toNat) ≤ Nat.ofDigitChars 10 cs (10 * n + (c.toNat - '0'.toNat)) := by
      rw [Nat.ofDigitChars_eq_ofDigitChars_zero]
      exact Nat.le_add_right_of_le (Nat.le_mul_of_pos_left _ (Nat.pow_pos (by decide)))
    have fits : n * 10 + (c.toNat - '0'.toNat) < limit := by omega
    rw [Text.digitValues, List.map_cons, absorb, if_pos fits, Nat.mul_comm n]
    exact ih small

theorem digitValues_toDigits (n : Nat) (d : Nat) (more : List Nat) :
    Text.digitValues (Nat.toDigits 10 n) ≠ 0 :: d :: more := by
  induction n using Nat.strongRecOn generalizing d more with
  | _ n ih =>
  rw [Nat.toDigits_eq_if (by decide)]
  split
  · simp [Text.digitValues]
  · rename_i large
    intro zero
    obtain ⟨c, cs, front⟩ := List.exists_cons_of_ne_nil (Nat.toDigits_ne_nil (n := n / 10) (b := 10))
    cases cs with
    | nil =>
      have same := Nat.ofDigitChars_ten_toDigits (n := n / 10)
      rw [front] at zero same
      have here : c.toNat - '0'.toNat = 0 := (List.cons.inj zero).1
      rw [Nat.ofDigitChars_cons, here, Nat.ofDigitChars_nil] at same
      omega
    | cons d cs =>
      refine ih (n / 10) (by omega) (d.toNat - '0'.toNat) (Text.digitValues cs) ?_
      rw [front] at zero ⊢
      exact congrArg (· :: _) (List.cons.inj zero).1

theorem digits_toDigits (n : Nat) : Digits (Nat.toDigits 10 n) :=
  ⟨Nat.toDigits_ne_nil, fun _ member => Nat.isDigit_of_mem_toDigits (by decide) (by decide) member⟩

theorem unsigned_toDigits (n : Nat)
    (value : ofDigits negative (Text.digitValues (Nat.toDigits 10 n)) = some x) :
    unsigned negative ((Nat.toDigits 10 n).map .char) = .ok (x, []) := by
  have spanned : Text.spanDigits ((Nat.toDigits 10 n).map .char ++ []) = (Text.digitValues (Nat.toDigits 10 n), []) :=
    Text.spanDigits_append (digits_toDigits n).2 rfl
  rw [List.append_nil] at spanned
  refine unsigned_eq_ok_iff.mpr ⟨_, [], spanned, ?_, digitValues_toDigits n, ?_⟩
  · simp [Text.digitValues]
  · rw [afterWhole_of_other, value]
    rintro c u ⟨⟩

theorem ofDigits_toDigits {n : Nat} (small : n < wordLimit) :
    ofDigits negative (Text.digitValues (Nat.toDigits 10 n)) =
      if !negative then some (.int n)
      else if n = 0 || 9223372036854775808 < n then some (.float (-n.toUInt64.toFloat))
      else some (.int (-n)) := by
  have value : Nat.ofDigitChars 10 (Nat.toDigits 10 n) 0 = n := Nat.ofDigitChars_ten_toDigits
  have absorbed : absorb wordLimit 0 (Text.digitValues (Nat.toDigits 10 n)) = _ := absorb_digitValues (by rwa [value])
  rw [value] at absorbed
  rw [ofDigits, absorbed]

end Numeral

/-- An integer that fits into 64 bits, with or without a sign. -/
def Number.Whole : Number → Prop
  | .int i => -9223372036854775808 ≤ i ∧ i < 18446744073709551616
  | .float _ => False

instance : DecidablePred Number.Whole
  | .int i => inferInstanceAs (Decidable (-9223372036854775808 ≤ i ∧ i < 18446744073709551616))
  | .float _ => .isFalse id

theorem Numeral.read_chars {n : Number} (whole : n.Whole) : read (n.chars.map .char) = .ok (n, []) := by
  cases n with
  | float f => exact whole.elim
  | int i =>
    obtain ⟨low, high⟩ := whole
    have small : i.natAbs < wordLimit := by
      have : wordLimit = 18446744073709551616 := rfl
      omega
    rw [Number.chars]
    split
    · rename_i negative
      refine unsigned_toDigits _ ?_
      have nonzero : i.natAbs ≠ 0 := by omega
      have fits : ¬ 9223372036854775808 < i.natAbs := by omega
      have same : -(i.natAbs : Int) = i := by omega
      rw [ofDigits_toDigits small, same]
      simp [nonzero, fits]
    · rename_i positive
      have same : (i.natAbs : Int) = i := by omega
      have read := read_digits (digits_toDigits i.natAbs) []
      rw [List.append_nil] at read
      rw [read, unsigned_toDigits]
      rw [ofDigits_toDigits small, same]
      rfl

/-! ### What is read is in range -/

def Number.IsInt : Number → Prop
  | .int _ => True
  | .float _ => False

instance : DecidablePred Number.IsInt
  | .int _ => .isTrue trivial
  | .float _ => .isFalse id

namespace Numeral

variable {negative down : Bool} {n : Nat} {e : Int} {x : Number} {t rest : Text} {whole fraction : List Nat}

theorem absorb_lt {limit : Nat} {ds : List Nat} (small : n < limit) : (absorb limit n ds).1 < limit := by
  induction ds generalizing n with
  | nil => exact small
  | cons d ds ih =>
    rw [absorb]
    split
    · rename_i fits
      exact ih fits
    · exact small

theorem whole_ofDigits (made : ofDigits negative whole = some x) (integer : x.IsInt) : x.Whole := by
  have small : (absorb wordLimit 0 whole).1 < wordLimit := absorb_lt (by decide)
  have limit : wordLimit = 18446744073709551616 := rfl
  unfold ofDigits at made
  split at made
  · rename_i n absorbed
    rw [absorbed, limit] at small
    split at made
    · obtain rfl := Option.some.inj made
      exact ⟨by omega, by omega⟩
    · split at made
      · obtain rfl := Option.some.inj made
        exact integer.elim
      · rename_i bounded
        obtain rfl := Option.some.inj made
        simp only [Bool.or_eq_true, decide_eq_true_eq, not_or, Nat.not_lt] at bounded
        exact ⟨by omega, by omega⟩
  · obtain ⟨f, -, rfl⟩ := Option.map_eq_some_iff.mp made
    exact integer.elim

theorem float_of_ofExponent {digits : List Nat} (read : ofExponent negative down n e digits t = .ok (x, rest)) :
    ¬ x.IsInt := by
  unfold ofExponent at read
  split at read
  · split at read
    · obtain ⟨rfl, -⟩ := Prod.mk.inj (Except.ok.inj read)
      exact id
    · cases read
  · split at read
    · cases read
    · obtain ⟨rfl, -⟩ := Prod.mk.inj (Except.ok.inj read)
      exact id

theorem float_of_afterFraction (read : afterFraction negative whole fraction t = .ok (x, rest)) : ¬ x.IsInt := by
  by_cases letter : ∃ c u, t = .char c :: u ∧ (c = 'e' ∨ c = 'E')
  · obtain ⟨c, u, rfl, letter⟩ := letter
    rw [afterFraction_letter letter] at read
    obtain ⟨ds, v, -, -, read⟩ := exponent_eq_ok_iff.mp read
    exact float_of_ofExponent read
  · rw [afterFraction_of_not_letter fun c u same letters => letter ⟨c, u, same, letters⟩] at read
    split at read
    · obtain ⟨rfl, -⟩ := Prod.mk.inj (Except.ok.inj read)
      exact id
    · cases read

theorem whole_afterWhole (read : afterWhole negative whole t = .ok (x, rest)) (integer : x.IsInt) : x.Whole := by
  by_cases point : ∃ u, t = .char '.' :: u
  · obtain ⟨u, rfl⟩ := point
    obtain ⟨ds, v, -, -, read⟩ := (afterWhole_point u).mp read
    exact (float_of_afterFraction read integer).elim
  · by_cases letter : ∃ c u, t = .char c :: u ∧ (c = 'e' ∨ c = 'E')
    · obtain ⟨c, u, rfl, letter⟩ := letter
      rw [afterWhole_letter letter] at read
      obtain ⟨ds, v, -, -, read⟩ := exponent_eq_ok_iff.mp read
      exact (float_of_ofExponent read integer).elim
    · rw [afterWhole_of_other fun c u same =>
        ⟨fun here => point ⟨u, here ▸ same⟩, fun letters => letter ⟨c, u, same, letters⟩⟩] at read
      split at read
      · rename_i made
        obtain ⟨rfl, -⟩ := Prod.mk.inj (Except.ok.inj read)
        exact whole_ofDigits made integer
      · cases read

/-- An integer that is read has 64 bits. -/
theorem whole_read (found : read t = .ok (x, rest)) (integer : x.IsInt) : x.Whole := by
  unfold read at found
  split at found
  all_goals
    obtain ⟨ds, v, -, -, -, found⟩ := unsigned_eq_ok_iff.mp found
    exact whole_afterWhole found integer

end Numeral

end LeafPlan
