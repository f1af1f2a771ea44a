import LeafPlan.Json.Reader
import LeafPlan.Proofs.Except
import LeafPlan.Proofs.Json.Grammar
import Mathlib.Tactic.IntervalCases

/-!
# Quoted strings are read by the grammar

`Quoted.read_eq_ok_iff` shows that the reader of a string, from behind its first quote on, finds the characters
that the grammar gives it, and stops behind its last quote.
-/

namespace LeafPlan

open Grammar

/-! ### Code units -/

theorem char_le_iff_toNat_le {c d : Char} : c ≤ d ↔ c.toNat ≤ d.toNat := by
  rw [Char.le_def, UInt32.le_iff_toNat_le, Char.toNat_val, Char.toNat_val]

theorem hexDigit_of_hex? {s : Symbol} {n : Nat} (read : s.hex? = some n) : ∃ c, s = .char c ∧ HexDigit c n := by
  have moved {c : Char} {base : Nat} (le : base ≤ c.toNat) : Char.ofNat (base + (c.toNat - base)) = c := by
    rw [Nat.add_sub_cancel' le, Char.ofNat_toNat]
  cases s with
  | stray b => cases read
  | char c =>
    refine ⟨c, rfl, ?_⟩
    simp only [Symbol.hex?, Bool.and_eq_true, decide_eq_true_eq, char_le_iff_toNat_le] at read
    split at read
    · rename_i digit
      obtain ⟨low, high⟩ := Char.isDigit_iff_toNat.mp digit
      have small : c.toNat - '0'.toNat < 10 := by
        have : '9'.toNat = '0'.toNat + 9 := rfl
        omega
      obtain rfl := Option.some.inj read
      have spelled := HexDigit.digit small
      rwa [moved low] at spelled
    · split at read
      · rename_i lower
        have small : c.toNat - 'a'.toNat < 6 := by
          have : 'f'.toNat = 'a'.toNat + 5 := rfl
          omega
        obtain rfl := Option.some.inj read
        have spelled := HexDigit.lower small
        rwa [moved lower.1] at spelled
      · split at read
        · rename_i upper
          have small : c.toNat - 'A'.toNat < 6 := by
            have : 'F'.toNat = 'A'.toNat + 5 := rfl
            omega
          obtain rfl := Option.some.inj read
          have spelled := HexDigit.upper small
          rwa [moved upper.1] at spelled
        · cases read

theorem hex?_of_hexDigit {c : Char} {n : Nat} (digit : HexDigit c n) : (Symbol.char c).hex? = some n := by
  cases digit with
  | digit small => interval_cases n <;> rfl
  | @lower n small => interval_cases n <;> rfl
  | @upper n small => interval_cases n <;> rfl

namespace Quoted

theorem hex4_eq_ok_iff {t rest : Text} {n : Nat} : hex4 t = .ok (n, rest) ↔ CodeUnit t n rest := by
  constructor
  · intro read
    unfold hex4 at read
    split at read
    · cases read
    · split at read
      · rename_i a b c d after
        split at read
        · rename_i w x y z first second third fourth
          obtain ⟨rfl, rfl⟩ := Prod.mk.inj (Except.ok.inj read)
          obtain ⟨a, rfl, firstDigit⟩ := hexDigit_of_hex? first
          obtain ⟨b, rfl, secondDigit⟩ := hexDigit_of_hex? second
          obtain ⟨c, rfl, thirdDigit⟩ := hexDigit_of_hex? third
          obtain ⟨d, rfl, fourthDigit⟩ := hexDigit_of_hex? fourth
          exact .intro firstDigit secondDigit thirdDigit fourthDigit _
        · cases read
      · cases read
  · rintro ⟨first, second, third, fourth⟩
    rename_i a b c d w x y z
    have wide : ¬ Text.width (.char a :: .char b :: .char c :: .char d :: rest) < 4 := by
      have := (Symbol.char a).width_pos
      have := (Symbol.char b).width_pos
      have := (Symbol.char c).width_pos
      have := (Symbol.char d).width_pos
      simp only [Text.width_cons]
      omega
    rw [hex4, if_neg wide]
    simp only [hex?_of_hexDigit first, hex?_of_hexDigit second, hex?_of_hexDigit third, hex?_of_hexDigit fourth]

theorem isTrailing_iff {n : Nat} : isTrailing n = true ↔ 0xDC00 ≤ n ∧ n < 0xE000 := by
  rw [isTrailing, Bool.and_eq_true, decide_eq_true_iff, decide_eq_true_iff]

theorem isLeading_iff {n : Nat} : isLeading n = true ↔ 0xD800 ≤ n ∧ n < 0xDC00 := by
  rw [isLeading, Bool.and_eq_true, decide_eq_true_iff, decide_eq_true_iff]

theorem trailing_eq_ok_iff {t rest : Text} {m : Nat} {c : Char} :
    trailing m t = .ok (c, rest) ↔
      ∃ u n, t = .char '\\' :: .char 'u' :: u ∧ CodeUnit u n rest ∧ (0xDC00 ≤ n ∧ n < 0xE000) ∧
        Char.ofNat ((m - 0xD800) * 0x400 + (n - 0xDC00) + 0x10000) = c := by
  constructor
  · intro read
    unfold trailing at read
    split at read
    · cases read
    · cases read
    · rename_i u
      obtain ⟨⟨n, after⟩, unit, read⟩ := bind_eq_ok_iff.mp read
      dsimp only at read
      split at read
      · rename_i trails
        have same := pure_eq_ok_iff.mp read
        obtain ⟨rfl, rfl⟩ := Prod.mk.inj same
        exact ⟨u, n, rfl, hex4_eq_ok_iff.mp unit, isTrailing_iff.mp trails, rfl⟩
      · cases read
    · cases read
    · cases read
  · rintro ⟨u, n, rfl, unit, trails, rfl⟩
    rw [trailing]
    refine bind_eq_ok_iff.mpr ⟨(n, rest), hex4_eq_ok_iff.mpr unit, ?_⟩
    dsimp only
    rw [if_pos (isTrailing_iff.mpr trails)]
    rfl

theorem codePoint_eq_ok_iff {t rest : Text} {c : Char} :
    codePoint t = .ok (c, rest) ↔ Escape (.char 'u' :: t) c rest := by
  constructor
  · intro read
    obtain ⟨⟨n, after⟩, unit, read⟩ := bind_eq_ok_iff.mp read
    dsimp only at read
    split at read
    · cases read
    · rename_i trails
      split at read
      · rename_i leads
        obtain ⟨u, m, rfl, low, bounds, rfl⟩ := trailing_eq_ok_iff.mp read
        rw [Nat.add_comm, ← Nat.add_assoc]
        exact .pair (hex4_eq_ok_iff.mp unit) (isLeading_iff.mp leads) low bounds
      · rename_i leads
        have same := pure_eq_ok_iff.mp read
        obtain ⟨rfl, rfl⟩ := Prod.mk.inj same
        rw [isTrailing_iff] at trails
        rw [isLeading_iff] at leads
        exact .code (hex4_eq_ok_iff.mp unit) (by omega)
  · intro escape
    cases escape with
    | name listed => simp [named] at listed
    | code unit single =>
      refine bind_eq_ok_iff.mpr ⟨_, hex4_eq_ok_iff.mpr unit, ?_⟩
      dsimp only
      rw [if_neg (by rw [isTrailing_iff]; omega), if_neg (by rw [isLeading_iff]; omega)]
      rfl
    | pair high leads low trails =>
      refine bind_eq_ok_iff.mpr ⟨_, hex4_eq_ok_iff.mpr high, ?_⟩
      dsimp only
      rw [if_neg (by rw [isTrailing_iff]; omega), if_pos (isLeading_iff.mpr leads)]
      exact trailing_eq_ok_iff.mpr ⟨_, _, rfl, low, trails, by rw [Nat.add_comm, ← Nat.add_assoc]⟩

theorem escape_eq_ok_iff {t rest : Text} {c : Char} : escape t = .ok (c, rest) ↔ Escape t c rest := by
  constructor
  · intro read
    unfold escape at read
    split at read
    · cases read
    · exact codePoint_eq_ok_iff.mp read
    · rename_i e after other
      split at read
      · rename_i x listed
        obtain ⟨rfl, rfl⟩ := Prod.mk.inj (Except.ok.inj read)
        refine .name ?_ after
        unfold named? at listed
        split at listed <;> simp_all [named, eq_comm]
      · cases read
    · cases read
  · intro escaped
    cases escaped with
    | name listed =>
      simp only [named, List.mem_cons, Prod.mk.injEq, List.not_mem_nil, or_false] at listed
      rcases listed with ⟨rfl, rfl⟩ | ⟨rfl, rfl⟩ | ⟨rfl, rfl⟩ | ⟨rfl, rfl⟩ | ⟨rfl, rfl⟩ | ⟨rfl, rfl⟩ | ⟨rfl, rfl⟩ |
        ⟨rfl, rfl⟩ <;> rfl
    | code unit single => exact codePoint_eq_ok_iff.mpr (.code unit single)
    | pair high leads low trails => exact codePoint_eq_ok_iff.mpr (.pair high leads low trails)

/-! ### Whole strings -/

theorem content_of_body {fuel : Nat} {t rest : Text} {cs : List Char} (read : body fuel t = .ok (cs, rest)) :
    Content t cs rest := by
  induction fuel generalizing t cs with
  | zero => cases read
  | succ fuel ih =>
    unfold body at read
    split at read
    · cases read
    · rename_i c after
      split at read
      · rename_i quote
        obtain ⟨rfl, rfl⟩ := Prod.mk.inj (Except.ok.inj read)
        rw [quote]
        exact .close after
      · rename_i quote
        split at read
        · rename_i backslash
          obtain ⟨⟨x, u⟩, escaped, read⟩ := bind_eq_ok_iff.mp read
          obtain ⟨⟨later, v⟩, more, read⟩ := bind_eq_ok_iff.mp read
          have same := pure_eq_ok_iff.mp read
          obtain ⟨rfl, rfl⟩ := Prod.mk.inj same
          rw [backslash]
          exact .escape (escape_eq_ok_iff.mp escaped) (ih more)
        · rename_i backslash
          split at read
          · cases read
          · rename_i control
            obtain ⟨⟨later, v⟩, more, read⟩ := bind_eq_ok_iff.mp read
            have same := pure_eq_ok_iff.mp read
            obtain ⟨rfl, rfl⟩ := Prod.mk.inj same
            exact .plain ⟨Nat.le_of_not_lt control, quote, backslash⟩ (ih more)
    · cases read

theorem body_of_content {t rest : Text} {cs : List Char} (content : Content t cs rest) {fuel : Nat}
    (enough : cs.length < fuel) : body fuel t = .ok (cs, rest) := by
  induction content generalizing fuel with
  | close rest =>
    obtain ⟨fuel, rfl⟩ := Nat.exists_eq_add_one.mpr enough
    rfl
  | plain bare more ih =>
    obtain ⟨fuel, rfl⟩ := Nat.exists_eq_add_one.mpr (Nat.zero_lt_of_lt enough)
    rw [body, if_neg bare.2.1, if_neg bare.2.2, if_neg (Nat.not_lt_of_le bare.1)]
    exact bind_eq_ok_iff.mpr ⟨_, ih (Nat.lt_of_succ_lt_succ enough), rfl⟩
  | escape escaped more ih =>
    obtain ⟨fuel, rfl⟩ := Nat.exists_eq_add_one.mpr (Nat.zero_lt_of_lt enough)
    rw [body, if_neg (by decide), if_pos rfl]
    refine bind_eq_ok_iff.mpr ⟨_, escape_eq_ok_iff.mpr escaped, ?_⟩
    exact bind_eq_ok_iff.mpr ⟨_, ih (Nat.lt_of_succ_lt_succ enough), rfl⟩

theorem read_eq_ok_iff {t rest : Text} {s : String} :
    read t = .ok (s, rest) ↔ ∃ cs, s = String.ofList cs ∧ Content t cs rest := by
  constructor
  · intro found
    obtain ⟨⟨cs, after⟩, inside, found⟩ := bind_eq_ok_iff.mp found
    have same := pure_eq_ok_iff.mp found
    obtain ⟨rfl, rfl⟩ := Prod.mk.inj same
    exact ⟨cs, rfl, content_of_body inside⟩
  · rintro ⟨cs, rfl, content⟩
    have enough : cs.length < t.length := by
      have := content_shrinks content
      omega
    exact bind_eq_ok_iff.mpr ⟨_, body_of_content content enough, rfl⟩

end Quoted

end LeafPlan
