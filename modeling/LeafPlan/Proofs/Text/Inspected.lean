import LeafPlan.Text.Inspected
import Mathlib.Data.List.Basic
import Mathlib.Data.Nat.Digits.Defs

/-!
# Inspected texts are told apart

A text that is shown for inspection takes one line, and no other text is shown alike: a character can be told from what
is written for it, whatever stands behind.
-/

namespace LeafPlan.Inspected

/-! ### Codes -/

/-- The number with these digits, of which there are sixteen. -/
def value (cs : List Char) : Nat :=
  cs.foldl (fun n c => 16 * n + if c ≤ '9' then c.toNat - 48 else c.toNat - 87) 0

theorem digitChar_hex : ∀ m < 16, value [m.digitChar] = m ∧ m.digitChar ≠ '\n' ∧ m.digitChar ≠ '\x7d' := by
  decide

theorem toDigits_of_large {n : Nat} (large : ¬ n < 16) :
    Nat.toDigits 16 n = Nat.toDigits 16 (n / 16) ++ [(n % 16).digitChar] :=
  Nat.toDigits_of_base_le (by decide) (Nat.le_of_not_lt large)

theorem value_toDigits (n : Nat) : value (Nat.toDigits 16 n) = n := by
  induction n using Nat.strongRecOn with
  | ind n ih =>
    by_cases small : n < 16
    · rw [Nat.toDigits_of_lt_base small]
      exact (digitChar_hex n small).1
    · have front := ih (n / 16) (by omega)
      have last := (digitChar_hex (n % 16) (Nat.mod_lt n (by decide))).1
      rw [value] at front last ⊢
      rw [toDigits_of_large small, List.foldl_append, front]
      simp only [List.foldl_cons, List.foldl_nil, Nat.mul_zero, Nat.zero_add] at last ⊢
      omega

theorem digit_of_mem_toDigits {c : Char} (n : Nat) (member : c ∈ Nat.toDigits 16 n) : c ≠ '\n' ∧ c ≠ '\x7d' := by
  induction n using Nat.strongRecOn with
  | ind n ih =>
    by_cases small : n < 16
    · rw [Nat.toDigits_of_lt_base small, List.mem_singleton] at member
      exact member ▸ (digitChar_hex n small).2
    · rw [toDigits_of_large small] at member
      obtain front | last := List.mem_append.mp member
      · exact ih (n / 16) (by omega) front
      · exact List.mem_singleton.mp last ▸ (digitChar_hex (n % 16) (Nat.mod_lt n (by decide))).2

/-- A text is cut behind its first word in one way only. -/
theorem word_unique {c : Char} {word other rest more : List Char} (bare : c ∉ word) (bareToo : c ∉ other)
    (same : word ++ c :: rest = other ++ c :: more) : word = other ∧ rest = more := by
  have first {front : List Char} (bare : c ∉ front) (behind : List Char) :
      (front ++ c :: behind).takeWhile (· ≠ c) = front := by
    rw [List.takeWhile_append_of_pos fun d member => by simpa using ne_of_mem_of_not_mem member bare]
    simp
  have words : word = other := by rw [← first bare rest, same, first bareToo]
  subst words
  exact ⟨rfl, (List.cons.inj (List.append_cancel_left same)).2⟩

/-! ### Characters -/

/-- The escapes that have a letter of their own. -/
def named : List (Char × Char) :=
  [('\x00', '0'), ('\t', 't'), ('\n', 'n'), ('\r', 'r'), ('"', '"'), ('\\', '\\')]

theorem named_injective : ∀ p ∈ named, p.2 ≠ 'u' ∧ p.2 ≠ '\n' ∧ ∀ q ∈ named, p.2 = q.2 → p.1 = q.1 := by decide

/-- What is written for a character: itself, an escape with a letter, or one with the character's code. -/
inductive Spells (c : Char) : List Char → Prop
  | plain (quote : c ≠ '"') (backslash : c ≠ '\\') (feed : c ≠ '\n') : Spells c [c]
  | named {e : Char} (listed : (c, e) ∈ named) : Spells c ['\\', e]
  | code : Spells c ('\\' :: 'u' :: '\x7b' :: (Nat.toDigits 16 c.toNat ++ ['\x7d']))

theorem spells_escapeChar (c : Char) : Spells c (escapeChar c) := by
  unfold escapeChar
  split
  iterate 6 exact .named (by decide)
  rename_i feed _ quote backslash
  split
  · exact .plain quote backslash feed
  · exact .code

theorem Spells.feed_not_mem {c : Char} {cs : List Char} (spells : Spells c cs) : '\n' ∉ cs := by
  cases spells with
  | plain _ _ feed => simpa using feed.symm
  | named listed => simpa using (named_injective _ listed).2.1.symm
  | code =>
    have digits : '\n' ∉ Nat.toDigits 16 c.toNat := fun member => (digit_of_mem_toDigits _ member).1 rfl
    simpa using digits

theorem Spells.head_ne_quote {c : Char} {cs rest more : List Char} (spells : Spells c cs) :
    cs ++ rest ≠ '"' :: more := by
  cases spells with
  | plain quote => simp [quote]
  | named => simp
  | code => simp

theorem Spells.unique {c d : Char} {cs ds xs ys : List Char} (first : Spells c cs) (second : Spells d ds)
    (same : cs ++ xs = ds ++ ys) : c = d ∧ xs = ys := by
  cases first with
  | plain _ backslash =>
    cases second with
    | plain => simpa using same
    | named => simp [backslash] at same
    | code => simp [backslash] at same
  | @named e listed =>
    obtain ⟨letter, -, only⟩ := named_injective _ listed
    cases second with
    | plain _ backslash => simp [backslash.symm] at same
    | named listedToo =>
      obtain ⟨alike, rest⟩ : _ ∧ xs = ys := by simpa using same
      exact ⟨only _ listedToo alike, rest⟩
    | code => simp [letter] at same
  | code =>
    cases second with
    | plain _ backslash => simp [backslash.symm] at same
    | named listed => simp [(named_injective _ listed).1.symm] at same
    | code =>
      have bare (n : Nat) : '\x7d' ∉ Nat.toDigits 16 n := fun member => (digit_of_mem_toDigits n member).2 rfl
      simp only [List.cons_append, List.append_assoc, List.cons.injEq, true_and, List.nil_append] at same
      obtain ⟨digits, rest⟩ := word_unique (bare _) (bare _) same
      have codes := congrArg value digits
      rw [value_toDigits, value_toDigits] at codes
      exact ⟨Char.toNat_inj.mp codes, rest⟩

/-! ### Texts -/

theorem feed_not_mem_write (s : String) : '\n' ∉ (write s).toList := by
  rw [write, String.toList_ofList]
  simp only [List.mem_append, List.mem_cons, List.mem_flatMap, List.not_mem_nil, or_false, not_or]
  refine ⟨⟨by decide, ?_⟩, by decide⟩
  rintro ⟨c, -, inside⟩
  exact (spells_escapeChar c).feed_not_mem inside

theorem flatMap_escapeChar_injective {cs ds : List Char}
    (same : cs.flatMap escapeChar ++ ['"'] = ds.flatMap escapeChar ++ ['"']) : cs = ds := by
  induction cs generalizing ds with
  | nil =>
    cases ds with
    | nil => rfl
    | cons d ds =>
      rw [List.flatMap_cons, List.append_assoc] at same
      exact ((spells_escapeChar d).head_ne_quote same.symm).elim
  | cons c cs ih =>
    cases ds with
    | nil =>
      rw [List.flatMap_cons, List.append_assoc] at same
      exact ((spells_escapeChar c).head_ne_quote same).elim
    | cons d ds =>
      rw [List.flatMap_cons, List.flatMap_cons, List.append_assoc, List.append_assoc] at same
      obtain ⟨rfl, rest⟩ := (spells_escapeChar c).unique (spells_escapeChar d) same
      rw [ih rest]

/-- Texts that are shown alike are the same text. -/
theorem write_injective {s t : String} (same : write s = write t) : s = t := by
  rw [write, write, String.ofList_inj, List.cons_append, List.cons_append, List.cons.injEq] at same
  exact String.toList_injective (flatMap_escapeChar_injective same.2)

end LeafPlan.Inspected
