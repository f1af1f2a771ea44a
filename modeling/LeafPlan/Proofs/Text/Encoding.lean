import LeafPlan.Text.Symbol

/-!
# Bytes of a text

`chars?_ofBytes_iff` shows that the bytes which stand for characters throughout are those of a string.
-/

namespace LeafPlan.Text

theorem chars?_char_eq_some_iff {c : Char} {rest : Text} {cs : List Char} :
    chars? (.char c :: rest) = some cs ↔ ∃ ds, chars? rest = some ds ∧ c :: ds = cs := by
  rw [chars?, Option.map_eq_some_iff]

theorem utf8Encode_ne_extract {b : ByteArray} {i : Nat} (inside : i < b.size)
    (stray : b.utf8DecodeChar? i = none) (cs : List Char) : b.extract i b.size ≠ cs.utf8Encode := by
  rw [ByteArray.utf8DecodeChar?_eq_utf8DecodeChar?_extract] at stray
  intro same
  cases cs with
  | nil =>
    have size := congrArg ByteArray.size same
    rw [List.utf8Encode_nil, ByteArray.size_extract, ByteArray.size_empty] at size
    omega
  | cons c cs =>
    rw [same, List.utf8DecodeChar?_utf8Encode_cons] at stray
    cases stray

/-- A character in front of the bytes is the first one that they stand for. -/
theorem extract_eq_utf8Encode_iff {b : ByteArray} {i : Nat} {c : Char} (read : b.utf8DecodeChar? i = some c)
    (cs : List Char) : b.extract i b.size = cs.utf8Encode ↔
      ∃ ds, b.extract (i + c.utf8Size) b.size = ds.utf8Encode ∧ c :: ds = cs := by
  have within := ByteArray.le_size_of_utf8DecodeChar?_eq_some read
  rw [ByteArray.utf8DecodeChar?_eq_utf8DecodeChar?_extract] at read
  have front : b.extract i b.size = [c].utf8Encode ++ b.extract (i + c.utf8Size) b.size := by
    have parted := ByteArray.eq_of_utf8DecodeChar?_eq_some read
    rwa [ByteArray.extract_extract, ByteArray.size_extract, Nat.min_self, Nat.add_sub_cancel' (by omega), Nat.min_self,
      ← List.utf8Encode_singleton] at parted
  constructor
  · intro same
    cases cs with
    | nil =>
      rw [same] at read
      cases read
    | cons d ds =>
      rw [same, List.utf8DecodeChar?_utf8Encode_cons] at read
      obtain rfl := Option.some.inj read
      rw [List.utf8Encode_cons, front, ByteArray.append_right_inj] at same
      exact ⟨ds, same, rfl⟩
  · rintro ⟨ds, same, rfl⟩
    rw [front, same, ← List.utf8Encode_cons]

theorem chars?_ofBytesFrom_iff {b : ByteArray} {i : Nat} (within : i ≤ b.size) (cs : List Char) :
    chars? (ofBytesFrom b i) = some cs ↔ b.extract i b.size = cs.utf8Encode := by
  induction i using ofBytesFrom.induct b generalizing cs with
  | case1 i inside c read ih =>
    rw [ofBytesFrom, dif_pos inside, read, chars?_char_eq_some_iff, extract_eq_utf8Encode_iff read]
    have further := ByteArray.le_size_of_utf8DecodeChar?_eq_some read
    exact exists_congr fun ds => and_congr_left' (ih further ds)
  | case2 i inside stray ih =>
    rw [ofBytesFrom, dif_pos inside, stray]
    exact iff_of_false nofun (utf8Encode_ne_extract inside stray cs)
  | case3 i outside =>
    have spent : b.extract i b.size = ByteArray.empty := by
      rw [ByteArray.extract_eq_empty_iff]
      omega
    rw [ofBytesFrom, dif_neg outside, spent, eq_comm (a := ByteArray.empty), List.utf8Encode_eq_empty, chars?,
      Option.some.injEq, eq_comm]

theorem chars?_ofBytes_iff {b : ByteArray} {cs : List Char} :
    chars? (ofBytes b) = some cs ↔ b = (String.ofList cs).toUTF8 := by
  rw [ofBytes, chars?_ofBytesFrom_iff (Nat.zero_le _), ByteArray.extract_zero_size, ← String.toByteArray_ofList]
  rfl

theorem chars?_ofBytes_eq_none_iff {b : ByteArray} : chars? (ofBytes b) = none ↔ ∀ s : String, b ≠ s.toUTF8 := by
  rw [Option.eq_none_iff_forall_ne_some]
  constructor
  · rintro stray s rfl
    exact stray s.toList (chars?_ofBytes_iff.mpr (by rw [String.ofList_toList]))
  · intro stray cs read
    exact stray (String.ofList cs) (chars?_ofBytes_iff.mp read)

end LeafPlan.Text
