import LeafPlan.Path.Basic

/-!
# Pointers read back

An escaped name holds no slash, so a pointer falls into the names that it was written from, and each of them is
restored: the slashes first, then the tildes. `Path.pointer_decodes` says so of paths of any names. So different
paths have different pointers, and different labels.
-/

namespace LeafPlan

namespace Pointer

/-! ### One name -/

theorem escapeChar_of_plain {c : Char} (tilde : c ≠ '~') (slash : c ≠ '/') : escapeChar c = [c] := by
  rw [escapeChar, if_neg tilde, if_neg slash]

theorem slash_not_mem_escape (name : List Char) : '/' ∉ name.flatMap escapeChar := by
  intro member
  obtain ⟨c, -, inside⟩ := List.mem_flatMap.mp member
  rw [escapeChar] at inside
  split at inside
  · simp at inside
  · split at inside
    · simp at inside
    · rename_i slash
      exact slash (List.mem_singleton.mp inside).symm

theorem restore_cons {c : Char} (other : c ≠ '~') (d x : Char) (rest : List Char) :
    restore d x (c :: rest) = c :: restore d x rest := by
  rw [restore]
  exact fun _ _ tilde _ => other tilde

theorem restore_tilde (d x c : Char) (rest : List Char) :
    restore d x ('~' :: c :: rest) = if c = d then x :: restore d x rest else '~' :: restore d x (c :: rest) := by
  rw [restore]

/-- A name with its tildes escaped and its slashes not. -/
def escapeTildes (name : List Char) : List Char := name.flatMap fun c => if c = '~' then ['~', '0'] else [c]

theorem restore_slashes (name : List Char) : restore '1' '/' (name.flatMap escapeChar) = escapeTildes name := by
  induction name with
  | nil => rfl
  | cons c name ih =>
    rw [List.flatMap_cons]
    by_cases tilde : c = '~'
    · subst tilde
      show restore '1' '/' ('~' :: '0' :: name.flatMap escapeChar) = '~' :: '0' :: escapeTildes name
      rw [restore_tilde, if_neg (by decide), restore_cons (by decide), ih]
    · have kept : escapeTildes (c :: name) = c :: escapeTildes name := by
        rw [escapeTildes, List.flatMap_cons, if_neg tilde]
        rfl
      rw [kept]
      by_cases slash : c = '/'
      · subst slash
        show restore '1' '/' ('~' :: '1' :: name.flatMap escapeChar) = '/' :: escapeTildes name
        rw [restore_tilde, if_pos rfl, ih]
      · rw [escapeChar_of_plain tilde slash, List.singleton_append, restore_cons tilde, ih]

theorem restore_tildes (name : List Char) : restore '0' '~' (escapeTildes name) = name := by
  induction name with
  | nil => rfl
  | cons c name ih =>
    rw [escapeTildes, List.flatMap_cons, ← escapeTildes]
    by_cases tilde : c = '~'
    · subst tilde
      show restore '0' '~' ('~' :: '0' :: escapeTildes name) = '~' :: name
      rw [restore_tilde, if_pos rfl, ih]
    · rw [if_neg tilde, List.singleton_append, restore_cons tilde, ih]

/-- A name with its slashes escaped and its tildes not. -/
def escapeSlashes (name : List Char) : List Char := name.flatMap fun c => if c = '/' then ['~', '1'] else [c]

/-- The tildes that escape slashes are not escaped again, because the tildes of the name come first. -/
theorem escapeSlashes_escapeTildes (name : List Char) :
    escapeSlashes (escapeTildes name) = name.flatMap escapeChar := by
  rw [escapeSlashes, escapeTildes, List.flatMap_assoc]
  refine congrArg name.flatMap (funext fun c => ?_)
  rw [escapeChar]
  split
  · rfl
  · exact List.flatMap_singleton _ c

theorem unescape_escape (name : List Char) : unescape (name.flatMap escapeChar) = name := by
  rw [unescape, restore_slashes, restore_tildes]

/-! ### All names -/

theorem pieces_of_bare {piece : List Char} (bare : '/' ∉ piece) : pieces piece = [piece] := by
  induction piece with
  | nil => rfl
  | cons c piece ih =>
    obtain ⟨other, bare⟩ := not_or.mp (mt List.mem_cons.mpr bare)
    rw [pieces, if_neg (Ne.symm other), ih bare]

theorem pieces_append {piece : List Char} (bare : '/' ∉ piece) (rest : List Char) :
    pieces (piece ++ '/' :: rest) = piece :: pieces rest := by
  induction piece with
  | nil => rfl
  | cons c piece ih =>
    obtain ⟨other, bare⟩ := not_or.mp (mt List.mem_cons.mpr bare)
    rw [List.cons_append, pieces, if_neg (Ne.symm other), ih bare]

theorem writeChars_cons (name : String) (names : List String) :
    writeChars (name :: names) = '/' :: (name.toList.flatMap escapeChar ++ writeChars names) := rfl

/-- The first piece may be anything without a slash, so that the induction can go over the names behind it. -/
theorem pieces_writeChars {piece : List Char} (bare : '/' ∉ piece) (names : List String) :
    pieces (piece ++ writeChars names) = piece :: names.map fun name => name.toList.flatMap escapeChar := by
  induction names generalizing piece with
  | nil =>
    rw [writeChars, List.flatMap_nil, List.append_nil, pieces_of_bare bare, List.map_nil]
  | cons name names ih =>
    rw [writeChars_cons, pieces_append bare, ih (slash_not_mem_escape _), List.map_cons]

theorem map_restored (names : List String) :
    ((names.map fun name => name.toList.flatMap escapeChar).map fun piece => String.ofList (unescape piece)) =
      names := by
  rw [List.map_map]
  refine (List.map_congr_left fun name _ => ?_).trans (List.map_id names)
  rw [Function.comp_apply, unescape_escape, String.ofList_toList, id]

theorem names?_writeChars (names : List String) : names? (writeChars names) = some names := by
  cases names with
  | nil => rfl
  | cons name names =>
    rw [writeChars_cons, names?, pieces_writeChars (slash_not_mem_escape _)]
    exact congrArg some (map_restored (name :: names))

theorem writeChars_append (names others : List String) :
    writeChars (names ++ others) = writeChars names ++ writeChars others :=
  List.flatMap_append

theorem names?_write (names : List String) : names? (write names).toList = some names := by
  rw [write, String.toList_ofList, names?_writeChars]

/-- A slash behind the names of a pointer starts a piece of its own. -/
theorem pieces_writeChars_append {piece : List Char} (bare : '/' ∉ piece) (names : List String) (rest : List Char) :
    pieces (piece ++ (writeChars names ++ '/' :: rest)) =
      piece :: ((names.map fun name => name.toList.flatMap escapeChar) ++ pieces rest) := by
  induction names generalizing piece with
  | nil => exact pieces_append bare rest
  | cons name names ih =>
    rw [writeChars_cons, List.cons_append, List.append_assoc, pieces_append bare, ih (slash_not_mem_escape _),
      List.map_cons, List.cons_append]

theorem pieces_eq_splitOn (cs : List Char) : pieces cs = cs.splitOn '/' := by
  induction cs with
  | nil => rfl
  | cons c cs ih =>
    have step : (c :: cs).splitOn '/' =
        if c == '/' then [] :: cs.splitOn '/' else (cs.splitOn '/').modifyHead (List.cons c) :=
      List.splitOnP_cons_eq_if_modifyHead c cs
    rw [pieces, ih, step]
    by_cases slash : c = '/'
    · rw [if_pos slash, if_pos (beq_iff_eq.mpr slash)]
    · rw [if_neg slash, if_neg (mt beq_iff_eq.mp slash)]
      cases split : cs.splitOn '/' with
      | nil => exact (List.splitOnP_ne_nil _ _ split).elim
      | cons piece more => rfl

theorem pieces_ne_nil (cs : List Char) : pieces cs ≠ [] := by
  rw [pieces_eq_splitOn]
  exact List.splitOnP_ne_nil _ cs

/-- What stands between the slashes of a text and behind the last one, restored. -/
def decode (cs : List Char) : List String := (cs.splitOn '/').tail.map fun piece => String.ofList (unescape piece)

theorem decode_writeChars (names : List String) : decode (writeChars names) = names := by
  have split := pieces_writeChars (List.not_mem_nil (a := '/')) names
  rw [List.nil_append, pieces_eq_splitOn] at split
  rw [decode, split, List.tail_cons, map_restored]

theorem decode_writeChars_append (names : List String) (rest : List Char) :
    decode (writeChars names ++ '/' :: rest) =
      names ++ (pieces rest).map fun piece => String.ofList (unescape piece) := by
  have split := pieces_writeChars_append (List.not_mem_nil (a := '/')) names rest
  rw [List.nil_append, pieces_eq_splitOn] at split
  rw [decode, split, List.tail_cons, List.map_append, map_restored]

theorem write_injective {names others : List String} (same : write names = write others) : names = others := by
  have read := names?_write names
  rw [same, names?_write] at read
  exact (Option.some.inj read).symm

theorem writeChars_slash_prefix_iff {names others : List String} :
    writeChars names ++ ['/'] <+: writeChars others ↔ names <+: others ∧ names ≠ others := by
  constructor
  · rintro ⟨rest, same⟩
    rw [List.append_assoc] at same
    have read : decode (writeChars names ++ (['/'] ++ rest)) = _ := decode_writeChars_append names rest
    rw [same, decode_writeChars] at read
    refine ⟨⟨_, read.symm⟩, fun equal => ?_⟩
    -- the slash starts a piece that the names do not have
    rw [equal, List.self_eq_append_right, List.map_eq_nil_iff] at read
    exact pieces_ne_nil rest read
  · rintro ⟨⟨more, rfl⟩, longer⟩
    cases more with
    | nil => exact (longer (List.append_nil names).symm).elim
    | cons name more =>
      rw [writeChars_append, writeChars_cons]
      exact ⟨_, List.append_assoc _ _ _⟩

end Pointer

namespace Path

theorem label_cons (k : String) (p : Path) : label (k :: p) = pointer (k :: p) := rfl

/-- Only the pointer of the root starts with no slash, and the root's label is not its pointer. -/
theorem pointer_ne_root (k : String) (p : Path) : pointer (k :: p) ≠ label [] := by
  intro same
  have chars := congrArg String.toList same
  rw [pointer, Pointer.write, String.toList_ofList, Pointer.writeChars_cons] at chars
  have first : '/' = '<' := (List.cons.inj chars).1
  exact absurd first (by decide)

theorem label_injective {p q : Path} (same : p.label = q.label) : p = q := by
  cases p with
  | nil =>
    cases q with
    | nil => rfl
    | cons j q => exact (pointer_ne_root j q same.symm).elim
  | cons k p =>
    cases q with
    | nil => exact (pointer_ne_root k p same).elim
    | cons j q => exact Pointer.write_injective same

/-- A pointer has every name behind a slash, with first its tildes and then its slashes escaped. Taken apart at the
slashes it gives back the names, whatever they are. So no two paths share a pointer, and one pointer goes on behind
another with a slash exactly if its path goes on behind the other's. -/
theorem pointer_decodes (p : Path) :
    (pointer p).toList = p.flatMap (fun k => '/' :: Pointer.escapeSlashes (Pointer.escapeTildes k.toList)) ∧
    Pointer.decode (pointer p).toList = p ∧
    (∀ q, pointer p = pointer q ↔ p = q) ∧
    ∀ q, (pointer p ++ "/").toList <+: (pointer q).toList ↔ p <+: q ∧ p ≠ q := by
  have chars (r : Path) : (pointer r).toList = Pointer.writeChars r := String.toList_ofList
  refine ⟨?_, ?_, fun q => ⟨Pointer.write_injective, congrArg pointer⟩, fun q => ?_⟩
  · simp only [chars, Pointer.writeChars, Pointer.escapeSlashes_escapeTildes]
  · rw [chars, Pointer.decode_writeChars]
  · rw [String.toList_append, chars, chars]
    exact Pointer.writeChars_slash_prefix_iff

/-- An empty name, a name with a slash, and a name that looks like an escape. -/
example : pointer ["", "a/b", "~1"] = "//a~1b/~01" := by decide

end Path

end LeafPlan
