import LeafPlan.Json.Printer
import LeafPlan.Proofs.Json.Recoverable

/-!
# Texts that spell a document

A document has one compact form and many other spellings: blanks may stand between its parts, and any character of
a string may be escaped. `Json.compact_spells` and `Json.indented_spells` show that the compact and the indented form
are among them, for a document whose numbers are integers of 64 bits.
-/

namespace LeafPlan

open Grammar

namespace Json

mutual

/-- What a written document shows: its members stand in their order. -/
def written : Json → Written
  | .null => .null
  | .bool b => .bool b
  | .number n => .number n.chars
  | .string s => .string s
  | .array items => .array (writtenItems items)
  | .object members => .object (writtenMembers members)

def writtenItems : List Json → List Written
  | [] => []
  | d :: ds => d.written :: writtenItems ds

def writtenMembers : List (String × Json) → List (String × Written)
  | [] => []
  | (k, d) :: ms => (k, d.written) :: writtenMembers ms

end

theorem writtenItems_eq (items : List Json) : writtenItems items = items.map written :=
  Mapped.eq ⟨rfl, fun _ _ => rfl⟩ items

theorem writtenMembers_eq (members : List (String × Json)) :
    writtenMembers members = members.map fun m => (m.1, m.2.written) :=
  Mapped.eq ⟨rfl, fun _ _ => rfl⟩ members

/-! ### Strings -/

theorem hexDigit_spelled {n : Nat} (small : n < 16) : HexDigit (hexDigit n) n := by
  rw [hexDigit]
  split
  · rename_i digit
    exact .digit digit
  · rename_i letter
    obtain ⟨m, rfl⟩ := Nat.exists_eq_add_of_le' (Nat.le_of_not_lt letter)
    have lower := HexDigit.lower (n := m) (by omega)
    have code : 87 + (m + 10) = 'a'.toNat + m := by
      have : 'a'.toNat = 97 := rfl
      omega
    rwa [code]

theorem spelling_escapeChar (c : Char) : Spelling c (escapeChar c) := by
  have byName {e : Char} (listed : (e, c) ∈ named) : Spelling c ['\\', e] := .escape fun rest => .name listed rest
  unfold escapeChar
  -- seven characters have a name
  iterate 7
    split
    · exact byName (by simp [named, *])
  split
  · rename_i control
    refine .escape fun rest => ?_
    have unit : CodeUnit _ _ rest :=
      .intro (.digit (n := 0) (by decide)) (.digit (n := 0) (by decide))
        (hexDigit_spelled (n := c.toNat / 16) (by omega)) (hexDigit_spelled (n := c.toNat % 16) (by omega)) rest
    have value : ((0 * 16 + 0) * 16 + c.toNat / 16) * 16 + c.toNat % 16 = c.toNat := by omega
    rw [value] at unit
    have escaped := Escape.code unit (Or.inl (by omega))
    rwa [Char.ofNat_toNat] at escaped
  · rename_i quote backslash _ _ _ _ _ control
    exact .plain ⟨Nat.le_of_not_lt control, quote, backslash⟩

/-- Characters that are spelled one by one between quotes. -/
theorem content_flatMap {escape : Char → List Char} (each : ∀ c, Spelling c (escape c)) (s : String) (rest : Text) :
    ∃ t, ('"' :: s.toList.flatMap escape ++ ['"']).map .char ++ rest = .char '"' :: t ∧ Content t s.toList rest := by
  refine ⟨(s.toList.flatMap escape).map .char ++ .char '"' :: rest, by simp, ?_⟩
  induction s.toList with
  | nil => exact .close rest
  | cons c cs ih =>
    rw [List.flatMap_cons, List.map_append, List.append_assoc]
    exact (each c).content ih

theorem content_quote (s : String) (rest : Text) :
    ∃ t, (quote s).map .char ++ rest = .char '"' :: t ∧ Content t s.toList rest :=
  content_flatMap spelling_escapeChar s rest

/-! ### Values -/

/-- The grammar finds `d` in these characters, whatever stands behind them. -/
def SpelledBy (d : Json) (cs : List Char) : Prop := ∀ rest, Value (cs.map .char ++ rest) d.written rest

def Blank (cs : List Char) : Prop := ∀ c ∈ cs, c = ' ' ∨ c = '\n' ∨ c = '\t' ∨ c = '\r'

theorem blanks_of_blank {cs : List Char} (blank : Blank cs) (t : Text) : Blanks (cs.map .char ++ t) t := by
  induction cs with
  | nil => exact .none t
  | cons c cs ih =>
    obtain ⟨here, blank⟩ := List.forall_mem_cons.mp blank
    exact .cons here (ih blank)

theorem blank_nil : Blank [] := nofun

theorem spelled_string {quoted : List Char} {s : String}
    (content : ∀ rest, ∃ t, quoted.map .char ++ rest = .char '"' :: t ∧ Content t s.toList rest) :
    (Json.string s).SpelledBy quoted := by
  intro rest
  obtain ⟨t, opens, content⟩ := content rest
  have value := Value.string content
  rwa [String.ofList_toList, ← opens] at value

theorem spelled_number {n : Number} (whole : n.Whole) : (Json.number n).SpelledBy n.chars := by
  intro rest
  exact .number (Numeral.numeral_of_read (Numeral.read_chars whole)) rest

/-- How a printer writes strings and the parts of a container, with the blanks that it puts in front of each of them,
behind a colon and in front of the last bracket. -/
structure Style where
  quote : String → List Char
  gap : List Char
  space : List Char
  back : List Char
  content : ∀ s rest, ∃ t, (quote s).map .char ++ rest = .char '"' :: t ∧ Content t s.toList rest
  blankGap : Blank gap
  blankSpace : Blank space
  blankBack : Blank back

namespace Style

variable (style : Style) (print : Json → List Char)

def items (ds : List Json) : List Char := ds.flatMap fun d => ',' :: style.gap ++ print d

def member (m : String × Json) : List Char := style.quote m.1 ++ ':' :: style.space ++ print m.2

def members (ms : List (String × Json)) : List Char := ms.flatMap fun m => ',' :: style.gap ++ style.member print m

variable {print}

theorem separated_items {d : Json} {ds : List Json} (each : ∀ e ∈ d :: ds, e.SpelledBy (print e)) (rest : Text) :
    Separated Value ((print d ++ style.items print ds).map .char ++ rest) (writtenItems (d :: ds)) rest := by
  induction ds generalizing d with
  | nil =>
    obtain ⟨here, -⟩ := List.forall_mem_cons.mp each
    rw [items, List.flatMap_nil, List.append_nil]
    exact .one (here rest)
  | cons e es ih =>
    obtain ⟨here, each⟩ := List.forall_mem_cons.mp each
    have behind := blanks_of_blank style.blankGap ((print e ++ style.items print es).map .char ++ rest)
    have pieces := Separated.cons (here _) (.none _) behind (ih each)
    simpa [items, writtenItems] using pieces

theorem member_spelled {m : String × Json} (spelled : m.2.SpelledBy (print m.2)) (rest : Text) :
    Member Value ((style.member print m).map .char ++ rest) (m.1, m.2.written) rest := by
  obtain ⟨t, opens, content⟩ := style.content m.1 ((':' :: style.space ++ print m.2).map .char ++ rest)
  have behind := blanks_of_blank style.blankSpace ((print m.2).map .char ++ rest)
  rw [List.map_append, List.append_assoc] at content
  have member := Member.intro content (.none _) behind (spelled rest)
  rw [String.ofList_toList, ← opens] at member
  simpa [Style.member] using member

theorem separated_members {m : String × Json} {ms : List (String × Json)}
    (each : ∀ n ∈ m :: ms, n.2.SpelledBy (print n.2)) (rest : Text) :
    Separated (Member Value) ((style.member print m ++ style.members print ms).map .char ++ rest)
      (writtenMembers (m :: ms)) rest := by
  induction ms generalizing m with
  | nil =>
    obtain ⟨here, -⟩ := List.forall_mem_cons.mp each
    rw [members, List.flatMap_nil, List.append_nil]
    exact .one (style.member_spelled here rest)
  | cons n ns ih =>
    obtain ⟨here, each⟩ := List.forall_mem_cons.mp each
    have behind := blanks_of_blank style.blankGap ((style.member print n ++ style.members print ns).map .char ++ rest)
    have pieces := Separated.cons (style.member_spelled here _) (.none _) behind (ih each)
    simpa [members, writtenMembers] using pieces

theorem spelled_array {d : Json} {ds : List Json} (each : ∀ e ∈ d :: ds, e.SpelledBy (print e)) :
    (Json.array (d :: ds)).SpelledBy
      ('[' :: style.gap ++ (print d ++ style.items print ds) ++ style.back ++ [']']) := by
  intro rest
  have before := blanks_of_blank style.blankGap
    ((print d ++ style.items print ds).map .char ++ (style.back.map .char ++ .char ']' :: rest))
  have behind := blanks_of_blank style.blankBack (.char ']' :: rest)
  have value := Value.array before (style.separated_items each _) behind
  rw [written]
  simpa using value

theorem spelled_object {m : String × Json} {ms : List (String × Json)}
    (each : ∀ n ∈ m :: ms, n.2.SpelledBy (print n.2)) :
    (Json.object (m :: ms)).SpelledBy
      ('{' :: style.gap ++ (style.member print m ++ style.members print ms) ++ style.back ++ ['}']) := by
  intro rest
  have before := blanks_of_blank style.blankGap
    ((style.member print m ++ style.members print ms).map .char ++ (style.back.map .char ++ .char '}' :: rest))
  have behind := blanks_of_blank style.blankBack (.char '}' :: rest)
  have value := Value.object before (style.separated_members each _) behind
  rw [written]
  simpa using value

/-- The printer writes what stands `n` deep in the style `style n`. -/
structure Prints (style : Nat → Style) (print : Nat → Json → List Char) : Prop where
  null (n : Nat) : print n .null = ['n', 'u', 'l', 'l']
  true (n : Nat) : print n (.bool .true) = ['t', 'r', 'u', 'e']
  false (n : Nat) : print n (.bool .false) = ['f', 'a', 'l', 's', 'e']
  number (n : Nat) (x : Number) : print n (.number x) = x.chars
  string (n : Nat) (s : String) : print n (.string s) = (style n).quote s
  emptyArray (n : Nat) : print n (.array []) = ['[', ']']
  array (n : Nat) (d : Json) (ds : List Json) : print n (.array (d :: ds)) =
    '[' :: (style n).gap ++ (print (n + 1) d ++ (style n).items (print (n + 1)) ds) ++ (style n).back ++ [']']
  emptyObject (n : Nat) : print n (.object []) = ['{', '}']
  object (n : Nat) (m : String × Json) (ms : List (String × Json)) : print n (.object (m :: ms)) =
    '{' :: (style n).gap ++ ((style n).member (print (n + 1)) m ++ (style n).members (print (n + 1)) ms) ++
      (style n).back ++ ['}']

theorem Prints.spelled {style : Nat → Style} {print : Nat → Json → List Char} (prints : Prints style print) {d : Json}
    (whole : d.Numbers Number.Whole) (n : Nat) : d.SpelledBy (print n d) := by
  induction d using Json.induction generalizing n with
  | null =>
    rw [prints.null]
    exact .null
  | bool b =>
    cases b with
    | true =>
      rw [prints.true]
      exact .true
    | false =>
      rw [prints.false]
      exact .false
  | number x =>
    rw [prints.number]
    exact spelled_number whole
  | string s =>
    rw [prints.string]
    exact spelled_string ((style n).content s)
  | array items ih =>
    have each := fun d member => ih d member (numbers_array.mp whole d member) (n + 1)
    cases items with
    | nil =>
      rw [prints.emptyArray]
      exact fun rest => .emptyArray (.none _)
    | cons d ds =>
      rw [prints.array]
      exact (style n).spelled_array each
  | object members ih =>
    have each := fun m member => ih m member (numbers_object.mp whole m member) (n + 1)
    cases members with
    | nil =>
      rw [prints.emptyObject]
      exact fun rest => .emptyObject (.none _)
    | cons m ms =>
      rw [prints.object]
      exact (style n).spelled_object each

end Style

/-! ### The compact form -/

def compactStyle : Style := ⟨quote, [], [], [], content_quote, blank_nil, blank_nil, blank_nil⟩

theorem itemChars_eq (ds : List Json) : itemChars ds = compactStyle.items chars ds :=
  Joined.eq ⟨rfl, fun _ _ => rfl⟩ ds

theorem memberChars_eq (ms : List (String × Json)) : memberChars ms = compactStyle.members chars ms :=
  Joined.eq ⟨rfl, fun m ms => by simp [memberChars, Style.member, compactStyle]⟩ ms

theorem compact_prints : Style.Prints (fun _ => compactStyle) fun _ => chars where
  null _ := rfl
  true _ := rfl
  false _ := rfl
  number _ _ := rfl
  string _ _ := rfl
  emptyArray _ := rfl
  array _ d ds := by simp [chars, itemChars_eq, compactStyle]
  emptyObject _ := rfl
  object _ m ms := by simp [chars, memberChars_eq, Style.member, compactStyle]

/-! ### Characters of the compact form -/

/-- No control character stands below the space. -/
def Visible (cs : List Char) : Prop := ∀ c ∈ cs, 0x20 ≤ c.toNat

@[simp] theorem visible_nil : Visible [] := nofun

@[simp] theorem visible_cons {c : Char} {cs : List Char} : Visible (c :: cs) ↔ 0x20 ≤ c.toNat ∧ Visible cs :=
  List.forall_mem_cons

@[simp] theorem visible_append {cs ds : List Char} : Visible (cs ++ ds) ↔ Visible cs ∧ Visible ds :=
  List.forall_mem_append

@[simp] theorem visible_flatMap {α : Type} {f : α → List Char} {xs : List α} :
    Visible (xs.flatMap f) ↔ ∀ x ∈ xs, Visible (f x) := by
  simp only [Visible, List.mem_flatMap]
  constructor
  · exact fun all x member c inside => all c ⟨x, member, inside⟩
  · rintro each c ⟨x, member, inside⟩
    exact each x member c inside

theorem visible_hexDigit : ∀ n < 16, 0x20 ≤ (hexDigit n).toNat := by decide

theorem visible_escapeChar (c : Char) : Visible (escapeChar c) := by
  unfold escapeChar
  iterate 7
    split
    · simp
  split
  · rename_i control
    have high := visible_hexDigit (c.toNat / 16) (by omega)
    have low := visible_hexDigit (c.toNat % 16) (by omega)
    simp [high, low]
  · rename_i control
    simpa using control

theorem visible_quote (s : String) : Visible (quote s) := by
  simp [quote, visible_escapeChar]

theorem visible_number {n : Number} (whole : n.Whole) : Visible n.chars := by
  cases n with
  | float f => exact whole.elim
  | int i =>
    have digits : Visible (Nat.toDigits 10 i.natAbs) := by
      intro c member
      have digit := (Numeral.digits_toDigits i.natAbs).2 c member
      have : '0'.toNat = 48 := rfl
      have := (Char.isDigit_iff_toNat.mp digit).1
      omega
    rw [Number.chars]
    split
    · exact visible_cons.mpr ⟨by decide, digits⟩
    · exact digits

theorem visible_chars {d : Json} (whole : d.Numbers Number.Whole) : Visible d.chars := by
  induction d using Json.induction with
  | null => simp [chars]
  | bool b => cases b <;> simp [chars]
  | number n => exact visible_number whole
  | string s => exact visible_quote s
  | array items ih =>
    have each := fun d member => ih d member (numbers_array.mp whole d member)
    cases items with
    | nil => simp [chars]
    | cons d ds =>
      obtain ⟨here, each⟩ := List.forall_mem_cons.mp each
      simpa [chars, itemChars_eq, Style.items, compactStyle, here] using each
  | object members ih =>
    have each := fun m member => ih m member (numbers_object.mp whole m member)
    cases members with
    | nil => simp [chars]
    | cons m ms =>
      obtain ⟨here, each⟩ := List.forall_mem_cons.mp each
      simpa [chars, memberChars_eq, Style.members, Style.member, compactStyle, here, visible_quote] using each

/-! ### The indented form -/

theorem blank_newline (n : Nat) : Blank (newline n) := by
  intro c member
  rcases List.mem_cons.mp member with rfl | space
  · exact Or.inr (Or.inl rfl)
  · exact Or.inl (List.eq_of_mem_replicate space)

def indentedStyle (n : Nat) : Style :=
  ⟨quote, newline (n + 1), [' '], newline n, content_quote, blank_newline (n + 1), by simp [Blank], blank_newline n⟩

theorem indentedItems_eq (n : Nat) (ds : List Json) :
    indentedItems (n + 1) ds = (indentedStyle n).items (indentedChars (n + 1)) ds :=
  Joined.eq ⟨rfl, fun _ _ => rfl⟩ ds

theorem indentedMembers_eq (n : Nat) (ms : List (String × Json)) :
    indentedMembers (n + 1) ms = (indentedStyle n).members (indentedChars (n + 1)) ms :=
  Joined.eq ⟨rfl, fun m ms => by simp [indentedMembers, Style.member, indentedStyle]⟩ ms

theorem indented_prints : Style.Prints indentedStyle indentedChars where
  null _ := rfl
  true _ := rfl
  false _ := rfl
  number _ _ := rfl
  string _ _ := rfl
  emptyArray _ := rfl
  array n d ds := by simp [indentedChars, indentedItems_eq, indentedStyle]
  emptyObject _ := rfl
  object n m ms := by simp [indentedChars, indentedMembers_eq, Style.member, indentedStyle]

/-! ### Whole texts -/

/-- `t` holds the document `d` in some spelling, and nothing but blanks around it. -/
def Spells (d : Json) (t : Text) : Prop := ∃ s rest, Blanks t s ∧ Value s d.written rest ∧ Blanks rest []

theorem SpelledBy.spells {d : Json} {cs : List Char} (spelled : d.SpelledBy cs) : d.Spells (cs.map .char) := by
  have value := spelled []
  rw [List.append_nil] at value
  exact ⟨_, [], .none _, value, .none []⟩

theorem compact_spells {d : Json} (whole : d.Numbers Number.Whole) : d.Spells (Text.ofString d.compact) := by
  rw [Text.ofString, compact, String.toList_ofList]
  exact (compact_prints.spelled whole 0).spells

theorem indented_spells {d : Json} (whole : d.Numbers Number.Whole) : d.Spells (Text.ofString d.indented) := by
  rw [Text.ofString, indented, String.toList_ofList]
  exact (indented_prints.spelled whole 0).spells

theorem numbers_of_plain {P : Number → Prop} {d : Json} (plain : d.written.Plain) : d.Numbers P := by
  induction d using Json.induction with
  | null | bool | number => exact plain.elim
  | string s => trivial
  | array items ih =>
    rw [written, writtenItems_eq, Written.plain_array_iff, List.forall_mem_map] at plain
    exact numbers_array.mpr fun d member => ih d member (plain d member)
  | object members ih =>
    rw [written, writtenMembers_eq, Written.plain_object_iff, List.forall_mem_map] at plain
    exact numbers_object.mpr fun m member => ih m member (plain m member)

theorem spells_compact {d : Json} (plain : d.written.Plain) : d.Spells (Text.ofString d.compact) :=
  compact_spells (numbers_of_plain plain)

end Json

end LeafPlan
