import LeafPlan.Proofs.Itemwise
import LeafPlan.Text.Symbol

/-!
# The grammar of JSON

`Grammar.Value t w rest` says that the text `t` starts with one complete JSON value, that `w` is this value as
it is written there, and that `rest` stands behind it. Nothing is said about `rest`.
-/

namespace LeafPlan

/-- A value as a text writes it: a number by its numeral, and an object by all its members in the order of the
text, whether or not a key is repeated. -/
inductive Written where
  | null
  | bool (b : Bool)
  | number (numeral : List Char)
  | string (s : String)
  | array (items : List Written)
  | object (members : List (String × Written))

namespace Written

theorem induction {P : Written → Prop} (null : P .null) (bool : ∀ b, P (.bool b)) (number : ∀ n, P (.number n))
    (string : ∀ s, P (.string s)) (array : ∀ items, (∀ w ∈ items, P w) → P (.array items))
    (object : ∀ members, (∀ m ∈ members, P m.2) → P (.object members)) (w : Written) : P w := by
  refine @Written.rec P (fun items => ∀ w ∈ items, P w) (fun members => ∀ m ∈ members, P m.2) (fun m => P m.2)
    null bool number string array object ?_ ?_ ?_ ?_ ?_ w
  · exact fun w member => nomatch member
  · exact fun w items here below => List.forall_mem_cons.mpr ⟨here, below⟩
  · exact fun m member => nomatch member
  · exact fun m members here below => List.forall_mem_cons.mpr ⟨here, below⟩
  · exact fun k w here => here

mutual

/-- How deep arrays and objects are nested. -/
def depth : Written → Nat
  | .array items => depthItems items + 1
  | .object members => depthMembers members + 1
  | _ => 0

def depthItems : List Written → Nat
  | [] => 0
  | w :: ws => max w.depth (depthItems ws)

def depthMembers : List (String × Written) → Nat
  | [] => 0
  | (_, w) :: ms => max w.depth (depthMembers ms)

end

theorem depthItems_le_iff {items : List Written} {n : Nat} :
    depthItems items ≤ n ↔ ∀ w ∈ items, w.depth ≤ n :=
  Deepest.le_iff ⟨rfl, fun _ _ => rfl⟩

theorem depthMembers_le_iff {members : List (String × Written)} {n : Nat} :
    depthMembers members ≤ n ↔ ∀ m ∈ members, m.2.depth ≤ n :=
  Deepest.le_iff ⟨rfl, fun _ _ => rfl⟩

theorem depth_array_le_iff {items : List Written} {n : Nat} :
    (Written.array items).depth ≤ n + 1 ↔ ∀ w ∈ items, w.depth ≤ n := by
  rw [depth, Nat.succ_le_succ_iff, depthItems_le_iff]

theorem depth_object_le_iff {members : List (String × Written)} {n : Nat} :
    (Written.object members).depth ≤ n + 1 ↔ ∀ m ∈ members, m.2.depth ≤ n := by
  rw [depth, Nat.succ_le_succ_iff, depthMembers_le_iff]

mutual

/-- All scalars in it are strings. -/
def Plain : Written → Prop
  | .string _ => True
  | .array items => PlainItems items
  | .object members => PlainMembers members
  | _ => False

def PlainItems : List Written → Prop
  | [] => True
  | w :: ws => w.Plain ∧ PlainItems ws

def PlainMembers : List (String × Written) → Prop
  | [] => True
  | (_, w) :: ms => w.Plain ∧ PlainMembers ms

end

theorem plain_array_iff {items : List Written} : (Written.array items).Plain ↔ ∀ w ∈ items, w.Plain := by
  rw [Plain]
  exact Itemwise.iff ⟨trivial, fun _ _ => Iff.rfl⟩

theorem plain_object_iff {members : List (String × Written)} :
    (Written.object members).Plain ↔ ∀ m ∈ members, m.2.Plain := by
  rw [Plain]
  exact Itemwise.iff ⟨trivial, fun _ _ => Iff.rfl⟩

end Written

namespace Grammar

/-- Only blanks stand in front of `rest`. -/
inductive Blanks : Text → Text → Prop
  | none (rest : Text) : Blanks rest rest
  | cons {c : Char} {t rest : Text} (blank : c = ' ' ∨ c = '\n' ∨ c = '\t' ∨ c = '\r') (more : Blanks t rest) :
    Blanks (.char c :: t) rest

/-! ### Numerals -/

def Digits (cs : List Char) : Prop := cs ≠ [] ∧ ∀ c ∈ cs, c.isDigit = true

def Fraction (cs : List Char) : Prop := cs = [] ∨ ∃ digits, Digits digits ∧ cs = '.' :: digits

def Exponent (cs : List Char) : Prop :=
  cs = [] ∨ ∃ e sign digits, (e = 'e' ∨ e = 'E') ∧ (sign = [] ∨ sign = ['+'] ∨ sign = ['-']) ∧ Digits digits ∧
    cs = e :: sign ++ digits

/-- A whole number does not start with a zero, unless it is zero. -/
inductive Numeral : List Char → Prop
  | intro {sign whole fraction exponent : List Char} (minus : sign = [] ∨ sign = ['-']) (digits : Digits whole)
    (leading : whole.head? = some '0' → whole = ['0']) (behindPoint : Fraction fraction)
    (scale : Exponent exponent) : Numeral (sign ++ whole ++ fraction ++ exponent)

/-- No numeral goes on with the text. -/
def Ends (rest : Text) : Prop :=
  ∀ c u, rest = .char c :: u → c.isDigit = false ∧ c ≠ '.' ∧ c ≠ 'e' ∧ c ≠ 'E'

/-! ### Strings -/

inductive HexDigit : Char → Nat → Prop
  | digit {n : Nat} (small : n < 10) : HexDigit (Char.ofNat ('0'.toNat + n)) n
  | lower {n : Nat} (small : n < 6) : HexDigit (Char.ofNat ('a'.toNat + n)) (n + 10)
  | upper {n : Nat} (small : n < 6) : HexDigit (Char.ofNat ('A'.toNat + n)) (n + 10)

/-- Four hexadecimal digits. -/
inductive CodeUnit : Text → Nat → Text → Prop
  | intro {a b c d : Char} {w x y z : Nat} (first : HexDigit a w) (second : HexDigit b x) (third : HexDigit c y)
    (fourth : HexDigit d z) (rest : Text) :
    CodeUnit (.char a :: .char b :: .char c :: .char d :: rest) (((w * 16 + x) * 16 + y) * 16 + z) rest

/-- The characters that have a letter or themselves as the name behind a backslash. -/
def named : List (Char × Char) :=
  [('"', '"'), ('\\', '\\'), ('/', '/'), ('b', '\x08'), ('f', '\x0c'), ('n', '\n'), ('r', '\r'), ('t', '\t')]

/-- What stands behind a backslash: a name, or one or two units of the character's code in UTF-16. -/
inductive Escape : Text → Char → Text → Prop
  | name {e c : Char} (listed : (e, c) ∈ named) (rest : Text) : Escape (.char e :: rest) c rest
  | code {t rest : Text} {n : Nat} (unit : CodeUnit t n rest) (single : n < 0xD800 ∨ 0xE000 ≤ n) :
    Escape (.char 'u' :: t) (Char.ofNat n) rest
  | pair {t u rest : Text} {m n : Nat} (high : CodeUnit t m (.char '\\' :: .char 'u' :: u))
    (leads : 0xD800 ≤ m ∧ m < 0xDC00) (low : CodeUnit u n rest) (trails : 0xDC00 ≤ n ∧ n < 0xE000) :
    Escape (.char 'u' :: t) (Char.ofNat (0x10000 + (m - 0xD800) * 0x400 + (n - 0xDC00))) rest

/-- The characters of a string, from behind its first quote on. -/
inductive Content : Text → List Char → Text → Prop
  | close (rest : Text) : Content (.char '"' :: rest) [] rest
  | plain {c : Char} {t rest : Text} {cs : List Char} (bare : 0x20 ≤ c.toNat ∧ c ≠ '"' ∧ c ≠ '\\')
    (more : Content t cs rest) : Content (.char c :: t) (c :: cs) rest
  | escape {t u rest : Text} {c : Char} {cs : List Char} (escaped : Escape t c u) (more : Content u cs rest) :
    Content (.char '\\' :: t) (c :: cs) rest

/-- The ways to write a character inside of a string: as it is, or escaped behind a backslash. -/
inductive Spelling (c : Char) : List Char → Prop
  | plain (bare : 0x20 ≤ c.toNat ∧ c ≠ '"' ∧ c ≠ '\\') : Spelling c [c]
  | escape {cs : List Char} (escaped : ∀ rest : Text, Escape (cs.map .char ++ rest) c rest) : Spelling c ('\\' :: cs)

theorem Spelling.content {c : Char} {written cs : List Char} {rest after : Text} (spelled : Spelling c written)
    (more : Content rest cs after) : Content (written.map .char ++ rest) (c :: cs) after := by
  cases spelled with
  | plain bare => exact .plain bare more
  | escape escaped => exact .escape (escaped rest) more

/-! ### Values -/

/-- One or more pieces with commas between them, and blanks around the commas. -/
inductive Separated {α : Type} (R : Text → α → Text → Prop) : Text → List α → Text → Prop
  | one {t rest : Text} {a : α} (piece : R t a rest) : Separated R t [a] rest
  | cons {s t u v rest : Text} {a : α} {as : List α} (piece : R s a t) (before : Blanks t (.char ',' :: u))
    (behind : Blanks u v) (more : Separated R v as rest) : Separated R s (a :: as) rest

inductive Member (V : Text → Written → Text → Prop) : Text → String × Written → Text → Prop
  | intro {t u v s rest : Text} {key : List Char} {w : Written} (name : Content t key u)
    (before : Blanks u (.char ':' :: v)) (behind : Blanks v s) (value : V s w rest) :
    Member V (.char '"' :: t) (String.ofList key, w) rest

inductive Value : Text → Written → Text → Prop
  | null (rest : Text) : Value ("null".toList.map .char ++ rest) .null rest
  | true (rest : Text) : Value ("true".toList.map .char ++ rest) (.bool true) rest
  | false (rest : Text) : Value ("false".toList.map .char ++ rest) (.bool false) rest
  | number {cs : List Char} (numeral : Numeral cs) (rest : Text) : Value (cs.map .char ++ rest) (.number cs) rest
  | string {t rest : Text} {cs : List Char} (content : Content t cs rest) :
    Value (.char '"' :: t) (.string (String.ofList cs)) rest
  | emptyArray {t rest : Text} (inside : Blanks t (.char ']' :: rest)) : Value (.char '[' :: t) (.array []) rest
  | array {t s u rest : Text} {items : List Written} (before : Blanks t s) (each : Separated Value s items u)
    (behind : Blanks u (.char ']' :: rest)) : Value (.char '[' :: t) (.array items) rest
  | emptyObject {t rest : Text} (inside : Blanks t (.char '}' :: rest)) : Value (.char '{' :: t) (.object []) rest
  | object {t s u rest : Text} {members : List (String × Written)} (before : Blanks t s)
    (each : Separated (Member Value) s members u) (behind : Blanks u (.char '}' :: rest)) :
    Value (.char '{' :: t) (.object members) rest

/-! ### Pieces taken off a text -/

theorem escape_shrinks {t rest : Text} {c : Char} (escaped : Escape t c rest) : rest.length < t.length := by
  have shorter {t rest : Text} {n : Nat} (unit : CodeUnit t n rest) : rest.length + 4 = t.length := by
    cases unit
    rfl
  cases escaped with
  | name listed => exact Nat.lt_succ_self _
  | code unit single =>
    have := shorter unit
    simp only [List.length_cons]
    omega
  | pair high leads low trails =>
    have := shorter high
    have := shorter low
    simp only [List.length_cons] at *
    omega

theorem content_shrinks {t rest : Text} {cs : List Char} (content : Content t cs rest) :
    cs.length + rest.length < t.length := by
  induction content with
  | close rest => simp
  | plain bare more ih =>
    simp only [List.length_cons]
    omega
  | escape escaped more ih =>
    have := escape_shrinks escaped
    simp only [List.length_cons]
    omega

variable {α : Type} {R : Text → α → Text → Prop}

theorem blanks_length_le {t s : Text} (blanks : Blanks t s) : s.length ≤ t.length := by
  induction blanks with
  | none => exact Nat.le_refl _
  | cons blank more ih => exact Nat.le_succ_of_le ih

theorem ends_char {c : Char} (apart : c.isDigit = false ∧ c ≠ '.' ∧ c ≠ 'e' ∧ c ≠ 'E') (rest : Text) :
    Ends (.char c :: rest) := by
  intro d u same
  obtain rfl := Symbol.char.inj (List.cons.inj same).1
  exact apart

theorem ends_of_blanks {t s : Text} (blanks : Blanks t s) (ends : Ends s) : Ends t := by
  cases blanks with
  | none => exact ends
  | cons blank more => rcases blank with rfl | rfl | rfl | rfl <;> exact ends_char (by decide) _

/-- What stands between pieces ends a numeral, so pieces may rely on that. -/
theorem separated_iff_of_ends {S : Text → α → Text → Prop} {P : α → Prop}
    (apart : ∀ {t a rest}, R t a rest → S t a rest ∧ P a)
    (join : ∀ {t a rest}, S t a rest → P a → Ends rest → R t a rest) {t rest : Text} {as : List α} (ends : Ends rest) :
    Separated R t as rest ↔ Separated S t as rest ∧ ∀ a ∈ as, P a := by
  constructor
  · intro pieces
    induction pieces with
    | one piece => exact ⟨.one (apart piece).1, List.forall_mem_singleton.mpr (apart piece).2⟩
    | cons piece before behind more ih =>
      obtain ⟨below, each⟩ := ih ends
      exact ⟨.cons (apart piece).1 before behind below, List.forall_mem_cons.mpr ⟨(apart piece).2, each⟩⟩
  · rintro ⟨pieces, each⟩
    induction pieces with
    | one piece => exact .one (join piece (List.forall_mem_singleton.mp each) ends)
    | cons piece before behind more ih =>
      obtain ⟨here, each⟩ := List.forall_mem_cons.mp each
      have ended := ends_of_blanks before (ends_char (by decide) _)
      exact .cons (join piece here ended) before behind (ih ends each)

theorem separated_first {t rest : Text} {as : List α} (pieces : Separated R t as rest) : ∃ a u, R t a u := by
  cases pieces with
  | one piece => exact ⟨_, _, piece⟩
  | cons piece => exact ⟨_, _, piece⟩

theorem separated_length_le {t rest : Text} {as : List α} (pieces : Separated R t as rest)
    (shrinks : ∀ a ∈ as, ∀ t rest, R t a rest → rest.length < t.length) : as.length + rest.length ≤ t.length := by
  induction pieces with
  | one piece =>
    have := shrinks _ List.mem_cons_self _ _ piece
    simp only [List.length_singleton]
    omega
  | cons piece before behind more ih =>
    obtain ⟨here, shrinks⟩ := List.forall_mem_cons.mp shrinks
    have := here _ _ piece
    have := blanks_length_le before
    have := blanks_length_le behind
    have := ih shrinks
    simp only [List.length_cons] at *
    omega

theorem member_shrinks {V : Text → Written → Text → Prop} {t rest : Text} {m : String × Written}
    (member : Member V t m rest) (shrinks : ∀ t rest, V t m.2 rest → rest.length < t.length) :
    rest.length < t.length := by
  obtain ⟨name, before, behind, value⟩ := member
  have := shrinks _ _ value
  have := content_shrinks name
  have := blanks_length_le before
  have := blanks_length_le behind
  simp only [List.length_cons] at *
  omega

theorem value_shrinks {t rest : Text} {w : Written} (value : Value t w rest) : rest.length < t.length := by
  induction w using Written.induction generalizing t rest with
  | null =>
    cases value
    simp only [List.length_append, List.length_map]
    exact Nat.lt_add_of_pos_left (by decide)
  | bool b =>
    cases value
    all_goals
      simp only [List.length_append, List.length_map]
      exact Nat.lt_add_of_pos_left (by decide)
  | number n =>
    cases value with
    | number numeral =>
      obtain ⟨-, digits, -⟩ := numeral
      have := List.length_pos_iff.mpr digits.1
      simp only [List.length_append, List.length_map]
      omega
  | string s =>
    cases value with
    | string content =>
      have := content_shrinks content
      simp only [List.length_cons]
      omega
  | array items ih =>
    cases value with
    | emptyArray inside =>
      have := blanks_length_le inside
      simp only [List.length_cons] at *
      omega
    | array before each behind =>
      have := separated_length_le each fun w member t rest => ih w member
      have := blanks_length_le before
      have := blanks_length_le behind
      simp only [List.length_cons] at *
      omega
  | object members ih =>
    cases value with
    | emptyObject inside =>
      have := blanks_length_le inside
      simp only [List.length_cons] at *
      omega
    | object before each behind =>
      have := separated_length_le each fun m member t rest inside =>
        member_shrinks inside fun t rest => ih m member
      have := blanks_length_le before
      have := blanks_length_le behind
      simp only [List.length_cons] at *
      omega

end Grammar

end LeafPlan
