import LeafPlan.Proofs.Json.Reading
import Mathlib.Data.List.Chain

/-!
# One value at most

Two values that the grammar finds in front of one text are the same, unless both are numbers and one of them goes on
where the other ends. So a text is the spelling of one written value at most (`Grammar.fills_unique`), and it
starts with one value at most if that value has no numbers in it (`Grammar.front_unique`).
-/

namespace LeafPlan.Grammar

/-! ### Blanks and strings -/

theorem blanks_unique {t u v : Text} {c d : Char} (solid : (Symbol.char c).isBlank = false)
    (solid' : (Symbol.char d).isBlank = false) (blanks : Blanks t (.char c :: u)) (blanks' : Blanks t (.char d :: v)) :
    c = d ∧ u = v := by
  have same := (Text.skipBlanks_eq_iff solid).mpr blanks
  rw [(Text.skipBlanks_eq_iff solid').mpr blanks'] at same
  obtain ⟨first, behind⟩ := List.cons.inj same
  exact ⟨(Symbol.char.inj first).symm, behind.symm⟩

theorem content_unique {t rest rest' : Text} {cs ds : List Char} (content : Content t cs rest)
    (content' : Content t ds rest') : cs = ds ∧ rest = rest' := by
  have read := Quoted.read_eq_ok_iff.mpr ⟨cs, rfl, content⟩
  rw [Quoted.read_eq_ok_iff.mpr ⟨ds, rfl, content'⟩] at read
  obtain ⟨same, behind⟩ := Prod.mk.inj (Except.ok.inj read)
  exact ⟨(String.ofList_injective same).symm, behind.symm⟩

/-! ### Numerals -/

/-- What may stand behind a digit inside of a numeral. -/
def GoesOn (c : Char) : Prop := c.isDigit = true ∨ c = '.' ∨ c = 'e' ∨ c = 'E'

def Adjacent (c d : Char) : Prop := c.isDigit = true → GoesOn d

theorem adjacent_of_goesOn {cs : List Char} (each : ∀ c ∈ cs, GoesOn c) : cs.IsChain Adjacent := by
  induction cs with
  | nil => exact .nil
  | cons c cs ih =>
    obtain ⟨-, each⟩ := List.forall_mem_cons.mp each
    exact (ih each).cons fun d next _ => each d (List.mem_of_mem_head? next)

theorem adjacent_cons {c : Char} {cs : List Char} (other : c.isDigit = false) (chain : cs.IsChain Adjacent) :
    (c :: cs).IsChain Adjacent :=
  chain.cons fun _ _ digit => absurd (other.symm.trans digit) Bool.false_ne_true

theorem adjacent_of_exponent {cs : List Char} (exponent : Exponent cs) :
    cs.IsChain Adjacent ∧ ∀ c ∈ cs.head?, GoesOn c := by
  rcases exponent with rfl | ⟨e, sign, digits, letter, signs, each, rfl⟩
  · exact ⟨.nil, nofun⟩
  · have unsigned : digits.IsChain Adjacent := adjacent_of_goesOn fun d member => Or.inl (each.2 d member)
    have signed : (sign ++ digits).IsChain Adjacent := by
      rcases signs with rfl | rfl | rfl
      · exact unsigned
      · exact adjacent_cons rfl unsigned
      · exact adjacent_cons rfl unsigned
    refine ⟨adjacent_cons ?_ signed, fun c first => ?_⟩
    · rcases letter with rfl | rfl <;> rfl
    · obtain rfl := Option.some.inj first
      exact Or.inr (Or.inr letter)

theorem adjacent_of_numeral {cs : List Char} (numeral : Numeral cs) : cs.IsChain Adjacent := by
  obtain @⟨sign, whole, fraction, exponent, minus, number, -, behindPoint, scale⟩ := numeral
  obtain ⟨scaled, letter⟩ := adjacent_of_exponent scale
  have digits {ds : List Char} (each : Digits ds) : ∀ d ∈ ds, GoesOn d := fun d member => Or.inl (each.2 d member)
  have fractional : ∀ d ∈ fraction, GoesOn d := by
    rcases behindPoint with rfl | ⟨ds, each, rfl⟩
    · exact nofun
    · exact List.forall_mem_cons.mpr ⟨Or.inr (Or.inl rfl), digits each⟩
  have unsigned : (whole ++ fraction).IsChain Adjacent :=
    adjacent_of_goesOn (List.forall_mem_append.mpr ⟨digits number, fractional⟩)
  have signed : (sign ++ whole ++ fraction).IsChain Adjacent := by
    rcases minus with rfl | rfl
    · exact unsigned
    · exact adjacent_cons rfl unsigned
  exact signed.append scaled fun _ _ d first _ => letter d first

theorem last_of_digits {front digits : List Char} (each : Digits digits) :
    ∃ d, (front ++ digits).getLast? = some d ∧ d.isDigit = true :=
  ⟨digits.getLast each.1, (List.getLast?_append_of_ne_nil front each.1).trans (List.getLast?_eq_some_getLast each.1),
    each.2 _ (List.getLast_mem each.1)⟩

theorem last_of_numeral {cs : List Char} (numeral : Numeral cs) : ∃ d, cs.getLast? = some d ∧ d.isDigit = true := by
  obtain @⟨sign, whole, fraction, exponent, -, number, -, behindPoint, scale⟩ := numeral
  rcases scale with rfl | ⟨e, s, digits, -, -, each, rfl⟩
  · rw [List.append_nil]
    rcases behindPoint with rfl | ⟨digits, each, rfl⟩
    · rw [List.append_nil]
      exact last_of_digits number
    · rw [List.append_cons]
      exact last_of_digits each
  · rw [← List.append_assoc]
    exact last_of_digits each

/-- A numeral does not go on where another one ends, if what follows does not go on either. -/
theorem numeral_not_longer {cs ds : List Char} {more rest : Text} (numeral : Numeral cs) (longer : Numeral ds)
    (split : ds.map Symbol.char = cs.map .char ++ more) (ends : Ends (more ++ rest)) : more = [] := by
  obtain ⟨front, tail, rfl, first, rfl⟩ := List.map_eq_append_iff.mp split
  obtain rfl : front = cs := List.map_injective_iff.mpr (fun _ _ => Symbol.char.inj) first
  cases tail with
  | nil => rfl
  | cons c tail =>
    obtain ⟨d, last, digit⟩ := last_of_numeral numeral
    have next : GoesOn c := (List.isChain_append.mp (adjacent_of_numeral longer)).2.2 d last c rfl digit
    obtain ⟨other, point, letter, capital⟩ := ends c _ rfl
    rcases next with same | same | same | same
    · exact absurd (other.symm.trans same) Bool.false_ne_true
    · exact (point same).elim
    · exact (letter same).elim
    · exact (capital same).elim

theorem numeral_unique {cs ds : List Char} {rest rest' : Text} (numeral : Numeral cs) (numeral' : Numeral ds)
    (ends : Ends rest) (ends' : Ends rest') (same : cs.map Symbol.char ++ rest = ds.map .char ++ rest') :
    cs = ds ∧ rest = rest' := by
  have equal {cs ds : List Char} {u v : Text} (chars : cs.map Symbol.char = ds.map .char ++ [])
      (behind : u = [] ++ v) : cs = ds ∧ u = v := by
    rw [List.append_nil] at chars
    exact ⟨List.map_injective_iff.mpr (fun _ _ => Symbol.char.inj) chars, behind⟩
  rcases List.append_eq_append_iff.mp same with ⟨more, longer, rfl⟩ | ⟨more, longer, rfl⟩
  · obtain rfl := numeral_not_longer numeral numeral' longer ends
    exact (equal longer rfl).imp Eq.symm id
  · obtain rfl := numeral_not_longer numeral' numeral longer ends'
    exact equal longer rfl

/-! ### Containers -/

section

variable {α : Type} {R : Text → α → Text → Prop}

/-- Pieces start with something else than a blank. -/
def Solid (R : Text → α → Text → Prop) : Prop :=
  ∀ t a rest, R t a rest → ∃ c u, t = .char c :: u ∧ (Symbol.char c).isBlank = false

theorem solid_member {V : Text → Written → Text → Prop} : Solid (Member V) := by
  rintro t m rest ⟨name, -, -, -⟩
  exact ⟨'"', _, rfl, rfl⟩

theorem solid_value : Solid Value := by
  intro t w rest value
  obtain ⟨c, u, starts, solid, -⟩ := value_starts value
  exact ⟨c, u, starts, solid⟩

theorem start_unique (solid : Solid R) {t s s' rest rest' : Text} {a b : α} (blanks : Blanks t s) (piece : R s a rest)
    (blanks' : Blanks t s') (piece' : R s' b rest') : s = s' := by
  obtain ⟨c, u, rfl, first⟩ := solid s a rest piece
  obtain ⟨d, v, rfl, first'⟩ := solid s' b rest' piece'
  obtain ⟨rfl, rfl⟩ := blanks_unique first first' blanks blanks'
  rfl

/-- The piece in front of a text is `a` only, if what follows it ends a numeral. -/
def Only (R : Text → α → Text → Prop) (a : α) : Prop :=
  ∀ ⦃t b rest rest'⦄, R t a rest → R t b rest' → Ends rest → Ends rest' → a = b ∧ rest = rest'

variable {c : Char}

theorem separated_unique (solid : Solid R) (closes : c = ']' ∨ c = '}') {s t u rest rest' : Text} {as bs : List α}
    (only : ∀ a ∈ as, Only R a) (pieces : Separated R s as t) (closing : Blanks t (.char c :: rest))
    (pieces' : Separated R s bs u) (closing' : Blanks u (.char c :: rest')) : as = bs ∧ rest = rest' := by
  have bare : (Symbol.char c).isBlank = false := by rcases closes with rfl | rfl <;> rfl
  have ends (v : Text) : Ends (.char c :: v) := by rcases closes with rfl | rfl <;> exact ends_char (by decide) v
  have comma (v : Text) : Ends (.char ',' :: v) := ends_char (by decide) v
  -- behind a piece there is either a comma or the end
  have parts {t v w : Text} (closing : Blanks t (.char c :: v)) (more : Blanks t (.char ',' :: w)) : False := by
    obtain ⟨rfl, -⟩ := blanks_unique bare rfl closing more
    rcases closes with same | same <;> exact absurd same (by decide)
  induction pieces generalizing bs with
  | one piece =>
    have here := only _ List.mem_cons_self
    cases pieces' with
    | one piece' =>
      obtain ⟨rfl, rfl⟩ := here piece piece' (ends_of_blanks closing (ends _)) (ends_of_blanks closing' (ends _))
      exact ⟨rfl, (blanks_unique bare bare closing closing').2⟩
    | cons piece' before' =>
      obtain ⟨rfl, rfl⟩ := here piece piece' (ends_of_blanks closing (ends _)) (ends_of_blanks before' (comma _))
      exact (parts closing before').elim
  | cons piece before behind more ih =>
    obtain ⟨here, only⟩ := List.forall_mem_cons.mp only
    cases pieces' with
    | one piece' =>
      obtain ⟨rfl, rfl⟩ := here piece piece' (ends_of_blanks before (comma _)) (ends_of_blanks closing' (ends _))
      exact (parts closing' before).elim
    | cons piece' before' behind' more' =>
      obtain ⟨rfl, rfl⟩ := here piece piece' (ends_of_blanks before (comma _)) (ends_of_blanks before' (comma _))
      obtain ⟨-, rfl⟩ := blanks_unique rfl rfl before before'
      obtain ⟨a, v, next⟩ := separated_first more
      obtain ⟨b, w, next'⟩ := separated_first more'
      obtain rfl := start_unique solid behind next behind' next'
      obtain ⟨rfl, rfl⟩ := ih only closing more'
      exact ⟨rfl, rfl⟩

/-- What stands in a container up to its end. -/
def Inside (R : Text → α → Text → Prop) (c : Char) (t : Text) (as : List α) (rest : Text) : Prop :=
  (as = [] ∧ Blanks t (.char c :: rest)) ∨
    ∃ s u, Blanks t s ∧ Separated R s as u ∧ Blanks u (.char c :: rest)

theorem inside_unique (solid : Solid R) (closes : c = ']' ∨ c = '}')
    (opens : ∀ t a rest, R t a rest → ∀ u, t ≠ .char c :: u) {t rest rest' : Text} {as bs : List α}
    (only : ∀ a ∈ as, Only R a) (inside : Inside R c t as rest) (inside' : Inside R c t bs rest') :
    as = bs ∧ rest = rest' := by
  have bare : (Symbol.char c).isBlank = false := by rcases closes with rfl | rfl <;> rfl
  -- the end of the container is not the start of a piece
  have parts {s u v : Text} {cs : List α} (closing : Blanks t (.char c :: u)) (blanks : Blanks t s)
      (pieces : Separated R s cs v) : False := by
    obtain ⟨a, w, first⟩ := separated_first pieces
    obtain ⟨d, x, rfl, start⟩ := solid s a w first
    obtain ⟨rfl, -⟩ := blanks_unique bare start closing blanks
    exact opens _ a w first x rfl
  rcases inside with ⟨rfl, closing⟩ | ⟨s, u, blanks, pieces, closing⟩
  · rcases inside' with ⟨rfl, closing'⟩ | ⟨s', u', blanks', pieces', -⟩
    · exact ⟨rfl, (blanks_unique bare bare closing closing').2⟩
    · exact (parts closing blanks' pieces').elim
  · rcases inside' with ⟨rfl, closing'⟩ | ⟨s', u', blanks', pieces', closing'⟩
    · exact (parts closing' blanks pieces).elim
    · obtain ⟨a, v, first⟩ := separated_first pieces
      obtain ⟨b, w, first'⟩ := separated_first pieces'
      obtain rfl := start_unique solid blanks first blanks' first'
      exact separated_unique solid closes only pieces closing pieces' closing'

end

theorem only_member {m : String × Written} (only : Only Value m.2) : Only (Member Value) m := by
  intro t n rest rest' member member' ends ends'
  cases member with
  | intro name before behind value =>
  cases member' with
  | intro name' before' behind' value' =>
  obtain ⟨rfl, rfl⟩ := content_unique name name'
  obtain ⟨-, rfl⟩ := blanks_unique rfl rfl before before'
  obtain rfl := start_unique solid_value behind value behind' value'
  obtain ⟨rfl, rfl⟩ := only value value' ends ends'
  exact ⟨rfl, rfl⟩

/-! ### Values -/

/-- A value without what is in it. -/
def outer : Written → Written
  | .null => .null
  | .bool b => .bool b
  | .number _ => .number []
  | .string _ => .string ""
  | .array _ => .array []
  | .object _ => .object []

/-- What a value that starts with the character is from outside. -/
def outerOf (c : Char) : Written :=
  if c = 'n' then .null
  else if c = 't' then .bool true
  else if c = 'f' then .bool false
  else if c = '"' then .string ""
  else if c = '[' then .array []
  else if c = '{' then .object []
  else .number []

theorem outer_of_value {c : Char} {u rest : Text} {w : Written} (value : Value (.char c :: u) w rest) :
    outer w = outerOf c := by
  generalize start : Symbol.char c :: u = t at value
  cases value with
  | number numeral =>
    obtain ⟨d, ds, rfl, front⟩ := Numeral.numeral_starts numeral
    obtain rfl := Symbol.char.inj (List.cons.inj start).1
    rcases front with rfl | digit
    · rfl
    · have apart {d : Char} (letter : d.isDigit = false) : c ≠ d := by
        rintro rfl
        exact Bool.false_ne_true (letter.symm.trans digit)
      rw [outerOf, if_neg (apart rfl), if_neg (apart rfl), if_neg (apart rfl), if_neg (apart rfl), if_neg (apart rfl),
        if_neg (apart rfl)]
      rfl
  | _ =>
    obtain rfl := Symbol.char.inj (List.cons.inj start).1
    rfl

theorem outer_unique {t rest rest' : Text} {w v : Written} (value : Value t w rest) (value' : Value t v rest') :
    outer w = outer v := by
  obtain ⟨c, u, rfl, -⟩ := value_starts value
  exact (outer_of_value value).trans (outer_of_value value').symm

theorem value_null {t rest : Text} (value : Value t .null rest) : t = "null".toList.map .char ++ rest := by
  cases value
  rfl

theorem value_bool {t rest : Text} {b : Bool} (value : Value t (.bool b) rest) :
    t = (if b then "true" else "false").toList.map .char ++ rest := by
  cases value <;> rfl

theorem value_number {t rest : Text} {cs : List Char} (value : Value t (.number cs) rest) :
    Numeral cs ∧ t = cs.map .char ++ rest := by
  cases value with
  | number numeral => exact ⟨numeral, rfl⟩

theorem value_string {t rest : Text} {s : String} (value : Value t (.string s) rest) :
    ∃ u cs, t = .char '"' :: u ∧ s = String.ofList cs ∧ Content u cs rest := by
  cases value with
  | string content => exact ⟨_, _, rfl, rfl, content⟩

theorem value_array {t rest : Text} {ws : List Written} (value : Value t (.array ws) rest) :
    ∃ u, t = .char '[' :: u ∧ Inside Value ']' u ws rest := by
  cases value with
  | emptyArray inside => exact ⟨_, rfl, Or.inl ⟨rfl, inside⟩⟩
  | array before each behind => exact ⟨_, rfl, Or.inr ⟨_, _, before, each, behind⟩⟩

theorem value_object {t rest : Text} {ms : List (String × Written)} (value : Value t (.object ms) rest) :
    ∃ u, t = .char '{' :: u ∧ Inside (Member Value) '}' u ms rest := by
  cases value with
  | emptyObject inside => exact ⟨_, rfl, Or.inl ⟨rfl, inside⟩⟩
  | object before each behind => exact ⟨_, rfl, Or.inr ⟨_, _, before, each, behind⟩⟩

theorem value_not_bracket (t : Text) (w : Written) (rest : Text) (value : Value t w rest) (u : Text) :
    t ≠ .char ']' :: u := by
  rintro rfl
  obtain ⟨c, v, same, -, opens, -⟩ := value_starts value
  exact opens (Symbol.char.inj (List.cons.inj same).1).symm

theorem member_not_brace (t : Text) (m : String × Written) (rest : Text) (member : Member Value t m rest) (u : Text) :
    t ≠ .char '}' :: u := by
  cases member with
  | intro => exact fun same => absurd (Symbol.char.inj (List.cons.inj same).1) (by decide)

/-- Two values in front of one text are the same. If both are numbers, neither may go on behind its end. -/
theorem value_unique {t rest rest' : Text} {w v : Written} (value : Value t w rest) (value' : Value t v rest')
    (cut : ∀ cs ds, w = .number cs → v = .number ds → Ends rest ∧ Ends rest') : w = v ∧ rest = rest' := by
  have shape := outer_unique value value'
  induction w using Written.induction generalizing t v rest rest' with
  | null =>
    cases v with
    | null =>
      obtain rfl := value_null value
      exact ⟨rfl, List.append_cancel_left (value_null value')⟩
    | _ => cases shape
  | bool b =>
    cases v with
    | bool =>
      obtain rfl := Written.bool.inj shape
      obtain rfl := value_bool value
      exact ⟨rfl, List.append_cancel_left (value_bool value')⟩
    | _ => cases shape
  | number cs =>
    cases v with
    | number ds =>
      obtain ⟨ends, ends'⟩ := cut cs ds rfl rfl
      obtain ⟨numeral, rfl⟩ := value_number value
      obtain ⟨numeral', same⟩ := value_number value'
      obtain ⟨rfl, rfl⟩ := numeral_unique numeral numeral' ends ends' same
      exact ⟨rfl, rfl⟩
    | _ => cases shape
  | string s =>
    cases v with
    | string =>
      obtain ⟨u, cs, rfl, rfl, content⟩ := value_string value
      obtain ⟨u', ds, same, rfl, content'⟩ := value_string value'
      obtain ⟨-, rfl⟩ := List.cons.inj same
      obtain ⟨rfl, rfl⟩ := content_unique content content'
      exact ⟨rfl, rfl⟩
    | _ => cases shape
  | array items ih =>
    cases v with
    | array =>
      have only : ∀ w ∈ items, Only Value w := by
        intro w member t v rest rest' value value' ends ends'
        exact ih w member value value' (fun _ _ _ _ => ⟨ends, ends'⟩) (outer_unique value value')
      obtain ⟨u, rfl, inside⟩ := value_array value
      obtain ⟨u', same, inside'⟩ := value_array value'
      obtain ⟨-, rfl⟩ := List.cons.inj same
      obtain ⟨rfl, rfl⟩ := inside_unique solid_value (Or.inl rfl) value_not_bracket only inside inside'
      exact ⟨rfl, rfl⟩
    | _ => cases shape
  | object members ih =>
    cases v with
    | object =>
      have only : ∀ m ∈ members, Only (Member Value) m := by
        intro m member
        refine only_member fun t v rest rest' value value' ends ends' => ?_
        exact ih m member value value' (fun _ _ _ _ => ⟨ends, ends'⟩) (outer_unique value value')
      obtain ⟨u, rfl, inside⟩ := value_object value
      obtain ⟨u', same, inside'⟩ := value_object value'
      obtain ⟨-, rfl⟩ := List.cons.inj same
      obtain ⟨rfl, rfl⟩ := inside_unique solid_member (Or.inr rfl) member_not_brace only inside inside'
      exact ⟨rfl, rfl⟩
    | _ => cases shape

/-! ### Whole texts -/

/-- The text starts with the value, behind blanks. -/
def Front (t : Text) (w : Written) : Prop := ∃ s rest, Blanks t s ∧ Value s w rest

theorem front_unique {t : Text} {w v : Written} (front : Front t w) (plain : w.Plain) (other : Front t v) : w = v := by
  obtain ⟨s, rest, blanks, value⟩ := front
  obtain ⟨s', rest', blanks', value'⟩ := other
  obtain rfl := start_unique solid_value blanks value blanks' value'
  refine (value_unique value value' ?_).1
  rintro cs ds rfl
  exact plain.elim

/-- What holds of some value in front of the text holds of the only one there. -/
theorem exists_value_iff {t : Text} {w : Written} (front : Front t w) (plain : w.Plain) (P : Written → Prop) :
    (∃ s v rest, Blanks t s ∧ Value s v rest ∧ P v) ↔ P w := by
  constructor
  · rintro ⟨s, v, rest, blanks, value, here⟩
    obtain rfl := front_unique front plain ⟨s, rest, blanks, value⟩
    exact here
  · intro here
    obtain ⟨s, rest, blanks, value⟩ := front
    exact ⟨s, w, rest, blanks, value, here⟩

/-- The text holds the value and nothing but blanks around it. -/
def Fills (t : Text) (w : Written) : Prop := ∃ s rest, Blanks t s ∧ Value s w rest ∧ Blanks rest []

theorem Fills.front {t : Text} {w : Written} (fills : Fills t w) : Front t w := by
  obtain ⟨s, rest, blanks, value, -⟩ := fills
  exact ⟨s, rest, blanks, value⟩

theorem fills_unique {t : Text} {w v : Written} (fills : Fills t w) (other : Fills t v) : w = v := by
  obtain ⟨s, rest, blanks, value, behind⟩ := fills
  obtain ⟨s', rest', blanks', value', behind'⟩ := other
  obtain rfl := start_unique solid_value blanks value blanks' value'
  exact (value_unique value value' fun _ _ _ _ => ⟨ends_of_blanks behind nofun, ends_of_blanks behind' nofun⟩).1

end LeafPlan.Grammar
