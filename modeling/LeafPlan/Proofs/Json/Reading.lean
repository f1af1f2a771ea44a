import LeafPlan.Proofs.Json.Numerals
import LeafPlan.Proofs.Json.Strings

/-!
# Values are read by the grammar

`Outline.readValue_reads` shows that the reader gets through a value if and only if the grammar has that value in
front of the text, it is not nested too deep, and its numbers are in range. The outline then holds that value.
-/

namespace LeafPlan

open Grammar

/-! ### What outlines hold -/

/-- A scalar as it is written, a number in any of its spellings. -/
inductive Scalar.Holds : Scalar → Written → Prop
  | null : Holds .null .null
  | bool (b : Bool) : Holds (.bool b) (.bool b)
  | number {n : Number} {cs : List Char} (alone : Numeral.read (cs.map .char) = .ok (n, [])) :
    Holds (.number n) (.number cs)
  | string (s : String) : Holds (.string s) (.string s)

namespace Outline

mutual

/-- The reader got through, and found the value that is written so. -/
inductive Holds : Outline → Written → Prop
  | scalar {v : Scalar} {w : Written} (here : v.Holds w) (left : Nat) : Holds (.scalar v left) w
  | list (start : Nat) {items : Items} {ws : List Written} (inside : Items.Holds items ws) :
    Holds (.list start items) (.array ws)
  | object (start : Nat) {fields : Fields} {ms : List (String × Written)} (inside : Fields.Holds fields ms) :
    Holds (.object start fields) (.object ms)

inductive Items.Holds : Items → List Written → Prop
  | close (left : Nat) : Items.Holds (.close left) []
  | item {v : Outline} {w : Written} {next : Items} {ws : List Written} (here : Holds v w) (settled : Nat)
    (below : Items.Holds next ws) : Items.Holds (.item v settled next) (w :: ws)

inductive Fields.Holds : Fields → List (String × Written) → Prop
  | close : Fields.Holds .close []
  | field {v : Outline} {w : Written} {next : Fields} {ms : List (String × Written)} (key : String)
    (here : Holds v w) (below : Fields.Holds next ms) : Fields.Holds (.field key v next) ((key, w) :: ms)

end

mutual

/-- The reader was stopped in the value. -/
inductive Stopped : Outline → Prop
  | fault (f : Fault) : Stopped (.fault f)
  | list (start : Nat) {items : Items} (inside : Items.Stopped items) : Stopped (.list start items)
  | object (start : Nat) {fields : Fields} (inside : Fields.Stopped fields) : Stopped (.object start fields)
  | deepList (start : Nat) : Stopped (.deepList start)
  | deepObject (start : Nat) : Stopped (.deepObject start)

inductive Items.Stopped : Items → Prop
  | fault (f : Fault) : Items.Stopped (.fault f)
  | item {v : Outline} {w : Written} {next : Items} (here : v.Holds w) (settled : Nat)
    (below : Items.Stopped next) : Items.Stopped (.item v settled next)
  | broken {v : Outline} (inside : Stopped v) : Items.Stopped (.broken v)

inductive Fields.Stopped : Fields → Prop
  | fault (f : Fault) : Fields.Stopped (.fault f)
  | bare (f : Fault) : Fields.Stopped (.bare f)
  | field {v : Outline} {w : Written} {next : Fields} (key : String) (here : v.Holds w)
    (below : Fields.Stopped next) : Fields.Stopped (.field key v next)
  | broken (key : String) {v : Outline} (inside : Stopped v) : Fields.Stopped (.broken key v)

end

end Outline

/-! ### Blanks -/

theorem Text.blanks_skipBlanks (t : Text) : Blanks t (skipBlanks t) := by
  induction t with
  | nil => exact .none []
  | cons s t ih =>
    rw [skipBlanks]
    split
    · rename_i blank
      simp only [Symbol.isBlank, Bool.or_eq_true, decide_eq_true_eq] at blank
      rcases blank with ((rfl | rfl) | rfl) | rfl
      all_goals exact .cons (by simp) ih
    · exact .none _

theorem Text.skipBlanks_eq_of_blanks {t s : Text} (blanks : Blanks t s) : skipBlanks t = skipBlanks s := by
  induction blanks with
  | none => rfl
  | cons blank more ih => rcases blank with rfl | rfl | rfl | rfl <;> exact ih

theorem Text.skipBlanks_eq_iff {t rest : Text} {c : Char} (solid : (Symbol.char c).isBlank = false) :
    skipBlanks t = .char c :: rest ↔ Blanks t (.char c :: rest) := by
  constructor
  · intro skipped
    rw [← skipped]
    exact blanks_skipBlanks t
  · intro blanks
    rw [skipBlanks_eq_of_blanks blanks, skipBlanks, solid]
    rfl

/-! ### Lists and objects -/

namespace Outline

/-- A reader was stopped, or it got through with `complete` true of what it found and of the text behind. -/
def Ended {α : Type} (stopped : α → Prop) (complete : α → Text → Prop) : α × Option Text → Prop
  | (a, none) => stopped a
  | (a, some rest) => complete a rest

/-- The reader gets through a value in front of which blanks may stand if and only if `R` has that value there. -/
structure Reads (value : Step) (R : Text → Written → Text → Prop) : Prop where
  finds : ∀ t, Ended Stopped (fun o rest => ∃ s w, Blanks t s ∧ R s w rest ∧ o.Holds w) (value t)
  takes : ∀ {t s w rest}, Blanks t s → R s w rest → ∃ o, value t = (o, some rest) ∧ o.Holds w

variable {value : Step} {R : Text → Written → Text → Prop}

/-- The items of a list from a text on, and the bracket behind them. -/
def ItemsIn (R : Text → Written → Text → Prop) (t : Text) (items : Items) (rest : Text) : Prop :=
  ∃ s ws u, Blanks t s ∧ Separated R s ws u ∧ Blanks u (.char ']' :: rest) ∧ items.Holds ws

theorem readItems_finds (reads : Reads value R) (fuel : Nat) (t : Text) :
    Ended Items.Stopped (ItemsIn R t) (readItems value fuel t) := by
  induction fuel generalizing t with
  | zero => exact .fault _
  | succ fuel ih =>
    have here := reads.finds t
    unfold readItems
    split
    · rename_i v found
      rw [found] at here
      exact .broken here
    · rename_i v after found
      rw [found] at here
      obtain ⟨s, w, blanks, piece, holds⟩ := here
      have stopped {next : Items} (below : next.Stopped) : Items.Stopped (.item v (settle after) next) :=
        .item holds _ below
      dsimp only
      split
      · exact stopped (.fault _)
      · rename_i rest closing
        exact ⟨s, [w], after, blanks, .one piece, (Text.skipBlanks_eq_iff rfl).mp closing, .item holds _ (.close _)⟩
      · rename_i following comma
        split
        · exact stopped (.fault _)
        · exact stopped (.fault _)
        · have more := ih following
          match result : readItems value fuel following with
          | (next, none) =>
            rw [result] at more
            exact stopped more
          | (next, some rest) =>
            rw [result] at more
            obtain ⟨x, ws, u, between, pieces, closing, below⟩ := more
            have separated := Separated.cons piece ((Text.skipBlanks_eq_iff rfl).mp comma) between pieces
            exact ⟨s, w :: ws, u, blanks, separated, closing, .item holds _ below⟩
      · exact stopped (.fault _)

section

variable (fuel : Nat) {t after u v rest : Text} {o : Outline}

theorem readItems_last (found : value t = (o, some after)) (closing : Blanks after (.char ']' :: rest)) :
    readItems value (fuel + 1) t = (.item o (settle after) (.close (Text.width rest)), some rest) := by
  rw [readItems, found]
  simp only [(Text.skipBlanks_eq_iff rfl).mpr closing]

theorem readItems_cons (found : value t = (o, some after)) (comma : Blanks after (.char ',' :: u)) {c : Char}
    (solid : (Symbol.char c).isBlank = false) (opens : c ≠ ']') (behind : Blanks u (.char c :: v)) :
    readItems value (fuel + 1) t =
      (.item o (settle after) (readItems value fuel u).1, (readItems value fuel u).2) := by
  rw [readItems, found]
  simp only [(Text.skipBlanks_eq_iff rfl).mpr comma, (Text.skipBlanks_eq_iff solid).mpr behind]
  split
  · rename_i ends
    cases ends
  · rename_i closes
    exact (opens (Symbol.char.inj (List.cons.inj closes).1)).elim
  · rfl

end

theorem readItems_of_separated (reads : Reads value R)
    (starts : ∀ s w rest, R s w rest → ∃ c u, s = .char c :: u ∧ (Symbol.char c).isBlank = false ∧ c ≠ ']')
    {s u rest : Text} {ws : List Written} (pieces : Separated R s ws u) (closing : Blanks u (.char ']' :: rest))
    {fuel : Nat} (enough : ws.length ≤ fuel) {t : Text} (blanks : Blanks t s) :
    ∃ items, readItems value fuel t = (items, some rest) ∧ items.Holds ws := by
  induction pieces generalizing fuel t with
  | one piece =>
    obtain ⟨fuel, rfl⟩ := Nat.exists_eq_add_one.mpr enough
    obtain ⟨o, read, holds⟩ := reads.takes blanks piece
    exact ⟨_, readItems_last _ read closing, .item holds _ (.close _)⟩
  | cons piece before behind more ih =>
    obtain ⟨fuel, rfl⟩ := Nat.exists_eq_add_one.mpr (Nat.zero_lt_of_lt enough)
    obtain ⟨o, read, holds⟩ := reads.takes blanks piece
    obtain ⟨items, readMore, below⟩ := ih closing (Nat.le_of_succ_le_succ enough) behind
    -- behind the comma the reader looks for a bracket, which starts no item
    obtain ⟨a, w, next⟩ := separated_first more
    obtain ⟨c, v, rfl, solid, opens⟩ := starts _ _ _ next
    have step := readItems_cons fuel read before solid opens behind
    rw [readMore] at step
    exact ⟨_, step, .item holds _ below⟩

/-- The inside of a list from behind its bracket on. -/
def ListIn (R : Text → Written → Text → Prop) (t : Text) (ws : List Written) (rest : Text) : Prop :=
  (ws = [] ∧ Blanks t (.char ']' :: rest)) ∨
    ∃ s u, Blanks t s ∧ Separated R s ws u ∧ Blanks u (.char ']' :: rest)

theorem readList_finds (reads : Reads value R) (t : Text) :
    Ended Items.Stopped (fun items rest => ∃ ws, ListIn R t ws rest ∧ items.Holds ws) (readList value t) := by
  unfold readList
  split
  · exact .fault _
  · rename_i rest closing
    exact ⟨[], Or.inl ⟨rfl, (Text.skipBlanks_eq_iff rfl).mp closing⟩, .close _⟩
  · have inside := readItems_finds reads (t.length + 1) t
    match result : readItems value (t.length + 1) t with
    | (items, none) =>
      rw [result] at inside
      exact inside
    | (items, some rest) =>
      rw [result] at inside
      obtain ⟨s, ws, u, blanks, pieces, closing, holds⟩ := inside
      exact ⟨ws, Or.inr ⟨s, u, blanks, pieces, closing⟩, holds⟩

theorem readList_takes (reads : Reads value R) (shrinks : ∀ s w rest, R s w rest → rest.length < s.length)
    (starts : ∀ s w rest, R s w rest → ∃ c u, s = .char c :: u ∧ (Symbol.char c).isBlank = false ∧ c ≠ ']')
    {t rest : Text} {ws : List Written} (inside : ListIn R t ws rest) :
    ∃ items, readList value t = (items, some rest) ∧ items.Holds ws := by
  rcases inside with ⟨rfl, closing⟩ | ⟨s, u, blanks, pieces, closing⟩
  · refine ⟨.close (Text.width rest), ?_, .close _⟩
    rw [readList]
    simp only [(Text.skipBlanks_eq_iff rfl).mpr closing]
  · obtain ⟨a, w, first⟩ := separated_first pieces
    obtain ⟨c, v, rfl, solid, opens⟩ := starts _ _ _ first
    have enough : ws.length ≤ t.length + 1 := by
      have := separated_length_le pieces fun a _ t rest => shrinks t a rest
      have := blanks_length_le blanks
      omega
    obtain ⟨items, read, holds⟩ := readItems_of_separated reads starts pieces closing enough blanks
    refine ⟨items, ?_, holds⟩
    unfold readList
    simp only [(Text.skipBlanks_eq_iff solid).mpr blanks]
    split
    · rename_i ends
      cases ends
    · rename_i closes
      exact (opens (Symbol.char.inj (List.cons.inj closes).1)).elim
    · exact read

/-- The members of an object from behind the quote of a key on, and the brace behind them. -/
def FieldsIn (R : Text → Written → Text → Prop) (t : Text) (fields : Fields) (rest : Text) : Prop :=
  ∃ ms u, Separated (Member R) (.char '"' :: t) ms u ∧ Blanks u (.char '}' :: rest) ∧ fields.Holds ms

theorem readFields_finds (reads : Reads value R) (fuel : Nat) (t : Text) :
    Ended Fields.Stopped (FieldsIn R t) (readFields value fuel t) := by
  induction fuel generalizing t with
  | zero => exact .fault _
  | succ fuel ih =>
    unfold readFields
    split
    · exact .fault _
    · rename_i key named keyRead
      obtain ⟨cs, rfl, content⟩ := Quoted.read_eq_ok_iff.mp keyRead
      split
      · exact .bare _
      · rename_i valued colon
        have here := reads.finds valued
        split
        · rename_i v found
          rw [found] at here
          exact .broken _ here
        · rename_i v after found
          rw [found] at here
          obtain ⟨s, w, blanks, piece, holds⟩ := here
          have member : Member R (.char '"' :: t) (String.ofList cs, w) after :=
            .intro content ((Text.skipBlanks_eq_iff rfl).mp colon) blanks piece
          have stopped {next : Fields} (below : next.Stopped) : Fields.Stopped (.field (String.ofList cs) v next) :=
            .field _ holds below
          dsimp only
          split
          · exact stopped (.fault _)
          · rename_i rest closing
            exact ⟨_, after, .one member, (Text.skipBlanks_eq_iff rfl).mp closing, .field _ holds .close⟩
          · rename_i following comma
            split
            · exact stopped (.fault _)
            · rename_i nextKey quote
              have more := ih nextKey
              match result : readFields value fuel nextKey with
              | (next, none) =>
                rw [result] at more
                exact stopped more
              | (next, some rest) =>
                rw [result] at more
                obtain ⟨ms, u, pieces, closing, below⟩ := more
                have between := (Text.skipBlanks_eq_iff rfl).mp quote
                have separated := Separated.cons member ((Text.skipBlanks_eq_iff rfl).mp comma) between pieces
                exact ⟨_, u, separated, closing, .field _ holds below⟩
            · exact stopped (.fault _)
            · exact stopped (.fault _)
          · exact stopped (.fault _)
      · exact .bare _

section

variable (fuel : Nat) {t after u v rest valued : Text} {o : Outline} {key : String}

theorem readFields_last (name : Quoted.read t = .ok (key, u)) (colon : Blanks u (.char ':' :: valued))
    (found : value valued = (o, some after)) (closing : Blanks after (.char '}' :: rest)) :
    readFields value (fuel + 1) t = (.field key o .close, some rest) := by
  rw [readFields, name]
  simp only [(Text.skipBlanks_eq_iff rfl).mpr colon, found, (Text.skipBlanks_eq_iff rfl).mpr closing]

theorem readFields_cons (name : Quoted.read t = .ok (key, u)) (colon : Blanks u (.char ':' :: valued))
    (found : value valued = (o, some after)) (comma : Blanks after (.char ',' :: v))
    (behind : Blanks v (.char '"' :: rest)) :
    readFields value (fuel + 1) t =
      (.field key o (readFields value fuel rest).1, (readFields value fuel rest).2) := by
  rw [readFields, name]
  simp only [(Text.skipBlanks_eq_iff rfl).mpr colon, found, (Text.skipBlanks_eq_iff rfl).mpr comma,
    (Text.skipBlanks_eq_iff rfl).mpr behind]

end

theorem readFields_of_separated (reads : Reads value R) {t u rest : Text} {ms : List (String × Written)}
    (pieces : Separated (Member R) (.char '"' :: t) ms u) (closing : Blanks u (.char '}' :: rest))
    {fuel : Nat} (enough : ms.length ≤ fuel) :
    ∃ fields, readFields value fuel t = (fields, some rest) ∧ fields.Holds ms := by
  generalize start : Symbol.char '"' :: t = s at pieces
  induction pieces generalizing fuel t with
  | one member =>
    obtain ⟨fuel, rfl⟩ := Nat.exists_eq_add_one.mpr enough
    obtain ⟨name, colon, blanks, piece⟩ := member
    obtain ⟨-, rfl⟩ := List.cons.inj start
    obtain ⟨o, read, holds⟩ := reads.takes blanks piece
    have named := Quoted.read_eq_ok_iff.mpr ⟨_, rfl, name⟩
    exact ⟨_, readFields_last _ named colon read closing, .field _ holds .close⟩
  | cons member before behind more ih =>
    obtain ⟨fuel, rfl⟩ := Nat.exists_eq_add_one.mpr (Nat.zero_lt_of_lt enough)
    obtain ⟨name, colon, blanks, piece⟩ := member
    obtain ⟨-, rfl⟩ := List.cons.inj start
    obtain ⟨o, read, holds⟩ := reads.takes blanks piece
    have named := Quoted.read_eq_ok_iff.mpr ⟨_, rfl, name⟩
    obtain ⟨m, w, next⟩ := separated_first more
    cases next with
    | intro =>
    obtain ⟨fields, readMore, below⟩ := ih closing (Nat.le_of_succ_le_succ enough) rfl
    have step := readFields_cons fuel named colon read before behind
    rw [readMore] at step
    exact ⟨_, step, .field _ holds below⟩

/-- The inside of an object from behind its brace on. -/
def ObjectIn (R : Text → Written → Text → Prop) (t : Text) (ms : List (String × Written)) (rest : Text) : Prop :=
  (ms = [] ∧ Blanks t (.char '}' :: rest)) ∨
    ∃ s u, Blanks t s ∧ Separated (Member R) s ms u ∧ Blanks u (.char '}' :: rest)

theorem readObject_finds (reads : Reads value R) (t : Text) :
    Ended Fields.Stopped (fun fields rest => ∃ ms, ObjectIn R t ms rest ∧ fields.Holds ms) (readObject value t) := by
  unfold readObject
  split
  · exact .fault _
  · rename_i rest closing
    exact ⟨[], Or.inl ⟨rfl, (Text.skipBlanks_eq_iff rfl).mp closing⟩, .close⟩
  · rename_i first quote
    have inside := readFields_finds reads (t.length + 1) first
    match result : readFields value (t.length + 1) first with
    | (fields, none) =>
      rw [result] at inside
      exact inside
    | (fields, some rest) =>
      rw [result] at inside
      obtain ⟨ms, u, pieces, closing, holds⟩ := inside
      exact ⟨ms, Or.inr ⟨_, u, (Text.skipBlanks_eq_iff rfl).mp quote, pieces, closing⟩, holds⟩
  · exact .fault _

theorem readObject_takes (reads : Reads value R) (shrinks : ∀ s w rest, R s w rest → rest.length < s.length)
    {t rest : Text} {ms : List (String × Written)} (inside : ObjectIn R t ms rest) :
    ∃ fields, readObject value t = (fields, some rest) ∧ fields.Holds ms := by
  rcases inside with ⟨rfl, closing⟩ | ⟨s, u, blanks, pieces, closing⟩
  · refine ⟨.close, ?_, .close⟩
    rw [readObject]
    simp only [(Text.skipBlanks_eq_iff rfl).mpr closing]
  · have enough : ms.length ≤ t.length + 1 := by
      have := separated_length_le pieces fun m _ t rest member => member_shrinks member fun t => shrinks t m.2
      have := blanks_length_le blanks
      omega
    obtain ⟨m, w, first⟩ := separated_first pieces
    cases first with
    | intro =>
    obtain ⟨fields, read, holds⟩ := readFields_of_separated reads pieces closing enough
    refine ⟨fields, ?_, holds⟩
    unfold readObject
    simp only [(Text.skipBlanks_eq_iff rfl).mpr blanks, read]

end Outline

/-! ### Scalars -/

theorem Grammar.value_starts {t rest : Text} {w : Written} (value : Value t w rest) :
    ∃ c u, t = .char c :: u ∧ (Symbol.char c).isBlank = false ∧ c ≠ ']' ∧ (w.depth = 0 → c ≠ '[' ∧ c ≠ '{') := by
  cases value with
  | number numeral =>
    obtain ⟨c, ds, rfl, starts⟩ := Numeral.numeral_starts numeral
    refine ⟨c, _, rfl, ?_⟩
    have apart {d : Char} (letter : d ≠ '-' ∧ d.isDigit = false) : c ≠ d := by
      rintro rfl
      exact starts.elim letter.1 fun digit => Bool.false_ne_true (letter.2.symm.trans digit)
    have solid : (Symbol.char c).isBlank = false := by
      simp only [Symbol.isBlank, Symbol.char.injEq, Bool.or_eq_false_iff, decide_eq_false_iff_not]
      exact ⟨⟨⟨apart (by decide), apart (by decide)⟩, apart (by decide)⟩, apart (by decide)⟩
    exact ⟨solid, apart (by decide), fun _ => ⟨apart (by decide), apart (by decide)⟩⟩
  | null | true | false => exact ⟨_, _, rfl, by decide⟩
  | string => exact ⟨_, _, rfl, by decide, by decide, fun _ => by decide⟩
  | emptyArray | array | emptyObject | object => exact ⟨_, _, rfl, by decide, by decide, nofun⟩

theorem Text.word_eq_ok_iff {w : List Char} {t rest : Text} : word w t = .ok rest ↔ t = w.map .char ++ rest := by
  induction w generalizing t with
  | nil => exact ⟨Except.ok.inj, congrArg _⟩
  | cons c w ih =>
    cases t with
    | nil => exact iff_of_false nofun nofun
    | cons s t =>
      rw [word, List.map_cons, List.cons_append, List.cons.injEq]
      split
      · rename_i same
        rw [ih]
        exact (and_iff_right same).symm
      · rename_i other
        exact iff_of_false nofun fun both => other both.1

namespace Scalar

/-- A scalar that is known by its first character, behind which the rest of a word must follow. -/
theorem word_eq_ok_iff {w : List Char} {t rest : Text} {u v : Scalar} :
    (Text.word w t >>= fun after => pure (u, after)) = .ok (v, rest) ↔ u = v ∧ t = w.map .char ++ rest := by
  rw [bind_eq_ok_iff]
  simp only [pure_eq_ok_iff, Prod.mk.injEq, Text.word_eq_ok_iff]
  constructor
  · rintro ⟨_, split, same, rfl⟩
    exact ⟨same, split⟩
  · rintro ⟨same, split⟩
    exact ⟨rest, split, same, rfl⟩

theorem read_number {t rest : Text} {n : Number} (found : Numeral.read t = .ok (n, rest)) :
    Scalar.read t = .ok (.number n, rest) := by
  obtain ⟨cs, rfl, numeral, -⟩ := Numeral.read_cuts t n rest found
  obtain ⟨c, ds, rfl, starts⟩ := Numeral.numeral_starts numeral
  unfold Scalar.read
  split
  · rename_i empty
    cases empty
  -- no letter and no quote starts a numeral
  iterate 4
    rename_i same
    obtain rfl := Symbol.char.inj (List.cons.inj same).1
    rcases starts with minus | digit
    · cases minus
    · cases digit
  · rename_i same
    obtain ⟨rfl, -⟩ := List.cons.inj same
    rw [if_pos, found]
    · rfl
    · rcases starts with rfl | digit
      · rfl
      · simp [Symbol.digit?_char digit]

theorem read_finds {t rest : Text} {v : Scalar} (read : Scalar.read t = .ok (v, rest)) :
    ∃ w, Value t w rest ∧ v.Holds w ∧ w.depth = 0 ∧ ∀ cs, w = .number cs → ∃ n, Numeral.read t = .ok (n, rest) := by
  unfold Scalar.read at read
  split at read
  · cases read
  · obtain ⟨rfl, rfl⟩ := word_eq_ok_iff.mp read
    exact ⟨_, .null _, .null, rfl, nofun⟩
  · obtain ⟨rfl, rfl⟩ := word_eq_ok_iff.mp read
    exact ⟨_, .true _, .bool _, rfl, nofun⟩
  · obtain ⟨rfl, rfl⟩ := word_eq_ok_iff.mp read
    exact ⟨_, .false _, .bool _, rfl, nofun⟩
  · obtain ⟨⟨s, after⟩, inside, same⟩ := bind_eq_ok_iff.mp read
    cases same
    obtain ⟨cs, rfl, content⟩ := Quoted.read_eq_ok_iff.mp inside
    exact ⟨_, .string content, .string _, rfl, nofun⟩
  · split at read
    · obtain ⟨⟨n, after⟩, found, same⟩ := bind_eq_ok_iff.mp read
      cases same
      obtain ⟨cs, split, numeral, further⟩ := Numeral.read_cuts _ n _ found
      have alone := further [] nofun
      rw [List.append_nil] at alone
      have value := Value.number numeral rest
      rw [← split] at value
      exact ⟨_, value, .number alone, rfl, fun _ _ => ⟨n, found⟩⟩
    · cases read

end Scalar

/-! ### Values -/

namespace Written

mutual

/-- All numbers in it are in range. -/
def Ranged : Written → Prop
  | .number cs => ∃ n, Numeral.read (cs.map .char) = .ok (n, [])
  | .array items => RangedItems items
  | .object members => RangedMembers members
  | _ => True

def RangedItems : List Written → Prop
  | [] => True
  | w :: ws => w.Ranged ∧ RangedItems ws

def RangedMembers : List (String × Written) → Prop
  | [] => True
  | (_, w) :: ms => w.Ranged ∧ RangedMembers ms

end

theorem ranged_array_iff {items : List Written} : (Written.array items).Ranged ↔ ∀ w ∈ items, w.Ranged := by
  rw [Ranged]
  exact Itemwise.iff ⟨trivial, fun _ _ => Iff.rfl⟩

theorem ranged_object_iff {members : List (String × Written)} :
    (Written.object members).Ranged ↔ ∀ m ∈ members, m.2.Ranged := by
  rw [Ranged]
  exact Itemwise.iff ⟨trivial, fun _ _ => Iff.rfl⟩

theorem Plain.ranged {w : Written} (plain : w.Plain) : w.Ranged := by
  induction w using Written.induction with
  | null | bool | number => exact plain.elim
  | string s => trivial
  | array items ih => exact ranged_array_iff.mpr fun w member => ih w member (plain_array_iff.mp plain w member)
  | object members ih => exact ranged_object_iff.mpr fun m member => ih m member (plain_object_iff.mp plain m member)

end Written

namespace Outline

/-- The text starts with a value that is at most `n` deep and has its numbers in range, and no number goes on. -/
structure Legible (n : Nat) (t : Text) (w : Written) (rest : Text) : Prop where
  value : Value t w rest
  shallow : w.depth ≤ n
  ranged : w.Ranged
  cut : ∀ cs, w = .number cs → ∃ x, Numeral.read t = .ok (x, rest)

theorem legible_of_ends {n : Nat} {t rest : Text} {w : Written} (value : Value t w rest) (ends : Ends rest)
    (shallow : w.depth ≤ n) (ranged : w.Ranged) : Legible n t w rest := by
  refine ⟨value, shallow, ranged, ?_⟩
  rintro cs rfl
  obtain ⟨x, alone⟩ := ranged
  cases value with
  | number numeral => exact ⟨x, Numeral.read_append alone ends⟩

theorem legible_shrinks {n : Nat} (t : Text) (w : Written) (rest : Text) (legible : Legible n t w rest) :
    rest.length < t.length :=
  value_shrinks legible.value

theorem legible_starts {n : Nat} (t : Text) (w : Written) (rest : Text) (legible : Legible n t w rest) :
    ∃ c u, t = .char c :: u ∧ (Symbol.char c).isBlank = false ∧ c ≠ ']' := by
  obtain ⟨c, u, same, solid, opens, -⟩ := value_starts legible.value
  exact ⟨c, u, same, solid, opens⟩

theorem separated_legible_iff {n : Nat} {s u : Text} {ws : List Written} (ends : Ends u) :
    Separated (Legible n) s ws u ↔ Separated Value s ws u ∧ ∀ w ∈ ws, w.depth ≤ n ∧ w.Ranged := by
  refine separated_iff_of_ends ?_ ?_ ends
  · exact fun legible => ⟨legible.value, legible.shallow, legible.ranged⟩
  · exact fun value here ends => legible_of_ends value ends here.1 here.2

theorem separated_member_legible_iff {n : Nat} {s u : Text} {ms : List (String × Written)} (ends : Ends u) :
    Separated (Member (Legible n)) s ms u ↔
      Separated (Member Value) s ms u ∧ ∀ m ∈ ms, m.2.depth ≤ n ∧ m.2.Ranged := by
  refine separated_iff_of_ends ?_ ?_ ends
  · rintro t m rest ⟨name, before, behind, legible⟩
    exact ⟨.intro name before behind legible.value, legible.shallow, legible.ranged⟩
  · rintro t m rest ⟨name, before, behind, value⟩ here ends
    exact .intro name before behind (legible_of_ends value ends here.1 here.2)

theorem legible_array_iff {n : Nat} {s rest : Text} {ws : List Written} :
    Legible (n + 1) s (.array ws) rest ↔ ∃ t, s = .char '[' :: t ∧ ListIn (Legible n) t ws rest := by
  constructor
  · rintro ⟨value, shallow, ranged, -⟩
    rw [Written.depth_array_le_iff] at shallow
    rw [Written.ranged_array_iff] at ranged
    cases value with
    | emptyArray inside => exact ⟨_, rfl, Or.inl ⟨rfl, inside⟩⟩
    | array before each behind =>
      have ends := ends_of_blanks behind (ends_char (by decide) _)
      have every := (separated_legible_iff ends).mpr ⟨each, fun w member => ⟨shallow w member, ranged w member⟩⟩
      exact ⟨_, rfl, Or.inr ⟨_, _, before, every, behind⟩⟩
  · rintro ⟨t, rfl, ⟨rfl, inside⟩ | ⟨u, v, before, each, behind⟩⟩
    · exact ⟨.emptyArray inside, Written.depth_array_le_iff.mpr nofun, trivial, nofun⟩
    · have ends := ends_of_blanks behind (ends_char (by decide) _)
      obtain ⟨each, every⟩ := (separated_legible_iff ends).mp each
      exact ⟨.array before each behind, Written.depth_array_le_iff.mpr fun w member => (every w member).1,
        Written.ranged_array_iff.mpr fun w member => (every w member).2, nofun⟩

theorem legible_object_iff {n : Nat} {s rest : Text} {ms : List (String × Written)} :
    Legible (n + 1) s (.object ms) rest ↔ ∃ t, s = .char '{' :: t ∧ ObjectIn (Legible n) t ms rest := by
  constructor
  · rintro ⟨value, shallow, ranged, -⟩
    rw [Written.depth_object_le_iff] at shallow
    rw [Written.ranged_object_iff] at ranged
    cases value with
    | emptyObject inside => exact ⟨_, rfl, Or.inl ⟨rfl, inside⟩⟩
    | object before each behind =>
      have ends := ends_of_blanks behind (ends_char (by decide) _)
      have every := (separated_member_legible_iff ends).mpr
        ⟨each, fun m member => ⟨shallow m member, ranged m member⟩⟩
      exact ⟨_, rfl, Or.inr ⟨_, _, before, every, behind⟩⟩
  · rintro ⟨t, rfl, ⟨rfl, inside⟩ | ⟨u, v, before, each, behind⟩⟩
    · exact ⟨.emptyObject inside, Written.depth_object_le_iff.mpr nofun, trivial, nofun⟩
    · have ends := ends_of_blanks behind (ends_char (by decide) _)
      obtain ⟨each, every⟩ := (separated_member_legible_iff ends).mp each
      exact ⟨.object before each behind, Written.depth_object_le_iff.mpr fun m member => (every m member).1,
        Written.ranged_object_iff.mpr fun m member => (every m member).2, nofun⟩

section

variable (n : Nat) {t u s rest : Text}

theorem readValue_list (opens : Blanks t (.char '[' :: u)) :
    readValue (n + 1) t =
      (.list (Text.width (.char '[' :: u)) (readList (readValue n) u).1, (readList (readValue n) u).2) := by
  unfold readValue
  simp only [(Text.skipBlanks_eq_iff rfl).mpr opens]

theorem readValue_object (opens : Blanks t (.char '{' :: u)) :
    readValue (n + 1) t =
      (.object (Text.width (.char '{' :: u)) (readObject (readValue n) u).1, (readObject (readValue n) u).2) := by
  unfold readValue
  simp only [(Text.skipBlanks_eq_iff rfl).mpr opens]

theorem readValue_scalar {v : Scalar} {w : Written} (blanks : Blanks t s) (value : Value s w rest)
    (flat : w.depth = 0) (read : Scalar.read s = .ok (v, rest)) :
    readValue n t = (.scalar v (Text.width rest), some rest) := by
  obtain ⟨c, u, rfl, solid, -, opens⟩ := value_starts value
  obtain ⟨noList, noObject⟩ := opens flat
  unfold readValue
  simp only [(Text.skipBlanks_eq_iff solid).mpr blanks]
  -- the value opens neither a list nor an object
  split
  · rename_i same
    exact (noList (Symbol.char.inj (List.cons.inj same).1)).elim
  · rename_i same
    exact (noObject (Symbol.char.inj (List.cons.inj same).1)).elim
  · rename_i same
    exact (noList (Symbol.char.inj (List.cons.inj same).1)).elim
  · rename_i same
    exact (noObject (Symbol.char.inj (List.cons.inj same).1)).elim
  · rw [read]

end

theorem readValue_finds {n : Nat} (below : ∀ m < n, Reads (readValue m) (Legible m)) (t : Text) :
    Ended Stopped (fun o rest => ∃ s w, Blanks t s ∧ Legible n s w rest ∧ o.Holds w) (readValue n t) := by
  have blanks := Text.blanks_skipBlanks t
  unfold readValue
  dsimp only
  split
  · exact .deepList _
  · exact .deepObject _
  · rename_i u n start
    have inside := readList_finds (below n (Nat.lt_succ_self n)) u
    match result : readList (readValue n) u with
    | (items, none) =>
      rw [result] at inside
      exact .list _ inside
    | (items, some rest) =>
      rw [result] at inside
      obtain ⟨ws, within, holds⟩ := inside
      exact ⟨_, _, blanks, legible_array_iff.mpr ⟨u, start, within⟩, .list _ holds⟩
  · rename_i u n start
    have inside := readObject_finds (below n (Nat.lt_succ_self n)) u
    match result : readObject (readValue n) u with
    | (fields, none) =>
      rw [result] at inside
      exact .object _ inside
    | (fields, some rest) =>
      rw [result] at inside
      obtain ⟨ms, within, holds⟩ := inside
      exact ⟨_, _, blanks, legible_object_iff.mpr ⟨u, start, within⟩, .object _ holds⟩
  · split
    · rename_i v rest found
      obtain ⟨w, value, holds, flat, cut⟩ := Scalar.read_finds found
      have ranged : w.Ranged := by
        cases holds with
        | number alone => exact ⟨_, alone⟩
        | _ => trivial
      exact ⟨_, w, blanks, ⟨value, flat ▸ Nat.zero_le _, ranged, cut⟩, .scalar holds _⟩
    · exact .fault _

theorem readValue_takes {n : Nat} (below : ∀ m < n, Reads (readValue m) (Legible m)) {t s rest : Text} {w : Written}
    (blanks : Blanks t s) (legible : Legible n s w rest) :
    ∃ o, readValue n t = (o, some rest) ∧ o.Holds w := by
  have scalar {v : Scalar} (flat : w.depth = 0) (read : Scalar.read s = .ok (v, rest)) (holds : v.Holds w) :
      ∃ o, readValue n t = (o, some rest) ∧ o.Holds w :=
    ⟨_, readValue_scalar n blanks legible.value flat read, .scalar holds _⟩
  cases w with
  | null =>
    cases legible.value
    exact scalar rfl (Scalar.word_eq_ok_iff.mpr ⟨rfl, rfl⟩) .null
  | bool b =>
    cases legible.value
    all_goals exact scalar rfl (Scalar.word_eq_ok_iff.mpr ⟨rfl, rfl⟩) (.bool _)
  | number cs =>
    obtain ⟨x, found⟩ := legible.cut cs rfl
    cases legible.value with
    | number numeral => exact scalar rfl (Scalar.read_number found) (.number (Numeral.read_alone found))
  | string s =>
    cases legible.value with
    | string content =>
      have read := Quoted.read_eq_ok_iff.mpr ⟨_, rfl, content⟩
      exact scalar rfl (bind_eq_ok_iff.mpr ⟨_, read, rfl⟩) (.string _)
  | array ws =>
    obtain ⟨n, rfl⟩ := Nat.exists_eq_add_one.mpr (Nat.lt_of_lt_of_le (Nat.succ_pos _) legible.shallow)
    obtain ⟨u, rfl, within⟩ := legible_array_iff.mp legible
    have reads := below n (Nat.lt_succ_self n)
    obtain ⟨items, read, holds⟩ := readList_takes reads legible_shrinks legible_starts within
    have step := readValue_list n blanks
    rw [read] at step
    exact ⟨_, step, .list _ holds⟩
  | object ms =>
    obtain ⟨n, rfl⟩ := Nat.exists_eq_add_one.mpr (Nat.lt_of_lt_of_le (Nat.succ_pos _) legible.shallow)
    obtain ⟨u, rfl, within⟩ := legible_object_iff.mp legible
    obtain ⟨fields, read, holds⟩ := readObject_takes (below n (Nat.lt_succ_self n)) legible_shrinks within
    have step := readValue_object n blanks
    rw [read] at step
    exact ⟨_, step, .object _ holds⟩

theorem readValue_reads (n : Nat) : Reads (readValue n) (Legible n) := by
  -- what stands in a container is read with one level less to go
  induction n using Nat.strongRecOn with
  | _ n ih => exact ⟨readValue_finds ih, readValue_takes ih⟩

end Outline

end LeafPlan
