import LeafPlan.Text.Lines

/-!
# Regular expressions

A match is found by trying alternatives from left to right and repetitions as often as they say first;
the first way that succeeds counts, at the leftmost place where there is one.
-/

namespace LeafPlan

namespace Regex

/-- Digits of the scripts in common use. -/
def isDigit (c : Char) : Bool :=
  c.isDigit || (0x660 ≤ c.toNat && c.toNat ≤ 0x669) || (0x6F0 ≤ c.toNat && c.toNat ≤ 0x6F9) ||
    (0x966 ≤ c.toNat && c.toNat ≤ 0x96F) || (0xFF10 ≤ c.toNat && c.toNat ≤ 0xFF19)

/-- Blocks of letters beyond the first 128 characters. -/
def letterBlocks : List (Nat × Nat) :=
  [(0xAA, 0xAA), (0xB5, 0xB5), (0xBA, 0xBA), (0xC0, 0xD6), (0xD8, 0xF6), (0xF8, 0x2C1), (0x300, 0x374),
    (0x376, 0x377), (0x37A, 0x37D), (0x37F, 0x37F), (0x386, 0x386), (0x388, 0x3FF), (0x400, 0x481),
    (0x483, 0x52F), (0x531, 0x556), (0x561, 0x587), (0x591, 0x5BD), (0x5D0, 0x5EA), (0x620, 0x669),
    (0x66E, 0x6D3), (0x6F0, 0x6FC), (0x900, 0x963), (0x966, 0x96F), (0xE01, 0xE3A), (0xE40, 0xE4E),
    (0x1E00, 0x1FBC), (0x2C00, 0x2DFF), (0x3041, 0x3096), (0x30A1, 0x30FA), (0x3400, 0x4DBF),
    (0x4E00, 0x9FFF), (0xAC00, 0xD7A3), (0xFF10, 0xFF19), (0xFF21, 0xFF3A), (0xFF41, 0xFF5A),
    (0x20000, 0x323AF)]

def isWord (c : Char) : Bool :=
  c.isAlphanum || c = '_' || isDigit c || letterBlocks.any fun (a, b) => a ≤ c.toNat && c.toNat ≤ b

/-- The small letter of a capital one. -/
def fold (c : Char) : Char :=
  let n := c.toNat
  if (0x41 ≤ n && n ≤ 0x5A) || (0xC0 ≤ n && n ≤ 0xDE && n ≠ 0xD7) || (0x391 ≤ n && n ≤ 0x3A9) ||
      (0x410 ≤ n && n ≤ 0x42F) then
    Char.ofNat (n + 32)
  else c

/-- The capital letter of a small one. -/
def unfold (c : Char) : Char :=
  let n := c.toNat
  if (0x61 ≤ n && n ≤ 0x7A) || (0xE0 ≤ n && n ≤ 0xFE && n ≠ 0xF7) || (0x3B1 ≤ n && n ≤ 0x3C9) ||
      (0x430 ≤ n && n ≤ 0x44F) then
    Char.ofNat (n - 32)
  else c

inductive ClassPart where
  | range (first last : Char)
  | digit (negated : Bool)
  | space (negated : Bool)
  | word (negated : Bool)

def ClassPart.holds (c : Char) : ClassPart → Bool
  | .range first last => first ≤ c && c ≤ last
  | .digit negated => isDigit c != negated
  | .space negated => Lines.isSpace c != negated
  | .word negated => isWord c != negated

structure CharClass where
  members : List ClassPart
  negated : Bool
  /-- Capital and small letters count as the same. -/
  folded : Bool

def CharClass.holds (k : CharClass) (c : Char) : Bool :=
  let here (c : Char) : Bool := k.members.any (ClassPart.holds c)
  (here c || (k.folded && (here (fold c) || here (unfold c)))) != k.negated

inductive Border where
  | textStart
  | textStop
  | lineStart
  | lineStop
  | word (negated : Bool)

end Regex

inductive Regex where
  | empty
  | one (k : Regex.CharClass)
  | border (b : Regex.Border)
  | both (first second : Regex)
  | either (first second : Regex)
  | repeated (body : Regex) (least : Nat) (most : Option Nat) (greedy : Bool)
  | group (number : Nat) (body : Regex)

namespace Regex

/-- A place in a text, and the groups matched on the way there by their ends. -/
structure Place where
  before : Option Char
  offset : Nat
  rest : List Char
  groups : List (Nat × Nat × Nat)

def Place.next (p : Place) : Option Place :=
  match p.rest with
  | [] => none
  | c :: rest => some { p with before := some c, offset := p.offset + 1, rest := rest }

def Border.isAt (p : Place) : Border → Bool
  | textStart => p.before.isNone
  | textStop => p.rest.isEmpty
  | lineStart => p.before.isNone || p.before = some '\n'
  | lineStop => p.rest.isEmpty || p.rest.head? = some '\n'
  | word negated => ((p.before.any isWord) != (p.rest.head?.any isWord)) != negated

/-- Tries `step` again and again: at least `least` times, at most `most` times, and beyond `least` only
while it gets ahead. `fuel` bounds the rounds. -/
def rounds (step : Place → (Place → Option Place) → Option Place) (most : Option Nat) (greedy : Bool)
    (after : Place → Option Place) : Nat → Nat → Nat → Place → Option Place
  | 0, least, _, p => if least = 0 then after p else none
  | fuel + 1, least, done, p =>
    let again (_ : Unit) : Option Place :=
      if most.any fun n => n ≤ done then none
      else step p fun q =>
        -- an empty round beyond the least number would come again and again
        if least = 0 && q.offset = p.offset then none
        else rounds step most greedy after fuel (least - 1) (done + 1) q
    if 0 < least then again ()
    else if greedy then (again ()).or (after p)
    else (after p).or (again ())

/-- The first way to match from `p` on with which `after` succeeds. -/
def run : Regex → Place → (Place → Option Place) → Option Place
  | empty, p, after => after p
  | one k, p, after =>
    match p.rest with
    | c :: _ => if k.holds c then p.next.bind after else none
    | [] => none
  | border b, p, after => if b.isAt p then after p else none
  | both x y, p, after => run x p fun q => run y q after
  | either x y, p, after => (run x p after).or (run y p after)
  | repeated x least most greedy, p, after =>
    rounds (fun p after => run x p after) most greedy after (p.rest.length + least + 1) least 0 p
  | group n x, p, after =>
    run x p fun q => after { q with groups := (n, p.offset, q.offset) :: q.groups.filter (·.1 ≠ n) }

structure Match where
  start : Nat
  stop : Nat
  groups : List (Nat × Nat × Nat)

def matchAt (r : Regex) (p : Place) : Option Match :=
  (r.run { p with groups := [] } some).map fun q => ⟨p.offset, q.offset, q.groups⟩

/-- The leftmost match at or behind a place. `fuel` bounds the places. -/
def search (r : Regex) : Nat → Place → Option (Place × Match)
  | 0, _ => none
  | fuel + 1, p =>
    match r.matchAt p with
    | some m => some (p, m)
    | none => p.next.bind (search r fuel)

def Place.skip : Nat → Place → Option Place
  | 0, p => some p
  | n + 1, p => p.next.bind (skip n)

/-- The matches from `p` on that do not overlap. An empty match does not stand at the end of the match
before it, which is `last`. -/
def matchesFrom (r : Regex) : Nat → Option Nat → Place → List Match
  | 0, _, _ => []
  | fuel + 1, last, p =>
    match r.search (p.rest.length + 1) p with
    | none => []
    | some (q, m) =>
      if m.start = m.stop && last = some m.stop then
        match q.next with
        | some q => matchesFrom r fuel last q
        | none => []
      else
        match q.skip (m.stop - m.start) with
        | some q => m :: matchesFrom r fuel (some m.stop) q
        | none => [m]

def allMatches (r : Regex) (s : List Char) : List Match :=
  matchesFrom r (2 * s.length + 2) none ⟨none, 0, s, []⟩

end Regex

end LeafPlan
