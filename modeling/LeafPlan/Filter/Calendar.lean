import LeafPlan.Filter.Value

/-!
# Calendar

A moment is a number of seconds since the start of 1970. `Moment.fields` takes it apart into the fields
of the calendar, and `Moment.ofFields` puts them together.
-/

namespace LeafPlan.Filter

/-- Date and time of day. Months and days of the month start at 1. -/
structure Moment where
  year : Int
  month : Nat
  day : Nat
  hour : Nat
  minute : Nat
  second : Nat

namespace Moment

/-- The days from the start of 1970 to a date. Years are counted from March, so that the leap day ends
one. -/
def days (year : Int) (month day : Nat) : Int :=
  let y := if month ≤ 2 then year - 1 else year
  let era := y.fdiv 400
  let ofEra := y - era * 400
  let ofYear : Int := (153 * ((month + 9) % 12) + 2) / 5 + day - 1
  era * 146097 + ofEra * 365 + ofEra.fdiv 4 - ofEra.fdiv 100 + ofYear - 719468

def date (days : Int) : Int × Nat × Nat :=
  let z := days + 719468
  let era := z.fdiv 146097
  let ofEra := (z - era * 146097).toNat
  let yearOfEra := (ofEra - ofEra / 1460 + ofEra / 36524 - ofEra / 146096) / 365
  let ofYear := ofEra - (365 * yearOfEra + yearOfEra / 4 - yearOfEra / 100)
  let m := (5 * ofYear + 2) / 153
  let month := if m < 10 then m + 3 else m - 9
  (era * 400 + yearOfEra + (if month ≤ 2 then 1 else 0), month, ofYear - (153 * m + 2) / 5 + 1)

def ofSeconds (n : Int) : Moment :=
  let (year, month, day) := date (n.fdiv 86400)
  let s := (n.fmod 86400).toNat
  ⟨year, month, day, s / 3600, s / 60 % 60, s % 60⟩

def seconds (m : Moment) : Int :=
  days m.year m.month m.day * 86400 + m.hour * 3600 + m.minute * 60 + m.second

/-- Sunday is 0. -/
def weekday (m : Moment) : Nat := ((days m.year m.month m.day + 4).fmod 7).toNat

/-- The first of January is 0. -/
def dayOfYear (m : Moment) : Nat := (days m.year m.month m.day - days m.year 1 1).toNat

def pad (width n : Nat) : String :=
  let s := toString n
  String.ofList (List.replicate (width - s.length) '0') ++ s

def yearText (y : Int) : String := if y < 0 then "-" ++ pad 4 y.natAbs else pad 4 y.natAbs

def iso (m : Moment) : String :=
  s!"{yearText m.year}-{pad 2 m.month}-{pad 2 m.day}T{pad 2 m.hour}:{pad 2 m.minute}:{pad 2 m.second}Z"

def monthNames : List String :=
  ["January", "February", "March", "April", "May", "June", "July", "August", "September", "October",
    "November", "December"]

def weekdayNames : List String :=
  ["Sunday", "Monday", "Tuesday", "Wednesday", "Thursday", "Friday", "Saturday"]

/-- What a letter behind a percent sign stands for. -/
def field? (m : Moment) (c : Char) : Option String :=
  match c with
  | 'Y' => some (yearText m.year)
  | 'm' => some (pad 2 m.month)
  | 'd' => some (pad 2 m.day)
  | 'e' => some (if m.day < 10 then s!" {m.day}" else toString m.day)
  | 'H' => some (pad 2 m.hour)
  | 'I' => some (pad 2 ((m.hour + 11) % 12 + 1))
  | 'M' => some (pad 2 m.minute)
  | 'S' => some (pad 2 m.second)
  | 'j' => some (pad 3 (m.dayOfYear + 1))
  | 'y' => some (pad 2 (m.year.fmod 100).toNat)
  | 'p' => some (if m.hour < 12 then "AM" else "PM")
  | 'B' => monthNames[m.month - 1]?
  | 'b' | 'h' => (monthNames[m.month - 1]?).map fun s => (s.take 3).toString
  | 'A' => weekdayNames[m.weekday]?
  | 'a' => (weekdayNames[m.weekday]?).map fun s => (s.take 3).toString
  | 'u' => some (toString (if m.weekday = 0 then 7 else m.weekday))
  | 'w' => some (toString m.weekday)
  | 'Z' => some "UTC"
  | 'z' => some "+0000"
  | 's' => some (toString m.seconds)
  | 'F' => some s!"{yearText m.year}-{pad 2 m.month}-{pad 2 m.day}"
  | 'T' => some s!"{pad 2 m.hour}:{pad 2 m.minute}:{pad 2 m.second}"
  | 'R' => some s!"{pad 2 m.hour}:{pad 2 m.minute}"
  | 'D' => some s!"{pad 2 m.month}/{pad 2 m.day}/{pad 2 (m.year.fmod 100).toNat}"
  | 'n' => some "\n"
  | 't' => some "\t"
  | '%' => some "%"
  | _ => none

def write (m : Moment) : List Char → Option String
  | '%' :: c :: rest => do return (← m.field? c) ++ (← write m rest)
  | ['%'] => none
  | c :: rest => do return String.singleton c ++ (← write m rest)
  | [] => some ""

/-- A number of at most `width` digits. -/
def number? (width : Nat) (s : List Char) : Option (Nat × List Char) :=
  match (s.take width).takeWhile Char.isDigit with
  | [] => none
  | ds => some (Decimal.ofDigits ds, s.drop ds.length)

/-- A name out of a list, or its first three letters, and its number. -/
def name? (names : List String) (s : List Char) : Option (Nat × List Char) :=
  names.zipIdx.findSome? fun (name, n) =>
    if name.toList.isPrefixOf s then some (n, s.drop name.length)
    else if (name.toList.take 3).isPrefixOf s then some (n, s.drop 3)
    else none

/-- Reads a moment by a template into the fields of `m`. -/
def read : Moment → List Char → List Char → Option Moment
  | m, '%' :: c :: template, s =>
    match c with
    | 'Y' => do
      let (n, s) ← number? 4 s
      read { m with year := n } template s
    | 'm' => do
      let (n, s) ← number? 2 s
      read { m with month := n } template s
    | 'd' | 'e' => do
      let (n, s) ← number? 2 (s.dropWhile (· = ' '))
      read { m with day := n } template s
    | 'H' => do
      let (n, s) ← number? 2 s
      read { m with hour := n } template s
    | 'M' => do
      let (n, s) ← number? 2 s
      read { m with minute := n } template s
    | 'S' => do
      let (n, s) ← number? 2 s
      read { m with second := n } template s
    | 'B' | 'b' | 'h' => do
      let (n, s) ← name? monthNames s
      read { m with month := n + 1 } template s
    | 'A' | 'a' => do
      let (_, s) ← name? weekdayNames s
      read m template s
    | 'j' => do
      let (_, s) ← number? 3 s
      read m template s
    | 'Z' => read m template (s.dropWhile Char.isAlpha)
    | 'z' => read m template (s.dropWhile fun c => c.isDigit || c = '+' || c = '-' || c = ':')
    | _ => none
  | m, c :: template, s =>
    match s with
    | d :: s => if c = d then read m template s else none
    | [] => none
  | m, [], [] => some m
  | _, [], _ :: _ => none

def isValid (m : Moment) : Bool :=
  1 ≤ m.month && m.month ≤ 12 && 1 ≤ m.day && m.day ≤ 31 && m.hour < 24 && m.minute < 60 && m.second < 60

def ofText? (template s : String) : Option Moment :=
  (read ⟨1970, 1, 1, 0, 0, 0⟩ template.toList s.toList).filter isValid

/-- The fields as a list: the months start at 0 here, and the day of the week and of the year follow. -/
def fields (m : Moment) : Value :=
  .array [.int m.year, .int (m.month - 1), .int m.day, .int m.hour, .int m.minute, .int m.second,
    .int m.weekday, .int m.dayOfYear]

def natural? : Value → Option Nat
  | .int i => if 0 ≤ i then some i.toNat else none
  | .float f => if 0 ≤ f && f.isFinite then some f.toUInt64.toNat else none
  | _ => none

def ofFields? : Value → Option Moment
  | .array (.int year :: rest) => do
    match ← (rest.take 5).mapM natural? with
    | [month, day, hour, minute, second] => some ⟨year, month + 1, day, hour, minute, second⟩
    | _ => none
  | _ => none

end Moment

end LeafPlan.Filter
