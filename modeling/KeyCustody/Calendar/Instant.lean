/-!
# Instants

Stored entries and commands carry the instant at which they last changed. No decision rests on it,
but a stored text has to be an instant: a calendar date, a time of day and an offset from universal
time. `isInstant` accepts the usual form `2024-01-02T03:04:05.678Z` and, leniently, blanks before
each part, a year with a sign, a small `t` or a blank before the time, and an offset with any
separator or none. `placeholder` is the instant that is written.
-/

namespace KeyCustody.Calendar

/-- The characters that count as blanks. -/
def isBlank (c : Char) : Bool :=
  let n := c.toNat
  (9 ≤ n && n ≤ 13) || n == 0x20 || n == 0x85 || n == 0xa0 || n == 0x1680 ||
    (0x2000 ≤ n && n ≤ 0x200a) || n == 0x2028 || n == 0x2029 || n == 0x202f || n == 0x205f ||
    n == 0x3000

/-- A text without the blanks that it begins with. -/
def trim (s : List Char) : List Char := s.dropWhile isBlank

/-- A number of one to `width` digits, and what follows it. -/
def number? (width : Nat) (s : List Char) : Option (Nat × List Char) :=
  let digits := (s.take width).takeWhile Char.isDigit
  if digits.isEmpty then none
  else some (Nat.ofDigitChars 10 digits 0, s.drop digits.length)

/-- What follows the character `c`, after blanks. -/
def after? (c : Char) (s : List Char) : Option (List Char) :=
  match trim s with
  | d :: rest => if d = c then some rest else none
  | [] => none

/-- A year, of at most four digits unless it has a sign. -/
def year? (s : List Char) : Option (Int × List Char) :=
  match trim s with
  | '-' :: rest => (number? rest.length rest).map fun (n, rest) => (-(n : Int), rest)
  | '+' :: rest => (number? rest.length rest).map fun (n, rest) => ((n : Int), rest)
  | s => (number? 4 s).map fun (n, rest) => ((n : Int), rest)

/-- A number of one or two digits, after blanks. -/
def part? (s : List Char) : Option (Nat × List Char) := number? 2 (trim s)

/-- What follows a fraction of a second, if there is one; a point without digits is refused. -/
def fraction? : List Char → Option (List Char)
  | '.' :: rest =>
    match rest with
    | c :: _ => if c.isDigit then some (rest.dropWhile Char.isDigit) else none
    | [] => none
  | s => some s

/-- The minutes of an offset, after colons and blanks, and what follows them. -/
def offsetMinutes? (s : List Char) : Option (Nat × List Char) :=
  match s.dropWhile (fun c => c == ':' || isBlank c) with
  | p :: q :: rest =>
    if '0' ≤ p ∧ p ≤ '5' ∧ q.isDigit then some (Nat.ofDigitChars 10 [p, q] 0, rest) else none
  | _ => none

/-- The distance of an offset in seconds, and what follows it. -/
def offsetDistance? : List Char → Option (Nat × List Char)
  | p :: q :: rest =>
    if p.isDigit ∧ q.isDigit then
      (offsetMinutes? rest).map fun (minutes, rest) =>
        (Nat.ofDigitChars 10 [p, q] 0 * 3600 + minutes * 60, rest)
    else none
  | _ => none

/-- An offset from universal time in seconds, and what follows it. -/
def offset? (s : List Char) : Option (Int × List Char) :=
  match trim s with
  | 'Z' :: rest => some (0, rest)
  | 'z' :: rest => some (0, rest)
  | '+' :: rest => (offsetDistance? rest).map fun (n, rest) => ((n : Int), rest)
  | '-' :: rest => (offsetDistance? rest).map fun (n, rest) => (-(n : Int), rest)
  | '\u2212' :: rest => (offsetDistance? rest).map fun (n, rest) => (-(n : Int), rest)
  | u :: t :: c :: rest =>
    if [u, t, c].map Char.toUpper = ['U', 'T', 'C'] then some (0, rest) else none
  | _ => none

/-- Whether a year of the proleptic Gregorian calendar has a leap day. -/
def isLeap (year : Int) : Bool :=
  year % 4 == 0 && (year % 100 != 0 || year % 400 == 0)

/-- The number of days of a month. -/
def daysOf (year : Int) (month : Nat) : Nat :=
  if month = 2 then (if isLeap year then 29 else 28)
  else if month = 4 ∨ month = 6 ∨ month = 9 ∨ month = 11 then 30
  else 31

/-- The first year that can be represented. -/
def firstYear : Int := -262143

/-- The last year that can be represented. -/
def lastYear : Int := 262142

/-- Whether a local date and time of day exists and, moved by its offset, still lies in a year that
can be represented. The sixtieth second of a minute is a leap second. -/
def occurs (year : Int) (month day hour minute second : Nat) (offset : Int) : Bool :=
  let secondOfDay : Int := hour * 3600 + minute * 60 + min second 59 - offset
  firstYear ≤ year && year ≤ lastYear && 1 ≤ month && month ≤ 12 &&
    1 ≤ day && day ≤ daysOf year month && hour ≤ 23 && minute ≤ 59 && second ≤ 60 &&
    -86400 < offset && offset < 86400 &&
    !(year == firstYear && month == 1 && day == 1 && secondOfDay < 0) &&
    !(year == lastYear && month == 12 && day == 31 && 86400 ≤ secondOfDay)

/-- Whether a list of characters spells an instant. -/
def spellsInstant? (s : List Char) : Option Bool := do
  let (year, s) ← year? s
  let (month, s) ← part? (← after? '-' s)
  let (day, s) ← part? (← after? '-' s)
  let s ← match s with
    | 'T' :: rest => some rest
    | 't' :: rest => some rest
    | ' ' :: rest => some rest
    | _ => none
  let (hour, s) ← part? s
  let (minute, s) ← part? (← after? ':' s)
  let (second, s) ← part? (← after? ':' s)
  let (offset, s) ← offset? (← fraction? s)
  some (occurs year month day hour minute second offset && (trim s).isEmpty)

/-- Whether a text is an instant. -/
def isInstant (s : String) : Bool := (spellsInstant? s.toList).getD false

/-- The instant that is written wherever one has to stand. -/
def placeholder : String := "1970-01-01T00:00:00.000000000Z"

end KeyCustody.Calendar
