import EntitySql.Text.Blank
import EntitySql.Text.Digits

/-!
# Date and time without a zone

A timestamp is a day of the proleptic Gregorian calendar and a time of that day to
the nanosecond; second 60 is a leap second. Texts are read by a pattern of fields.
-/

namespace EntitySql

namespace Calendar

/-- Every fourth year is a leap year, of the centuries every fourth one. -/
def isLeapYear (year : Int) : Bool :=
  year % 4 == 0 && (year % 100 != 0 || year % 400 == 0)

/-- The number of days of a month, none for a number that is no month. -/
def daysInMonth (year : Int) (month : Nat) : Nat :=
  match month with
  | 1 | 3 | 5 | 7 | 8 | 10 | 12 => 31
  | 4 | 6 | 9 | 11 => 30
  | 2 => if isLeapYear year then 29 else 28
  | _ => 0

/-- The first year of the calendar. -/
def minYear : Int := -262143

/-- The last year of the calendar. -/
def maxYear : Int := 262142

/-- Whether three numbers are a day of the calendar. -/
def isDate (year : Int) (month day : Nat) : Bool :=
  minYear ≤ year && year ≤ maxYear && 1 ≤ day && day ≤ daysInMonth year month

/-- Whether four numbers are a time of day. -/
def isTime (hour minute second nanosecond : Nat) : Bool :=
  hour < 24 && minute < 60 && second ≤ 60 && nanosecond < 1000000000

end Calendar

/-- A day and a time of that day. -/
structure Timestamp where
  year : Int
  month : Nat
  day : Nat
  hour : Nat
  minute : Nat
  /-- The second, 60 in a leap second. -/
  second : Nat
  nanosecond : Nat
  /-- The day exists. -/
  date_valid : Calendar.isDate year month day = true
  /-- The time exists. -/
  time_valid : Calendar.isTime hour minute second nanosecond = true
  deriving DecidableEq, Repr

namespace Timestamp

/-- The start of the first day of 1970. -/
def epoch : Timestamp :=
  ⟨1970, 1, 1, 0, 0, 0, 0, by decide, by decide⟩

instance : Inhabited Timestamp := ⟨epoch⟩

/-- The timestamp of seven numbers, if they are one. -/
def ofFields? (year : Int) (month day hour minute second nanosecond : Nat) : Option Timestamp :=
  if hdate : Calendar.isDate year month day = true then
    if htime : Calendar.isTime hour minute second nanosecond = true then
      some ⟨year, month, day, hour, minute, second, nanosecond, hdate, htime⟩
    else none
  else none

/-- A year in at least four digits, with a sign outside the years 0 to 9999. -/
def yearText (year : Int) : String :=
  if 0 ≤ year ∧ year ≤ 9999 then Text.padded 4 year.toNat
  else (if year < 0 then "-" else "+") ++ Text.padded 4 year.natAbs

/-- A fraction of a second in as few of 3, 6 or 9 digits as show it exactly, none for zero. -/
def fractionText (nanosecond : Nat) : String :=
  if nanosecond = 0 then ""
  else if nanosecond % 1000000 = 0 then "." ++ Text.padded 3 (nanosecond / 1000000)
  else if nanosecond % 1000 = 0 then "." ++ Text.padded 6 (nanosecond / 1000)
  else "." ++ Text.padded 9 nanosecond

/-- The text of the day. -/
def dateText (t : Timestamp) : String :=
  yearText t.year ++ "-" ++ Text.padded 2 t.month ++ "-" ++ Text.padded 2 t.day

/-- The text of the time to the second. -/
def clockText (t : Timestamp) : String :=
  Text.padded 2 t.hour ++ ":" ++ Text.padded 2 t.minute ++ ":" ++ Text.padded 2 t.second

/-- Day and time with a separator between them. -/
def textWith (separator : String) (t : Timestamp) : String :=
  t.dateText ++ separator ++ t.clockText ++ fractionText t.nanosecond

/-- Day and time with a space between them. -/
def text (t : Timestamp) : String := t.textWith " "

/-- Day and time with a `T` between them. -/
def isoText (t : Timestamp) : String := t.textWith "T"

/-- Day and time with a `T` between them and always nine digits of the fraction. -/
def fullText (t : Timestamp) : String :=
  t.dateText ++ "T" ++ t.clockText ++ "." ++ Text.padded 9 t.nanosecond

/-- A field of a pattern. -/
inductive Field where
  | year
  | month
  | day
  | hour
  | minute
  | second
  deriving DecidableEq, Repr

/-- A part of a pattern: a field, a character, any white space, or an optional fraction. -/
inductive Part where
  | field (f : Field)
  | mark (c : Char)
  | space
  | fraction
  deriving DecidableEq, Repr

/-- The numbers read so far; a field that a pattern does not have is zero. -/
structure Reading where
  year : Int := 0
  month : Nat := 0
  day : Nat := 0
  hour : Nat := 0
  minute : Nat := 0
  second : Nat := 0
  nanosecond : Nat := 0

/-- Sets one field. -/
def Reading.set (r : Reading) (f : Field) (n : Int) : Reading :=
  match f with
  | .year => { r with year := n }
  | .month => { r with month := n.toNat }
  | .day => { r with day := n.toNat }
  | .hour => { r with hour := n.toNat }
  | .minute => { r with minute := n.toNat }
  | .second => { r with second := n.toNat }

/-- At most `width` digits at the start of a text, and the text after them. -/
def takeDigits (width : Nat) (cs : List Char) : List (Fin 10) × List Char :=
  let ds := (Text.spanDigits cs).1.take width
  (ds, cs.drop ds.length)

/-- A number of one to `width` digits. -/
def readNumber? (width : Nat) (cs : List Char) : Option (Int × List Char) :=
  let (ds, rest) := takeDigits width cs
  if ds.isEmpty then none else some (Text.ofDigits ds, rest)

/-- A year: up to four digits, or a sign and any number of digits. -/
def readYear? (cs : List Char) : Option (Int × List Char) :=
  match cs with
  | '-' :: rest => (readNumber? rest.length rest).map fun (n, after) => (-n, after)
  | '+' :: rest => readNumber? rest.length rest
  | cs => readNumber? 4 cs

/-- A fraction after its point: digits after the ninth are passed over. -/
def readFraction? (cs : List Char) : Option (Nat × List Char) :=
  match Text.spanDigits cs with
  | ([], _) => none
  | (ds, rest) =>
    let shown := ds.take 9
    some (Text.ofDigits shown * Nat.pow 10 (9 - shown.length), rest)

/-- Reads one part of a pattern; white space in front of a number is passed over. -/
def readPart? (r : Reading) (p : Part) (cs : List Char) : Option (Reading × List Char) :=
  match p with
  | .field .year =>
    (readYear? (cs.dropWhile Text.isBlank)).map fun (n, rest) => (r.set .year n, rest)
  | .field f => (readNumber? 2 (cs.dropWhile Text.isBlank)).map fun (n, rest) => (r.set f n, rest)
  | .mark c =>
    match cs with
    | c' :: rest => if c = c' then some (r, rest) else none
    | [] => none
  | .space => some (r, cs.dropWhile Text.isBlank)
  | .fraction =>
    match cs with
    | '.' :: rest => (readFraction? rest).map fun (n, after) => ({ r with nanosecond := n }, after)
    | cs => some (r, cs)

/-- Reads all parts of a pattern; nothing may be left over. -/
def readParts? (r : Reading) : List Part → List Char → Option Reading
  | [], [] => some r
  | [], _ :: _ => none
  | p :: ps, cs => (readPart? r p cs).bind fun (r', rest) => readParts? r' ps rest

/-- The timestamp that a text spells by a pattern. -/
def readBy? (pattern : List Part) (cs : List Char) : Option Timestamp :=
  (readParts? {} pattern cs).bind fun r =>
    ofFields? r.year r.month r.day r.hour r.minute r.second r.nanosecond

/-- The parts of a day. -/
def dateParts : List Part :=
  [.field .year, .mark '-', .field .month, .mark '-', .field .day]

/-- The parts of a time to the minute. -/
def minuteParts : List Part :=
  [.field .hour, .mark ':', .field .minute]

/-- The parts of a time to the second with an optional fraction. -/
def clockParts : List Part :=
  minuteParts ++ [.mark ':', .field .second, .fraction]

/-- The three forms that a value of text may have, the first that fits being taken. -/
def patterns : List (List Part) :=
  [dateParts ++ .space :: clockParts, dateParts ++ .mark 'T' :: clockParts,
    dateParts ++ .space :: minuteParts]

/-- The form that a serialized value has; white space may stand in front of each mark. -/
def isoPattern : List Part :=
  [.field .year, .space, .mark '-', .field .month, .space, .mark '-', .field .day,
    .space, .mark 'T', .field .hour, .space, .mark ':', .field .minute,
    .space, .mark ':', .field .second, .fraction, .space]

/-- The timestamp that a text without white space around it spells. -/
def read? (s : String) : Option Timestamp :=
  patterns.findSome? fun p => readBy? p s.toList

/-- The timestamp that a serialized text spells. -/
def readIso? (s : String) : Option Timestamp :=
  readBy? isoPattern s.toList

end Timestamp

end EntitySql
