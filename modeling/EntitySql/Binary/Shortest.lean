import EntitySql.Binary.Basic
import EntitySql.Text.Digits

/-!
# The shortest decimal that reads back

Every decimal in the rounding interval of a number reads back as that number. The
coarsest power of ten with a multiple in the interval fixes how many digits are
needed; of two neighbouring multiples in the interval the nearer one is chosen.
-/

namespace EntitySql

/-- Which of two equally near decimals is chosen. -/
inductive TieRule where
  | toEven
  | away
  deriving DecidableEq, Repr

/-- The decimal `digits * 10 ^ exponent`. -/
structure Scientific where
  /-- The digits, without trailing zeros. -/
  digits : Nat
  /-- The power of ten that the last digit weighs. -/
  exponent : Int
  deriving DecidableEq, Repr

namespace Binary

/-- Multiplies a fraction by a power of ten and gives its two terms. -/
def scaleTen (num den : Nat) : Int → Nat × Nat
  | .ofNat e => (num * Nat.pow 10 e, den)
  | .negSucc e => (num, den * Nat.pow 10 (e + 1))

/-- The number of decimal digits of a whole number, none for zero. -/
def digitCount (n : Nat) : Nat :=
  if n = 0 then 0 else (Nat.toDigits 10 n).length

/-- The greatest power of ten that is at most `num / den`, for positive terms. -/
def logTen (num den : Nat) : Int :=
  if den ≤ num then (digitCount (num / den) : Int) - 1
  else -(digitCount ((den + num - 1) / num - 1) : Int)

/-- The decimals that round to one number: between `low` and `high` quarters of its last bit,
the bounds included for an even mantissa. -/
structure Interval where
  low : Nat
  value : Nat
  high : Nat
  inclusive : Bool
  /-- The power of two that one quarter weighs. -/
  exponent : Int

/-- The rounding interval of `mantissa * 2 ^ exponent`; below a power of two the numbers lie
twice as dense. -/
def interval (f : Format) (mantissa : Nat) (exponent : Int) : Interval where
  low :=
    if mantissa = Nat.pow 2 f.fractionBits ∧ f.minExponent < exponent then 4 * mantissa - 1
    else 4 * mantissa - 2
  value := 4 * mantissa
  high := 4 * mantissa + 2
  inclusive := mantissa % 2 == 0
  exponent := exponent - 2

/-- The multiple of `10 ^ power` to print for an interval, if one of the two next to the value
lies inside. -/
def Interval.multiple? (i : Interval) (tie : TieRule) (power : Int) : Option Nat :=
  let (a, b) := scaleTwo 1 1 i.exponent
  let (num, den) := scaleTen a b (-power)
  let below := i.value * num / den
  let above := below + 1
  let within (x y : Nat) : Bool := if i.inclusive then x ≤ y else x < y
  let belowFits := within (i.low * num) (below * den)
  let aboveFits := within (above * den) (i.high * num)
  let twice := 2 * (i.value * num)
  let middle := (below + above) * den
  if belowFits && aboveFits then
    if twice < middle then some below
    else if middle < twice then some above
    else
      match tie with
      | .toEven => some (below + below % 2)
      | .away => some above
  else if belowFits then some below
  else if aboveFits then some above
  else none

/-- As many digits as always suffice for a format. -/
def maxDigits (f : Format) : Nat :=
  f.fractionBits * 30103 / 100000 + 3

/-- The shortest decimal that reads back as the positive number `mantissa * 2 ^ exponent`. -/
def shortestOf (f : Format) (tie : TieRule) (mantissa : Nat) (exponent : Int) : Scientific :=
  let i := interval f mantissa exponent
  let (num, den) := scaleTwo mantissa 1 exponent
  let top := logTen num den
  let attempt (count : Nat) : Option Scientific :=
    let power := top + 1 - count
    (i.multiple? tie power).map fun n => ⟨n, power⟩
  ((List.range (maxDigits f + 1)).findSome? attempt).getD ⟨0, 0⟩

end Binary

/-- The digits of a decimal. -/
def Scientific.digitList (s : Scientific) : List (Fin 10) :=
  Text.digitsOf s.digits

/-- The power of ten that the first digit weighs. -/
def Scientific.leading (s : Scientific) : Int :=
  s.exponent + s.digitList.length - 1

/-- The digits before and after the point in positional notation; the first part is never empty. -/
def Scientific.positional (s : Scientific) : List (Fin 10) × List (Fin 10) :=
  let ds := s.digitList
  match s.exponent with
  | .ofNat e => (ds ++ List.replicate e Text.zeroDigit, [])
  | .negSucc e =>
    let places := e + 1
    if places < ds.length then ds.splitAt (ds.length - places)
    else ([Text.zeroDigit], List.replicate (places - ds.length) Text.zeroDigit ++ ds)

/-- The plain text of a number: a minus sign if its sign bit is set, then the shortest digits that
read back in positional notation, a tie going to the greater neighbour. -/
def Binary.text {f : Format} (x : Binary f) : String :=
  let signed (s : Bool) (t : String) : String := if s then "-" ++ t else t
  match x.view with
  | .nan => "NaN"
  | .infinite s => signed s "inf"
  | .finite s m e =>
    if m = 0 then signed s "0"
    else
      match (Binary.shortestOf f .away m e).positional with
      | (whole, []) => signed s (Text.digitText whole)
      | (whole, fraction) => signed s (Text.digitText whole ++ "." ++ Text.digitText fraction)

end EntitySql
