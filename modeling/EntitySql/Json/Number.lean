import EntitySql.Binary.Shortest
import EntitySql.Json.Token

/-!
# JSON numbers

A numeral without point and exponent is a whole number if it fits 64 bits, with or
without a sign; every other numeral is a binary number. Whole numbers are written
in digits, binary numbers by the shortest decimal that reads back.
-/

namespace EntitySql.Json

/-- A number of a JSON value. -/
inductive Number where
  | whole (n : Int)
  | real (x : Double)
  deriving DecidableEq, Repr

/-- The greatest whole number of 64 bits without a sign. -/
def maxWord : Nat := UInt64.size - 1

/-- The leading digits of a numeral as one word, and how many digits did not fit. -/
structure Leading where
  word : Nat
  /-- How many places the point moved to the left for digits taken, and to the right for digits
  left out. -/
  exponent : Int

/-- Takes the digits before the point while the word has room; from the first digit that does not
fit, digits are only counted. -/
def Leading.ofWhole (ds : List (Fin 10)) : Leading :=
  ds.foldl (fun a d =>
    if a.exponent = 0 ∧ a.word * 10 + d.val ≤ maxWord then ⟨a.word * 10 + d.val, 0⟩
    else ⟨a.word, a.exponent + 1⟩) ⟨0, 0⟩

/-- Takes the digits after the point while the word has room and ignores the others. -/
def Leading.takeFraction (a : Leading) : List (Fin 10) → Leading
  | [] => a
  | d :: ds =>
    if a.word * 10 + d.val ≤ maxWord then
      Leading.takeFraction ⟨a.word * 10 + d.val, a.exponent - 1⟩ ds
    else a

/-- The greatest power of ten that a number of 64 bits can hold. -/
def maxPower : Nat := 308

/-- A power of ten up to `maxPower`, as the nearest number. -/
def powerOfTen (e : Nat) : Double :=
  Binary.ofInt (Nat.pow 10 e)

/-- Divides by the greatest power of ten while more places than that are to be moved, and then by
the rest; a number that has become zero stays zero. -/
def scaleDown (x : Double) (places : Nat) : Double :=
  if maxPower < places ∧ x.pattern ≠ 0 then
    scaleDown (x.div (powerOfTen maxPower)) (places - maxPower)
  else if maxPower < places then x
  else x.div (powerOfTen places)
termination_by places
decreasing_by simp only [maxPower] at *; omega

/-- A word scaled by a power of ten: each operation rounds once. Nothing if the result is too
great. -/
def scaleWord (word : Nat) (exponent : Int) : Option Double :=
  let x : Double := Binary.ofInt word
  match exponent with
  | .ofNat e =>
    if e ≤ maxPower then
      let y := x.mul (powerOfTen e)
      if y.isFinite then some y else none
    else if word = 0 then some x
    else none
  | .negSucc e => some (scaleDown x (e + 1))

/-- The number of a numeral with a point, an exponent or too many digits. -/
def Numeral.real? (n : Numeral) : Option Double :=
  let taken := (Leading.ofWhole n.whole).takeFraction n.fraction
  let sign (x : Double) : Double := if n.negative then x.neg else x
  match n.exponent with
  | none => (scaleWord taken.word taken.exponent).map sign
  | some (negative, ds) =>
    let e := Text.ofDigits ds
    if Nat.pow 2 31 ≤ e then
      if taken.word = 0 ∨ negative then some (sign (Binary.zero false)) else none
    else
      (scaleWord taken.word (taken.exponent + if negative then -(e : Int) else e)).map sign

/-- The number that a numeral stands for; nothing if it is too great. -/
def Numeral.number? (n : Numeral) : Option Number :=
  if n.fraction.isEmpty ∧ n.exponent.isNone then
    let magnitude := Text.ofDigits n.whole
    if n.negative then
      if magnitude = 0 ∨ Nat.pow 2 63 < magnitude then n.real?.map .real
      else some (.whole (-(magnitude : Int)))
    else if magnitude ≤ maxWord then some (.whole magnitude)
    else n.real?.map .real
  else n.real?.map .real

/-- The numeral of a whole number. -/
def Numeral.ofInt (n : Int) : Numeral :=
  ⟨n < 0, Text.digitsOf n.natAbs, [], none⟩

/-- The exponents of the first digit for which a number is written without an exponent. -/
structure PositionalRange where
  least : Int
  greatest : Int
  deriving DecidableEq, Repr

/-- Numbers of 32 bits are positional from a millionth to below ten million millions, all others
from a hundred-thousandth to below ten thousand million millions. -/
def PositionalRange.ofFormat (f : Format) : PositionalRange :=
  if f = .single then ⟨-6, 12⟩ else ⟨-5, 15⟩

/-- The numeral of a decimal: positional with at least one digit after the point for exponents of
the range, and otherwise one digit before the point and an exponent. -/
def Numeral.ofScientific (range : PositionalRange) (negative : Bool) (s : Scientific) : Numeral :=
  if range.least ≤ s.leading ∧ s.leading ≤ range.greatest then
    match s.positional with
    | (whole, []) => ⟨negative, whole, [Text.zeroDigit], none⟩
    | (whole, fraction) => ⟨negative, whole, fraction, none⟩
  else
    ⟨negative, s.digitList.take 1, s.digitList.drop 1,
      some (s.leading < 0, Text.digitsOf s.leading.natAbs)⟩

/-- The numeral of a finite number: the shortest digits that read back, a tie going to the even
digit. -/
def Numeral.ofBinary? {f : Format} (x : Binary f) : Option Numeral :=
  match x.view with
  | .finite s m e =>
    if m = 0 then some ⟨s, [Text.zeroDigit], [Text.zeroDigit], none⟩
    else some (Numeral.ofScientific (.ofFormat f) s (Binary.shortestOf f .toEven m e))
  | _ => none

/-- The numeral of a JSON number. -/
def Number.numeral : Number → Option Numeral
  | .whole n => some (Numeral.ofInt n)
  | .real x => Numeral.ofBinary? x

end EntitySql.Json
