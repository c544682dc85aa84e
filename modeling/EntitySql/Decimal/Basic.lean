import EntitySql.Binary.Basic
import EntitySql.Text.Digits

/-!
# Fixed-point decimals

A decimal is `mantissa / 10 ^ scale` with a sign; the mantissa has 96 bits and the
scale is at most 28. The scale is part of the value: `1.5` and `1.50` differ.
-/

namespace EntitySql

/-- The first mantissa that is too great. -/
def Decimal.mantissaLimit : Nat := Nat.pow 2 96

/-- The greatest number of digits after the point. -/
def Decimal.maxScale : Nat := 28

/-- A fixed-point decimal. -/
structure Decimal where
  /-- Whether a minus sign stands in front; a zero may have one. -/
  negative : Bool
  mantissa : Nat
  /-- The number of digits after the point. -/
  scale : Nat
  /-- The mantissa fits 96 bits. -/
  mantissa_lt : mantissa < Decimal.mantissaLimit
  /-- At most 28 digits stand after the point. -/
  scale_le : scale ≤ Decimal.maxScale
  deriving DecidableEq, Repr

namespace Decimal

/-- Zero without digits after the point. -/
def zero : Decimal := ⟨false, 0, 0, by decide, by decide⟩

instance : Inhabited Decimal := ⟨zero⟩

/-- The decimal of three parts, if it is one. -/
def ofParts? (negative : Bool) (mantissa scale : Nat) : Option Decimal :=
  if hmantissa : mantissa < mantissaLimit then
    if hscale : scale ≤ maxScale then some ⟨negative, mantissa, scale, hmantissa, hscale⟩ else none
  else none

/-- The decimal of a whole number, if it fits. -/
def ofInt? (n : Int) : Option Decimal :=
  ofParts? (n < 0) n.natAbs 0

/-- The digits with a point before the last `scale` of them, and at least one before the point. -/
def text (d : Decimal) : String :=
  let digits := Nat.toDigits 10 d.mantissa
  let filled := List.replicate (d.scale + 1 - digits.length) '0' ++ digits
  let (whole, fraction) := filled.splitAt (filled.length - d.scale)
  let magnitude := if d.scale = 0 then whole else whole ++ '.' :: fraction
  String.ofList (if d.negative then '-' :: magnitude else magnitude)

/-- The whole number that a decimal is, and nothing if it has a fraction. -/
def toInt? (d : Decimal) : Option Int :=
  if d.mantissa % Nat.pow 10 d.scale = 0 then
    some (Binary.signed d.negative (d.mantissa / Nat.pow 10 d.scale))
  else none

/-- The number of 64 bits of a decimal. The part before the point and the part after it are
rounded one by one; their sum is rounded once more, to the places of the decimal. A zero loses its
sign if no digit stands after the point. -/
def toDouble (d : Decimal) : Double :=
  if d.scale = 0 then Binary.ofInt (Binary.signed d.negative d.mantissa)
  else
    let unit := Nat.pow 10 d.scale
    let whole : Double := Binary.ofInt (d.mantissa / unit : Nat)
    let power : Double := Binary.ofInt unit
    let fraction := (Binary.ofInt (d.mantissa % unit : Nat)).div power
    let magnitude :=
      if d.mantissa % unit = 0 then whole
      else ((whole.add fraction).mul power).round.div power
    if d.negative then magnitude.neg else magnitude

/-- `mantissa * 10 ^ tens`, on the way from a binary number to a decimal. -/
structure Working where
  mantissa : Nat
  tens : Int

/-- Turns a factor one half into a tenth and a factor five: an even mantissa is halved instead, and
so is one for which five times its value does not fit. -/
def Working.halve (w : Working) : Working :=
  if w.mantissa % 2 = 0 ∨ mantissaLimit ≤ 5 * w.mantissa then ⟨w.mantissa / 2, w.tens + 1⟩
  else ⟨5 * w.mantissa, w.tens⟩

/-- Turns a factor two into a ten and a division by five: the mantissa is doubled instead while
it has room. -/
def Working.double (w : Working) : Working :=
  if w.mantissa < Nat.pow 2 95 then ⟨2 * w.mantissa, w.tens - 1⟩ else ⟨w.mantissa / 5, w.tens⟩

/-- Applies a step a number of times. -/
def Working.repeated (step : Working → Working) : Nat → Working → Working
  | 0, w => w
  | n + 1, w => Working.repeated step n (step w)

/-- Takes a power of two into the mantissa and the power of ten. -/
def Working.absorb (mantissa : Nat) : Int → Working
  | .ofNat e => Working.repeated Working.double e ⟨mantissa, e⟩
  | .negSucc e => Working.repeated Working.halve (e + 1) ⟨mantissa, .negSucc e⟩

/-- Multiplies by ten until no power of ten is left; nothing if the mantissa runs over. -/
def Working.raise (mantissa : Nat) : Nat → Option Nat
  | 0 => some mantissa
  | n + 1 =>
    if 10 * mantissa < mantissaLimit then Working.raise (10 * mantissa) n else none

/-- Leaves out digits at the end and rounds a half up. -/
def dropDigits (mantissa count : Nat) : Nat :=
  Binary.roundHalfUp mantissa (Nat.pow 10 count)

/-- Drops digits until at most 28 stand after the point; a mantissa that runs out is zero. -/
def Working.fit (mantissa : Nat) (places : Nat) : Nat → Nat × Nat
  | 0 => (mantissa, places)
  | fuel + 1 =>
    if places ≤ maxScale then (mantissa, places)
    else if mantissa / 10 = 0 then (0, 0)
    else Working.fit (dropDigits mantissa 1) (places - 1) fuel

/-- Drops digits after the point that a number of 64 bits does not guarantee: those that take the
mantissa to 52 bits or more. -/
def Working.trust (mantissa : Nat) : Nat → Nat × Nat
  | 0 => (mantissa, 0)
  | places + 1 =>
    if Nat.pow 2 52 ≤ mantissa then Working.trust (dropDigits mantissa 1) places
    else (mantissa, places + 1)

/-- Drops zeros at the end of the digits after the point. -/
def Working.shorten (mantissa : Nat) : Nat → Nat × Nat
  | 0 => (mantissa, 0)
  | places + 1 =>
    if mantissa % 10 = 0 then Working.shorten (mantissa / 10) places else (mantissa, places + 1)

/-- Whether a positive number reaches the first mantissa that is too great. -/
def isTooGreat (mantissa : Nat) (exponent : Int) : Bool :=
  let (num, den) := Binary.scaleTwo mantissa 1 exponent
  mantissaLimit * den ≤ num

/-- The decimal of a binary number to about 15 digits, without zeros at its end; nothing if the
number is not finite or too great. -/
def ofDouble? (x : Double) : Option Decimal :=
  match x.view with
  | .finite negative m e =>
    if m = 0 then ofParts? negative 0 0
    else if isTooGreat m e then none
    else
      match Working.absorb m e with
      | ⟨mantissa, .ofNat tens⟩ => (Working.raise mantissa tens).bind fun n => ofParts? negative n 0
      | ⟨mantissa, .negSucc tens⟩ =>
        let (mantissa, places) := Working.fit mantissa (tens + 1) (tens + 1)
        let (mantissa, places) := Working.trust mantissa places
        let (mantissa, places) := Working.shorten mantissa places
        ofParts? negative mantissa places
  | _ => none

end Decimal

end EntitySql
