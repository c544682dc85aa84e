/-!
# Binary floating-point numbers

A number of an interchange format is its bit pattern: a sign, an exponent field
and a fraction field. `Binary.view` decodes it exactly, and `Binary.ofRatio`
rounds any fraction to the nearest number, a tie going to the even neighbour.
-/

namespace EntitySql

/-- The widths of the two magnitude fields of an interchange format. -/
structure Format where
  /-- Width of the exponent field. -/
  exponentBits : Nat
  /-- Width of the fraction field. -/
  fractionBits : Nat
  deriving DecidableEq, Repr

namespace Format

/-- The format of 32 bits. -/
def single : Format := ⟨8, 23⟩

/-- The format of 64 bits. -/
def double : Format := ⟨11, 52⟩

/-- The number of bits of a pattern. -/
def width (f : Format) : Nat := 1 + f.exponentBits + f.fractionBits

/-- The power of two that the last bit of a subnormal number weighs. -/
def minExponent (f : Format) : Int :=
  (2 : Int) - Nat.pow 2 (f.exponentBits - 1) - f.fractionBits

/-- The magnitude pattern of infinity: all exponent bits set and no fraction bit. -/
def infinityPattern (f : Format) : Nat :=
  (Nat.pow 2 f.exponentBits - 1) * Nat.pow 2 f.fractionBits

end Format

/-- A number of a binary interchange format. -/
structure Binary (f : Format) where
  /-- The bit pattern, the sign first. -/
  bits : BitVec f.width
  deriving DecidableEq, Repr

namespace Binary

/-- What a bit pattern stands for; a finite number is `mantissa * 2 ^ exponent` with its sign. -/
inductive View where
  | nan
  | infinite (negative : Bool)
  | finite (negative : Bool) (mantissa : Nat) (exponent : Int)
  deriving DecidableEq, Repr

variable {f : Format}

/-- The number with a given sign and a given pattern of exponent and fraction. -/
def ofPattern (negative : Bool) (pattern : Nat) : Binary f :=
  ⟨BitVec.ofNat f.width
    ((if negative then Nat.pow 2 (f.exponentBits + f.fractionBits) else 0) + pattern)⟩

/-- Whether the sign bit is set. -/
def negative (x : Binary f) : Bool :=
  x.bits.toNat / Nat.pow 2 (f.exponentBits + f.fractionBits) % 2 == 1

/-- The pattern without its sign. -/
def pattern (x : Binary f) : Nat :=
  x.bits.toNat % Nat.pow 2 (f.exponentBits + f.fractionBits)

/-- The exact meaning of a bit pattern. -/
def view (x : Binary f) : View :=
  let field := x.pattern / Nat.pow 2 f.fractionBits
  let fraction := x.pattern % Nat.pow 2 f.fractionBits
  if field = Nat.pow 2 f.exponentBits - 1 then
    if fraction = 0 then .infinite x.negative else .nan
  else if field = 0 then .finite x.negative fraction f.minExponent
  else .finite x.negative (Nat.pow 2 f.fractionBits + fraction) (f.minExponent + (field - 1 : Nat))

/-- The number zero with a sign. -/
def zero (negative : Bool) : Binary f := ofPattern negative 0

/-- Infinity with a sign. -/
def infinity (negative : Bool) : Binary f := ofPattern negative f.infinityPattern

/-- The pattern that stands for all results that are no number. -/
def nan : Binary f := ofPattern false (f.infinityPattern + Nat.pow 2 (f.fractionBits - 1))

/-- The same number with the other sign. -/
def neg (x : Binary f) : Binary f := ofPattern (!x.negative) x.pattern

/-- Whether a pattern is no number. -/
def isNaN (x : Binary f) : Bool :=
  x.view == .nan

/-- Whether a pattern is a finite number. -/
def isFinite (x : Binary f) : Bool :=
  match x.view with
  | .finite .. => true
  | _ => false

/-- The whole number nearest to `num / den`, a half going to the even neighbour. -/
def roundEven (num den : Nat) : Nat :=
  let quotient := num / den
  let twice := 2 * (num % den)
  if twice < den then quotient
  else if den < twice then quotient + 1
  else quotient + quotient % 2

/-- The whole number nearest to `num / den`, a half going up. -/
def roundHalfUp (num den : Nat) : Nat :=
  (2 * num + den) / (2 * den)

/-- Multiplies a fraction by a power of two and gives its two terms. -/
def scaleTwo (num den : Nat) : Int → Nat × Nat
  | .ofNat e => (num * Nat.pow 2 e, den)
  | .negSucc e => (num, den * Nat.pow 2 (e + 1))

/-- The greatest power of two that is at most `num / den`, for positive terms. -/
def logTwo (num den : Nat) : Int :=
  let guess := (num.log2 : Int) - den.log2
  let (n, d) := scaleTwo num den (-guess)
  if d ≤ n then guess else guess - 1

/-- The number nearest to `num / den` with a given sign, a tie going to the even neighbour. -/
def ofRatio (negative : Bool) (num den : Nat) : Binary f :=
  if num = 0 then zero negative
  else
    let exponent := max f.minExponent (logTwo num den - f.fractionBits)
    let (n, d) := scaleTwo num den (-exponent)
    let pattern := (exponent - f.minExponent).toNat * Nat.pow 2 f.fractionBits + roundEven n d
    ofPattern negative (min pattern f.infinityPattern)

/-- The number nearest to `mantissa * 2 ^ exponent` with a given sign. -/
def ofScaled (negative : Bool) (mantissa : Nat) (exponent : Int) : Binary f :=
  let (n, d) := scaleTwo mantissa 1 exponent
  ofRatio negative n d

/-- The number nearest to a whole number. -/
def ofInt (n : Int) : Binary f :=
  ofRatio (n < 0) n.natAbs 1

/-- The number of another format nearest to a number. -/
def convert {g : Format} (x : Binary f) : Binary g :=
  match x.view with
  | .nan => nan
  | .infinite s => infinity s
  | .finite s m e => ofScaled s m e

/-- A whole number with a sign. -/
def signed (negative : Bool) (magnitude : Nat) : Int :=
  if negative then -(magnitude : Int) else magnitude

/-- The rounded sum of two finite numbers; anything else is no number. A sum of zero has a minus
sign only if both terms have one. -/
def add (x y : Binary f) : Binary f :=
  match x.view, y.view with
  | .finite s m e, .finite t n d =>
    let low := min e d
    let sum := signed s (m * Nat.pow 2 (e - low).toNat) + signed t (n * Nat.pow 2 (d - low).toNat)
    if sum = 0 then zero (s && t) else ofScaled (sum < 0) sum.natAbs low
  | _, _ => nan

/-- The rounded product of two finite numbers; anything else is no number. -/
def mul (x y : Binary f) : Binary f :=
  match x.view, y.view with
  | .finite s m e, .finite t n d => ofScaled (s != t) (m * n) (e + d)
  | _, _ => nan

/-- The rounded quotient of a finite number by a finite number other than zero. -/
def div (x y : Binary f) : Binary f :=
  match x.view, y.view with
  | .finite s m e, .finite t n d =>
    if n = 0 then nan
    else
      let (num, den) := scaleTwo m n (e - d)
      ofRatio (s != t) num den
  | _, _ => nan

/-- The whole number nearest to a finite number, a half going away from zero. -/
def round (x : Binary f) : Binary f :=
  match x.view with
  | .finite s m (.negSucc e) => ofScaled s (roundHalfUp m (Nat.pow 2 (e + 1))) 0
  | _ => x

/-- The number that a finite whole number is, and nothing for any other. -/
def toInt? (x : Binary f) : Option Int :=
  match x.view with
  | .finite s m (.ofNat e) => some (signed s (m * Nat.pow 2 e))
  | .finite s m (.negSucc e) =>
    if m % Nat.pow 2 (e + 1) = 0 then some (signed s (m / Nat.pow 2 (e + 1))) else none
  | _ => none

/-- The sign, the digits and the power of ten of a decimal numeral, rounded to the nearest number.
The two guards give the same answer as rounding, for a numeral far outside the format's range. -/
def ofDecimal (negative : Bool) (digits : Nat) (exponent : Int) : Binary f :=
  let top := exponent + (Nat.toDigits 10 digits).length
  if digits = 0 then zero negative
  else if (Nat.pow 2 f.exponentBits : Int) < top then infinity negative
  else if top < -(Nat.pow 2 f.exponentBits : Int) then zero negative
  else
    match exponent with
    | .ofNat e => ofRatio negative (digits * Nat.pow 10 e) 1
    | .negSucc e => ofRatio negative digits (Nat.pow 10 (e + 1))

/-- The number with given bits, and nothing if there are more bits than the format has. -/
def ofBits? (n : Nat) : Option (Binary f) :=
  if n < Nat.pow 2 f.width then some ⟨BitVec.ofNat f.width n⟩ else none

end Binary

/-- A number of 32 bits. -/
abbrev Single := Binary .single

/-- A number of 64 bits. -/
abbrev Double := Binary .double

end EntitySql
