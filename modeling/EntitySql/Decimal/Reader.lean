import EntitySql.Decimal.Basic

/-!
# Reading decimals from text

A sign, digits with an optional point, and an optional exponent that moves the
point by at most 28 places. Digits after the point that find no room are left out,
the first of them rounding a half up; before the point they are an error.
-/

namespace EntitySql.Decimal

/-- What has been read of a numeral. -/
structure Taken where
  mantissa : Nat
  scale : Nat
  /-- Whether the point has been read. -/
  pointed : Bool
  /-- Whether a digit has been read. -/
  started : Bool

/-- Rounds by the first digit that finds no room. -/
def Taken.round (p : Taken) (digit : Nat) : Option Taken :=
  if digit < 5 then some p
  else if p.mantissa + 1 < mantissaLimit then some { p with mantissa := p.mantissa + 1 }
  else if p.scale = 0 then none
  else some { p with mantissa := (p.mantissa + 5) / 10, scale := p.scale - 1 }

/-- Whether one more digit finds room. -/
def Taken.hasRoom (p : Taken) (digit : Nat) : Bool :=
  10 * p.mantissa + digit < mantissaLimit && !(p.pointed && maxScale ≤ p.scale)

/-- Mantissas below this limit take one more digit within a word of 64 bits, with room to spare. -/
def wordLimit : Nat := UInt64.size / 10 - (UInt8.size - 1)

/-- Whether an underscore ends the digits that count: it does after the last place that a decimal
has, if the digits before that place stay below `wordLimit`. -/
def Taken.endsAtUnderscore (p : Taken) : Bool :=
  p.pointed && maxScale ≤ p.scale && p.mantissa / 10 < wordLimit

/-- Whether a text may follow the digits that count: more digits and underscores. -/
def isRemainder (cs : List Char) : Bool :=
  cs.all fun c => (Text.digit? c).isSome || c == '_'

/-- Reads digits, underscores between them and at most one point. -/
def Taken.readDigits? (p : Taken) : List Char → Option Taken
  | [] => if p.started then some p else none
  | c :: cs =>
    match Text.digit? c with
    | some d =>
      if p.hasRoom d.val then
        Taken.readDigits?
          { p with
            mantissa := 10 * p.mantissa + d.val
            scale := if p.pointed then p.scale + 1 else 0
            started := true } cs
      else if p.pointed && isRemainder cs then p.round d.val
      else none
    | none =>
      if c = '.' ∧ p.pointed = false then Taken.readDigits? { p with pointed := true } cs
      else if c = '_' ∧ p.started then
        if p.endsAtUnderscore then (if isRemainder cs then some p else none)
        else Taken.readDigits? p cs
      else none

/-- A move of the point. -/
inductive Shift where
  | left (places : Nat)
  | right (places : Nat)
  deriving DecidableEq, Repr

/-- The move that an exponent asks for: to the left after a minus sign, and otherwise to the right.
A plus sign may stand before the digits in both cases. -/
def Shift.read? : List Char → Option Shift
  | '-' :: cs => (Text.readNat? cs).map .left
  | cs => (Text.readNat? cs).map .right

/-- Moves the point of a numeral. To the left, digits beyond the last place are left out and a half
is rounded up; to the right, zeros are added once no digit stands after the point. -/
def Taken.shift? (p : Taken) (negative : Bool) : Shift → Option Decimal
  | .left places =>
    if maxScale < places then none
    else
      let excess := p.scale + places - maxScale
      ofParts? negative (dropDigits p.mantissa excess) (p.scale + places - excess)
  | .right places =>
    if maxScale < places then none
    else ofParts? negative (p.mantissa * Nat.pow 10 (places - p.scale)) (p.scale - places)

/-- A numeral without its sign; a numeral without a digit other than zero has no sign. -/
def readMagnitude? (negative : Bool) (cs : List Char) : Option Decimal :=
  let isMark (c : Char) : Bool := c == 'e' || c == 'E'
  let base := cs.takeWhile fun c => !isMark c
  let shift : Option Shift :=
    match cs.dropWhile fun c => !isMark c with
    | [] => some (.right 0)
    | _ :: exponent => Shift.read? exponent
  match Taken.readDigits? ⟨0, 0, false, false⟩ base, shift with
  | some p, some s => p.shift? (negative && p.mantissa != 0) s
  | _, _ => none

/-- The decimal that a text spells. Of the zeros only one that is left of a number too small for
its last place has a sign. -/
def read? (s : String) : Option Decimal :=
  match s.toList with
  | '-' :: cs => readMagnitude? true cs
  | '+' :: cs => readMagnitude? false cs
  | cs => readMagnitude? false cs

end EntitySql.Decimal
