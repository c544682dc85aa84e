import EntitySql.Binary.Basic
import EntitySql.Text.Digits
import EntitySql.Text.Letters

/-!
# Reading numbers from text

An optional sign, then either a numeral with an optional point and an optional
exponent, or one of the words for infinity and for no number. The numeral is
rounded to the nearest number of the format.
-/

namespace EntitySql.Binary

/-- The digits of a numeral without its point, and the power of ten of the last one. -/
structure Decimals where
  digits : List (Fin 10)
  exponent : Int

/-- The exponent after its mark: an optional sign and digits, to the end of the text. -/
def readExponent? (cs : List Char) : Option Int :=
  match cs with
  | [] => some 0
  | c :: rest =>
    if c == 'e' || c == 'E' then Text.readInt? (String.ofList rest) else none

/-- A numeral without a sign: digits around an optional point, at least one, and an exponent. -/
def readDecimals? (cs : List Char) : Option Decimals :=
  let (whole, rest) := Text.spanDigits cs
  let (fraction, rest) :=
    match rest with
    | '.' :: tail => Text.spanDigits tail
    | _ => ([], rest)
  if whole.isEmpty && fraction.isEmpty then none
  else (readExponent? rest).map fun e => ⟨whole ++ fraction, e - fraction.length⟩

/-- A number without a sign. -/
def readMagnitude? {f : Format} (negative : Bool) (cs : List Char) : Option (Binary f) :=
  let word := Text.foldCase (String.ofList cs)
  if word == "inf" || word == "infinity" then some (infinity negative)
  else if word == "nan" then some nan
  else (readDecimals? cs).map fun d => ofDecimal negative (Text.ofDigits d.digits) d.exponent

/-- The number that a text spells. -/
def read? {f : Format} (s : String) : Option (Binary f) :=
  match s.toList with
  | '-' :: cs => readMagnitude? true cs
  | '+' :: cs => readMagnitude? false cs
  | cs => readMagnitude? false cs

end EntitySql.Binary
