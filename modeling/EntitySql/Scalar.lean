import EntitySql.Binary.Reader
import EntitySql.Decimal.Reader
import EntitySql.Fault
import EntitySql.Text.Blank
import EntitySql.Text.Letters
import EntitySql.Value.Basic

/-!
# Reading values as typed scalars

A column may store a number as text or a truth value as one or zero. Each scalar
type says which values it accepts; an optional type also accepts null.
-/

namespace EntitySql

namespace Value

/-- The whole number that fits 64 bits and lies nearest to a given one. -/
def clampWord (n : Int) : Int64 :=
  Int64.ofInt (max Int64.minValue.toInt (min n Int64.maxValue.toInt))

/-- A whole number as a word of 64 bits, if it fits. -/
def wordOf? (n : Int) : Option Int64 :=
  if Int64.minValue.toInt ≤ n ∧ n ≤ Int64.maxValue.toInt then some (Int64.ofInt n) else none

/-- A value as a whole number: a truth value counts one or zero, a binary number without a
fraction is brought into the range of 64 bits, and a text must spell the number. -/
def asInt64? : Value → Option Int64
  | .bool b => some (if b then 1 else 0)
  | .int32 n => some n.toInt64
  | .int64 n => some n
  | .single x => x.toInt?.map clampWord
  | .double x => x.toInt?.map clampWord
  | .string s => (Text.readInt? (Text.trim s)).bind wordOf?
  | .decimal d => d.toInt?.bind wordOf?
  | _ => none

/-- A value as a binary number. -/
def asDouble? : Value → Option Double
  | .int32 n => some (Binary.ofInt n.toInt)
  | .int64 n => some (Binary.ofInt n.toInt)
  | .single x => some x.convert
  | .double x => some x
  | .string s => Binary.read? (Text.trim s)
  | .decimal d => some d.toDouble
  | _ => none

/-- A value as a truth value: a text says it in words or by one and zero, any other value counts as
true unless it is the number zero. -/
def asBool? : Value → Option Bool
  | .bool b => some b
  | .string s =>
    match Text.foldCase (Text.trim s) with
    | "true" | "1" => some true
    | "false" | "0" => some false
    | _ => none
  | v => v.asInt64?.map (· != 0)

end Value

/-- The types that a value can be read as. -/
inductive ScalarType where
  | int16
  | int32
  | int64
  | word32
  | single
  | double
  | bool
  | string
  | bytes
  | json
  | value
  | timestamp
  | decimal
  | uuid
  deriving DecidableEq, Repr

namespace ScalarType

/-- The type that holds the scalars of a scalar type. -/
abbrev Carrier : ScalarType → Type
  | .int16 => Int16
  | .int32 => Int32
  | .int64 => Int64
  | .word32 => UInt32
  | .single => Single
  | .double => Double
  | .bool => Bool
  | .string => String
  | .bytes => List UInt8
  | .json => Json
  | .value => Value
  | .timestamp => Timestamp
  | .decimal => Decimal
  | .uuid => Uuid

/-- The name of a scalar type in messages. -/
def expected : ScalarType → String
  | .int16 => "i16"
  | .int32 => "i32"
  | .int64 => "i64"
  | .word32 => "u32"
  | .single => "f32"
  | .double => "f64"
  | .bool => "bool"
  | .string => "String"
  | .bytes => "Vec<u8>"
  | .json => "JSON"
  | .value => "Value"
  | .timestamp => "NaiveDateTime"
  | .decimal => "Decimal"
  | .uuid => "Uuid"

/-- The least and the greatest number of a range. -/
abbrev Range := Int × Int

/-- The whole number of a value, if it lies in a range. -/
def wholeIn? (range : Range) (v : Value) : Option Int :=
  v.asInt64?.bind fun n =>
    if range.1 ≤ n.toInt ∧ n.toInt ≤ range.2 then some n.toInt else none

/-- The text of a value; null, lists and bytes have none. -/
def string? : Value → Option String
  | .string s => some s
  | .null => none
  | .list _ => none
  | .bytes _ => none
  | v => some v.text

/-- The bytes of a value; those of a text are its UTF-8 form. -/
def bytes? : Value → Option (List UInt8)
  | .bytes bs => some bs
  | .string s => some s.toUTF8.toList
  | _ => none

/-- The timestamp of a value. -/
def timestamp? : Value → Option Timestamp
  | .timestamp t => some t
  | .string s => Timestamp.read? (Text.trim s)
  | _ => none

/-- The decimal of a value. -/
def decimal? : Value → Option Decimal
  | .decimal d => some d
  | .int32 n => Decimal.ofInt? n.toInt
  | .int64 n => Decimal.ofInt? n.toInt
  | .single x => Decimal.ofDouble? x.convert
  | .double x => Decimal.ofDouble? x
  | .string s => Decimal.read? (Text.trim s)
  | _ => none

/-- The identifier of a value. -/
def uuid? : Value → Option Uuid
  | .uuid u => some u
  | .string s => Uuid.read? (Text.trim s)
  | .bytes bs => Uuid.ofBytes? bs
  | _ => none

/-- The scalar of a value for each type except JSON, whose texts can also be ill-formed. -/
def find? : (t : ScalarType) → Value → Option t.Carrier
  | .int16, v => (wholeIn? (Int16.minValue.toInt, Int16.maxValue.toInt) v).map Int16.ofInt
  | .int32, v => (wholeIn? (Int32.minValue.toInt, Int32.maxValue.toInt) v).map Int32.ofInt
  | .int64, v => v.asInt64?
  | .word32, v => (wholeIn? (0, UInt32.size - 1) v).map fun n => UInt32.ofNat n.toNat
  | .single, v => v.asDouble?.map Binary.convert
  | .double, v => v.asDouble?
  | .bool, v => v.asBool?
  | .string, v => string? v
  | .bytes, v => bytes? v
  | .json, v => match v with | .json j => some j | _ => none
  | .value, v => some v
  | .timestamp, v => timestamp? v
  | .decimal, v => decimal? v
  | .uuid, v => uuid? v

/-- Reads a value as a scalar. A text that is read as JSON must be JSON text; every other value
that does not fit is a conversion fault. -/
def read (t : ScalarType) (v : Value) : Except Fault t.Carrier :=
  match t, v with
  | .json, .string s =>
    match Json.parse? s with
    | some j => .ok j
    | none => .error .configuration
  | t, v =>
    match t.find? v with
    | some x => .ok x
    | none => .error (.conversion t.expected v.described)

/-- The value that stores a scalar. A number of 16 bits is stored in 32, and one of 32 bits without
a sign in 64. -/
def toValue : (t : ScalarType) → t.Carrier → Value
  | .int16, n => .int32 n.toInt32
  | .int32, n => .int32 n
  | .int64, n => .int64 n
  | .word32, n => .int64 (Int64.ofNat n.toNat)
  | .single, x => .single x
  | .double, x => .double x
  | .bool, b => .bool b
  | .string, s => .string s
  | .bytes, bs => .bytes bs
  | .json, j => .json j
  | .value, v => v
  | .timestamp, t => .timestamp t
  | .decimal, d => .decimal d
  | .uuid, u => .uuid u

/-- The scalar that a member has before it is assigned. -/
def default : (t : ScalarType) → t.Carrier
  | .int16 => 0
  | .int32 => 0
  | .int64 => 0
  | .word32 => 0
  | .single => Binary.zero false
  | .double => Binary.zero false
  | .bool => false
  | .string => ""
  | .bytes => []
  | .json => .null
  | .value => .null
  | .timestamp => Timestamp.epoch
  | .decimal => Decimal.zero
  | .uuid => Uuid.nil

end ScalarType

/-- A scalar type, or one that also allows null. -/
inductive ReadType where
  | required (t : ScalarType)
  | optional (t : ScalarType)
  deriving DecidableEq, Repr

namespace ReadType

/-- The type that holds what is read. -/
abbrev Carrier : ReadType → Type
  | .required t => t.Carrier
  | .optional t => Option t.Carrier

/-- Reads a value; an optional type reads null as nothing. -/
def read : (t : ReadType) → Value → Except Fault t.Carrier
  | .required t, v => t.read v
  | .optional _, .null => .ok none
  | .optional t, v => (t.read v).map some

/-- Reads a value that may be missing; a missing value is read like null. -/
def readMissing (t : ReadType) (v : Option Value) : Except Fault t.Carrier :=
  t.read (v.getD .null)

/-- The value that stores what was read; nothing is stored as null. -/
def toValue : (t : ReadType) → t.Carrier → Value
  | .required t, x => t.toValue x
  | .optional _, none => .null
  | .optional t, some x => t.toValue x

/-- What a member holds before it is assigned. -/
def default : (t : ReadType) → t.Carrier
  | .required t => t.default
  | .optional _ => none

/-- The value that a member of this type holds after a value was written into it. -/
def store (t : ReadType) (v : Value) : Except Fault Value :=
  (t.read v).map t.toValue

/-- A member that may hold nothing takes a value other than null like one that must hold it. -/
theorem store_optional (t : ScalarType) {v : Value} (h : v.isNull = false) :
    (optional t).store v = (t.read v).map t.toValue := by
  have hread : (optional t).read v = (t.read v).map some := by
    rw [read]
    intro hnull
    rw [hnull] at h
    cases h
  rw [store, hread]
  cases t.read v <;> rfl

/-- The value that a member of this type holds before it is assigned. -/
def initial (t : ReadType) : Value :=
  t.toValue t.default

end ReadType

end EntitySql
