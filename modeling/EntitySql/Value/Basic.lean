import EntitySql.Decimal.Basic
import EntitySql.Json.Basic
import EntitySql.Timestamp
import EntitySql.Uuid

/-!
# Database values

A value is bound to a statement as a parameter or read from a column of a result.
This file holds its kinds, their names and the plain text of a value.
-/

namespace EntitySql

/-- The kinds of data that a parameter can be declared to hold. -/
inductive DataType where
  | boolean
  | int32
  | int64
  | float
  | double
  | decimal
  | string
  | binary
  | dateTime
  | json
  | guid
  deriving DecidableEq, Repr

/-- All kinds of data. -/
def DataType.all : List DataType :=
  [.boolean, .int32, .int64, .float, .double, .decimal, .string, .binary, .dateTime, .json, .guid]

/-- The name of a kind of data. -/
def DataType.name : DataType → String
  | .boolean => "Boolean"
  | .int32 => "Int32"
  | .int64 => "Int64"
  | .float => "Float"
  | .double => "Double"
  | .decimal => "Decimal"
  | .string => "String"
  | .binary => "Binary"
  | .dateTime => "DateTime"
  | .json => "Json"
  | .guid => "Guid"

/-- A value of a parameter or a column. A list occurs only as the right side of a membership
test. -/
inductive Value where
  | null
  | bool (b : Bool)
  | int32 (n : Int32)
  | int64 (n : Int64)
  | single (x : Single)
  | double (x : Double)
  | string (s : String)
  | bytes (bs : List UInt8)
  | json (j : Json)
  | list (vs : List Value)
  | timestamp (t : Timestamp)
  | decimal (d : Decimal)
  | uuid (u : Uuid)
  deriving Repr

namespace Value

instance : Inhabited Value := ⟨.null⟩

/-- Whether a value is null. -/
def isNull : Value → Bool
  | .null => true
  | _ => false

/-- Whether a value is a list. -/
def isList : Value → Bool
  | .list _ => true
  | _ => false

/-- Whether a value is a truth value. -/
def isBool : Value → Bool
  | .bool _ => true
  | _ => false

/-- The name that SQL gives to the kind of a value. -/
def typeName : Value → String
  | .null => "NULL"
  | .bool _ => "BOOLEAN"
  | .int32 _ => "INTEGER"
  | .int64 _ => "BIGINT"
  | .single _ => "REAL"
  | .double _ => "DOUBLE PRECISION"
  | .string _ => "TEXT"
  | .bytes _ => "BLOB"
  | .json _ => "JSON"
  | .list _ => "ARRAY"
  | .timestamp _ => "TIMESTAMP"
  | .decimal _ => "DECIMAL"
  | .uuid _ => "UUID"

/-- The kind of data of a value; null and lists have none. -/
def dataType? : Value → Option DataType
  | .null => none
  | .bool _ => some .boolean
  | .int32 _ => some .int32
  | .int64 _ => some .int64
  | .single _ => some .float
  | .double _ => some .double
  | .string _ => some .string
  | .bytes _ => some .binary
  | .json _ => some .json
  | .list _ => none
  | .timestamp _ => some .dateTime
  | .decimal _ => some .decimal
  | .uuid _ => some .guid

/-- The items of a list. -/
def items? : Value → Option (List Value)
  | .list vs => some vs
  | _ => none

/-- A truth value becomes one or zero; every other value stays as it is. -/
def boolToInt : Value → Value
  | .bool b => .int32 (if b then 1 else 0)
  | v => v

mutual

/-- Whether a pattern that is no number occurs in a value; such a value differs from itself. -/
def holdsNaN : Value → Bool
  | .single x => x.isNaN
  | .double x => x.isNaN
  | .list vs => anyHoldsNaN vs
  | _ => false

/-- Whether a pattern that is no number occurs in one of several values. -/
def anyHoldsNaN : List Value → Bool
  | [] => false
  | v :: vs => v.holdsNaN || anyHoldsNaN vs

end

mutual

/-- The plain text of a value. -/
def text : Value → String
  | .null => "NULL"
  | .bool b => if b then "true" else "false"
  | .int32 n => toString n.toInt
  | .int64 n => toString n.toInt
  | .single x => x.text
  | .double x => x.text
  | .string s => s
  | .bytes bs => "<" ++ toString bs.length ++ " bytes>"
  | .json j => j.text
  | .list vs => "[" ++ ", ".intercalate (texts vs) ++ "]"
  | .timestamp t => t.text
  | .decimal d => d.text
  | .uuid u => u.text

/-- The plain texts of several values. -/
def texts : List Value → List String
  | [] => []
  | v :: vs => v.text :: texts vs

end

/-- A value as messages show it: its kind and its text. -/
def described : Value → String
  | .null => "NULL"
  | v => v.typeName ++ " value '" ++ v.text ++ "'"

/-- Only a truth value changes when it is made a number. -/
theorem boolToInt_of_not_isBool {v : Value} (h : v.isBool = false) : v.boolToInt = v := by
  cases v <;> simp_all [boolToInt, isBool]

/-- A truth value is one of the two. -/
theorem exists_bool_of_isBool {v : Value} (h : v.isBool = true) : ∃ holds, v = .bool holds := by
  cases v <;> first | exact ⟨_, rfl⟩ | cases h

/-- Making truth values numbers leaves no truth value. -/
theorem isBool_boolToInt (v : Value) : v.boolToInt.isBool = false := by
  cases v <;> rfl

/-- Making truth values numbers a second time changes nothing. -/
theorem boolToInt_boolToInt (v : Value) : v.boolToInt.boolToInt = v.boolToInt :=
  boolToInt_of_not_isBool v.isBool_boolToInt

end Value

end EntitySql
