import EntitySql.Text.Letters
import EntitySql.Value.JsonForm

/-!
# Result rows

A row holds the names of its columns and its values. Names may repeat, and there may
be more names than values or more values than names.
-/

namespace EntitySql

/-- A row of a result. -/
structure Row where
  columns : List String
  values : List Value
  deriving Repr

namespace Row

/-- The number of values. -/
def size (r : Row) : Nat := r.values.length

/-- The value at a place. -/
def get? (r : Row) (index : Nat) : Option Value :=
  r.values[index]?

/-- The place of a column: an exact match comes before one that differs in case. -/
def position? (r : Row) (name : String) : Option Nat :=
  (r.columns.findIdx? (· == name)).or (r.columns.findIdx? fun c => Text.sameName c name)

/-- The value of a column. -/
def getByName? (r : Row) (name : String) : Option Value :=
  (r.position? name).bind r.get?

/-- The columns with their values, as far as both go. -/
def pairs (r : Row) : List (String × Value) :=
  r.columns.zip r.values

/-- The row as a JSON object; of columns with one name the last counts. -/
def toJson (r : Row) : Json :=
  Json.ofMembers (r.pairs.map fun (c, v) => (c, v.toJson))

/-- The row as a JSON document, in the order of its columns and with repetitions. -/
def toDocument (r : Row) : Json.Document :=
  .object (r.pairs.map fun (c, v) => (some c, v.toJson.toDocument))

end Row

/-- A result without a type: the value of a row with one value, or else the row. -/
inductive Dynamic where
  | scalar (column : String) (v : Value)
  | record (r : Row)
  deriving Repr

namespace Dynamic

/-- The result of a row. -/
def ofRow (r : Row) : Dynamic :=
  match r.values with
  | [v] => .scalar (r.columns.head?.getD "") v
  | _ => .record r

/-- The value of a column. -/
def get? (x : Dynamic) (name : String) : Option Value :=
  match x with
  | .scalar column v => if Text.sameName column name then some v else none
  | .record r => r.getByName? name

/-- The result as JSON. -/
def toJson : Dynamic → Json
  | .scalar _ v => v.toJson
  | .record r => r.toJson

end Dynamic

end EntitySql
