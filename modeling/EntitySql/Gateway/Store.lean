import EntitySql.Gateway.Basic
import EntitySql.Sql.Placeholder

/-!
# A store of four kinds of values

The SQLite engine keeps whole numbers, binary numbers, texts and bytes. This gateway
stands for an engine that reads back the parameters of a query: each value comes back
in the kind in which it is kept.
-/

namespace EntitySql

/-- A value as the engine keeps it: numbers in 64 bits, and everything that is neither number, text
nor bytes as text. A pattern that is no number is kept as null. -/
def Value.stored : Value → Value
  | .null => .null
  | .bool b => .int64 (if b then 1 else 0)
  | .int32 n => .int64 n.toInt64
  | .int64 n => .int64 n
  | .single x => if x.isNaN then .null else .double x.convert
  | .double x => if x.isNaN then .null else .double x
  | .string s => .string s
  | .bytes bs => .bytes bs
  | .json j => .string j.text
  | .list vs => .string (Value.list vs).toJson.text
  | .timestamp t => .string t.text
  | .decimal d => .string d.text
  | .uuid u => .string u.text

/-- The state of a connection: whether a transaction is open. -/
structure Connection where
  inTransaction : Bool
  deriving DecidableEq, Repr

namespace Connection

/-- The values that a statement hands to the engine, by position. -/
def bind (d : Dialect) (s : Statement) : Call Connection (List Value) :=
  match Placeholder.positional s.text d.marker s.parameters with
  | .ok p => return p.values
  | .error message => throw message

/-- The gateway of an engine that reads back the parameters of a query in one row. -/
def gateway : Gateway Connection where
  dialect := .sqlite
  execute s _ := do
    discard (bind .sqlite s)
    return 0
  scalar s _ := do return ((← bind .sqlite s).map Value.stored).head?
  query s _ := do
    let values := (← bind .sqlite s).map Value.stored
    return ⟨values.map fun _ => "?", [values], none⟩
  start _ := set (⟨true⟩ : Connection)
  commit := set (⟨false⟩ : Connection)
  rollback := set (⟨false⟩ : Connection)
  inTransaction c := c.inTransaction

end Connection

end EntitySql
