import EntitySql.Sql.Dialect

/-!
# Parameters

Named values that travel beside the text of a statement.
-/

namespace EntitySql

/-- A named value bound to a statement. -/
structure Parameter where
  /-- The name without the mark of a placeholder. -/
  name : String
  value : Value
  /-- The kind of data that the value is declared to be. -/
  type : Option DataType
  deriving Repr

namespace Parameter

/-- A value as an engine binds it, declared to be what it then is. -/
def bound (d : Dialect) (name : String) (v : Value) : Parameter :=
  ⟨name, d.encode v, (d.encode v).dataType?⟩

/-- A parameter as it is sent to an engine; its declaration stays as it was. -/
def sent (d : Dialect) (p : Parameter) : Parameter :=
  { p with value := d.encode p.value }

/-- Sending changes nothing about a parameter that was bound for the same engine. -/
theorem sent_bound (d : Dialect) (name : String) (v : Value) :
    (bound d name v).sent d = bound d name v := by
  simp [sent, bound, Dialect.encode_encode]

/-- Sending a second time changes nothing. -/
theorem sent_sent (d : Dialect) (p : Parameter) : (p.sent d).sent d = p.sent d := by
  simp [sent, Dialect.encode_encode]

end Parameter

/-- How far the changes of other transactions can be seen. -/
inductive Isolation where
  | readUncommitted
  | readCommitted
  | repeatableRead
  | serializable
  deriving DecidableEq, Repr

/-- The SQL words of an isolation level. -/
def Isolation.words : Isolation → String
  | .readUncommitted => "READ UNCOMMITTED"
  | .readCommitted => "READ COMMITTED"
  | .repeatableRead => "REPEATABLE READ"
  | .serializable => "SERIALIZABLE"

end EntitySql
