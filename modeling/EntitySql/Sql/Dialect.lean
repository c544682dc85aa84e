import EntitySql.Text.Blank
import EntitySql.Value.Basic

/-!
# SQL dialects

Five engines, and what each of them writes in its own way.
-/

namespace EntitySql

/-- A database engine. -/
inductive Dialect where
  | sqlServer
  | oracle
  | mySql
  | postgreSql
  | sqlite
  deriving DecidableEq, Repr

namespace Dialect

/-- The name of an engine. -/
def name : Dialect → String
  | .sqlServer => "SQL Server"
  | .oracle => "Oracle"
  | .mySql => "MySQL"
  | .postgreSql => "PostgreSQL"
  | .sqlite => "SQLite"

/-- The mark in front of a placeholder. -/
def marker : Dialect → String
  | .oracle => ":"
  | _ => "@"

/-- Whether an engine has truth values of its own. -/
def hasBooleans : Dialect → Bool
  | .postgreSql => true
  | _ => false

/-- What is written between statements of one text. -/
def terminator (_ : Dialect) : String := ";"

/-- The query that follows an insertion and gives the generated key. -/
def identityQuery (d : Dialect) (table : String) : String :=
  match d with
  | .sqlServer => "; SELECT SCOPE_IDENTITY()"
  | .oracle => "; SELECT " ++ table ++ "_SEQ.CURRVAL FROM DUAL"
  | .mySql => "; SELECT LAST_INSERT_ID()"
  | .postgreSql => "; SELECT LASTVAL()"
  | .sqlite => "; SELECT last_insert_rowid()"

/-- What is written after a list of sort keys. -/
def orderSuffix : Dialect → String
  | .oracle => " NULLS LAST"
  | _ => ""

/-- A value as it is bound on an engine: a truth value is a number where there are no truth
values. -/
def encode (d : Dialect) (v : Value) : Value :=
  if d.hasBooleans then v else v.boolToInt

/-- A list of sort keys without white space around it, unless nothing is left of it. -/
def presentOrder? (order : Option String) : Option String :=
  (order.map Text.trim).filter fun o => !o.isEmpty

/-- The clause that sorts by a list of keys; nothing without a list. -/
def orderClause (d : Dialect) (order : Option String) : String :=
  match presentOrder? order with
  | some keys => " ORDER BY " ++ keys ++ d.orderSuffix
  | none => ""

/-- A query restricted to the rows after the first `start` and up to the row `stop`. -/
def paginate (d : Dialect) (inner : String) (order : Option String) (start stop : Nat) : String :=
  match d with
  | .sqlServer =>
    "SELECT * FROM (SELECT ROW_NUMBER() OVER(ORDER BY " ++
      (presentOrder? order).getD "(SELECT 0)" ++ ") rn, tt1.* FROM (" ++ inner ++
      ") tt1) tt2 WHERE rn > " ++ toString start ++ " AND rn <= " ++ toString stop
  | .oracle =>
    "SELECT * FROM (SELECT tt1.*, ROWNUM rn FROM (" ++ inner ++ d.orderClause order ++
      ") tt1 WHERE ROWNUM <= " ++ toString stop ++ ") tt2 WHERE rn > " ++ toString start
  | .mySql =>
    inner ++ d.orderClause order ++ " LIMIT " ++ toString start ++ ", " ++ toString (stop - start)
  | .postgreSql | .sqlite =>
    inner ++ d.orderClause order ++ " LIMIT " ++ toString (stop - start) ++ " OFFSET " ++
      toString start

/-- Encoding a value a second time changes nothing. -/
theorem encode_encode (d : Dialect) (v : Value) : d.encode (d.encode v) = d.encode v := by
  unfold encode
  split <;> simp [Value.boolToInt_boolToInt]

/-- Encoding leaves no truth value where there are none. -/
theorem isBool_encode {d : Dialect} (h : d.hasBooleans = false) (v : Value) :
    (d.encode v).isBool = false := by
  rw [encode, h]
  exact v.isBool_boolToInt

/-- Encoding changes truth values only. -/
theorem encode_of_not_isBool {d : Dialect} {v : Value} (h : v.isBool = false) :
    d.encode v = v := by
  unfold encode
  split
  · rfl
  · exact Value.boolToInt_of_not_isBool h

end Dialect

end EntitySql
