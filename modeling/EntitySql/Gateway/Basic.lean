import EntitySql.Result.Row
import EntitySql.Statement.Basic

/-!
# Gateways

A gateway is all that a session knows of a database: an engine's dialect, and calls
that change the state of the connection and may fail with a text of their own.
-/

namespace EntitySql

/-- The rows of a query, and the text of the failure that ended them, if one did. -/
structure ResultSet where
  columns : List String
  rows : List (List Value)
  failure : Option String
  deriving Repr

/-- All rows of a result, unless a failure ended them. -/
def ResultSet.read (r : ResultSet) : Except String (List Row) :=
  match r.failure with
  | some message => .error message
  | none => .ok (r.rows.map fun values => ⟨r.columns, values⟩)

/-- A call of a gateway whose connection has states of type `σ`. -/
abbrev Call (σ : Type) := ExceptT String (StateM σ)

/-- A connection to a database, by its calls. -/
structure Gateway (σ : Type) where
  dialect : Dialect
  /-- Runs a statement within a time limit and gives the number of rows it wrote. -/
  execute : Statement → Option Nat → Call σ Nat
  /-- Runs a query within a time limit and gives the first value of its last row. -/
  scalar : Statement → Option Nat → Call σ (Option Value)
  /-- Runs a query within a time limit and gives its rows. -/
  query : Statement → Option Nat → Call σ ResultSet
  /-- Opens a transaction. -/
  start : Option Isolation → Call σ Unit
  commit : Call σ Unit
  rollback : Call σ Unit
  /-- Whether a transaction is open. -/
  inTransaction : σ → Bool

end EntitySql
