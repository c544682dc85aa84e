import EntitySql.Gateway.Basic

/-!
# A scripted gateway

A gateway that answers from a list of replies and records what it was asked, for
trying out a session without a database.
-/

namespace EntitySql

/-- The answer to one call. What does not fit the call is ignored. -/
structure Reply where
  /-- The text of a failure of the call. -/
  error : Option String
  /-- The number of rows written. -/
  affected : Nat
  /-- The value of a query for one value. -/
  scalar : Option Value
  /-- The rows of a query. -/
  result : ResultSet
  deriving Repr

/-- The answer when no reply is left: one row written, no value, no rows. -/
def Reply.default : Reply := ⟨none, 1, none, ⟨[], [], none⟩⟩

/-- The rows of a query that fails once it has given `count` of them. -/
def ResultSet.failingAt (columns : List String) (rows : List (List Value)) (count : Nat)
    (message : String) : ResultSet :=
  if count ≤ rows.length then ⟨columns, rows.take count, some message⟩ else ⟨columns, rows, none⟩

/-- A call that was made. -/
inductive CallRecord where
  | execute (s : Statement) (timeout : Option Nat)
  | scalar (s : Statement) (timeout : Option Nat)
  | query (s : Statement) (timeout : Option Nat)
  | start (isolation : Option Isolation)
  | commit
  | rollback
  deriving Repr

/-- The replies that are left, the calls made so far, and whether a transaction is open. -/
structure Script where
  replies : List Reply
  calls : List CallRecord
  inTransaction : Bool
  deriving Repr

namespace Script

/-- The script before any call. -/
def empty : Script := ⟨[], [], false⟩

/-- Records a call and takes the next reply. -/
def take (call : CallRecord) : Call Script Reply := do
  let s ← get
  let (reply, rest) := match s.replies with
    | [] => (Reply.default, [])
    | r :: rs => (r, rs)
  set { s with replies := rest, calls := s.calls ++ [call] }
  match reply.error with
  | some message => throw message
  | none => return reply

/-- Records a transaction call, which opens or closes the transaction unless it fails. -/
def transact (call : CallRecord) (opens : Bool) : Call Script Unit := do
  discard (take call)
  modify fun s => { s with inTransaction := opens }

/-- The gateway of a script. -/
def gateway (d : Dialect) : Gateway Script where
  dialect := d
  execute s t := do return (← take (.execute s t)).affected
  scalar s t := do return (← take (.scalar s t)).scalar
  query s t := do return (← take (.query s t)).result
  start i := transact (.start i) true
  commit := transact .commit false
  rollback := transact .rollback false
  inTransaction s := s.inTransaction

end Script

end EntitySql
