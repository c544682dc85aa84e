import EntitySql.Gateway.Basic
import EntitySql.Options
import EntitySql.Result.Reader

/-!
# Sessions

A session runs operations over one gateway. It hands statements over, turns failures
of the gateway into faults that name the operation, and brackets transactions: one is
opened only when none is open, and closed only when one is.
-/

namespace EntitySql

/-- What a session is set up with. -/
structure Session (σ : Type) where
  gateway : Gateway σ
  options : Options

/-- What an operation may change: the connection and the catalog. -/
structure SessionState (σ : Type) where
  connection : σ
  catalog : Catalog

/-- An operation of a session. Changes stay when it fails. -/
abbrev Operation (σ : Type) := ReaderT (Session σ) (ExceptT Fault (StateM (SessionState σ)))

namespace Session

variable {σ : Type}

/-- The entity name in faults of operations on plain SQL and of transactions. -/
def plainName : String := "sql"

/-- Makes a call of the gateway on behalf of an operation on an entity type. -/
def call {α : Type} (operation entity : String) (c : Gateway σ → Call σ α) : Operation σ α := do
  let session ← read
  let state ← get
  let (result, connection) := (c session.gateway).run.run state.connection
  set { state with connection := connection }
  match result with
  | .ok x => return x
  | .error message => throw (.dataAccess operation entity message)

/-- Asks the catalog. -/
def ask {α : Type} (x : CatalogM α) : Operation σ α := do
  let state ← get
  let (result, catalog) := x.run.run state.catalog
  set { state with catalog := catalog }
  result

/-- Builds a statement for the engine of the session. -/
def build {α : Type} (f : Dialect → CatalogM α) : Operation σ α := do
  ask (f (← read).gateway.dialect)

/-- Whether a transaction is open. -/
def inTransaction : Operation σ Bool := do
  return (← read).gateway.inTransaction (← get).connection

/-- A statement as it is handed to an engine. -/
def prepare (d : Dialect) (s : Statement) : Statement :=
  { s with parameters := s.parameters.map (Parameter.sent d) }

/-- Runs a statement and gives the number of rows it wrote. -/
def execute (operation entity : String) (s : Statement) : Operation σ Nat := do
  let timeout := (← read).options.timeout
  call operation entity fun g => g.execute (prepare g.dialect s) timeout

/-- Runs a query for one value. -/
def scalarValue (operation entity : String) (s : Statement) : Operation σ (Option Value) := do
  let timeout := (← read).options.timeout
  call operation entity fun g => g.scalar (prepare g.dialect s) timeout

/-- Runs a query and reads all its rows. -/
def rows (operation entity : String) (s : Statement) : Operation σ (List String × List Row) := do
  let timeout := (← read).options.timeout
  let result ← call operation entity fun g => g.query (prepare g.dialect s) timeout
  match result.read with
  | .ok rows => return (result.columns, rows)
  | .error message => throw (.dataAccess operation entity message)

/-- Runs a query and reads its rows as instances. -/
def instances (operation : String) (t : EntityType) (s : Statement) :
    Operation σ (List Instance) := do
  let (columns, rows) ← rows operation t.name s
  let reader ← ask (Reader.ofColumns t columns)
  rows.mapM fun r => reader.read r

/-- Opens a transaction. -/
def start (isolation : Option Isolation) : Operation σ Unit := do
  if ← inTransaction then throw (.transaction .alreadyActive)
  call "begin" plainName fun g => g.start isolation

/-- Keeps the changes of the open transaction. -/
def commit : Operation σ Unit := do
  if !(← inTransaction) then throw (.transaction .commitOutside)
  call "commit" plainName fun g => g.commit

/-- Drops the changes of the open transaction. -/
def rollback : Operation σ Unit := do
  if !(← inTransaction) then throw (.transaction .rollbackOutside)
  call "rollback" plainName fun g => g.rollback

/-- The result of an operation, as a value also when it fails. -/
def attempt {α : Type} (x : Operation σ α) : Operation σ (Except Fault α) :=
  tryCatch (.ok <$> x) fun e => return .error e

/-- Runs in a transaction an operation that gives an account of itself beside its result: the
changes are kept when the result is good and dropped when it is a fault. The account is given in
either case. A failure to drop the changes does not hide the first fault. -/
def transactionWith {α ρ : Type} (body : Operation σ (ρ × Except Fault α)) :
    Operation σ (ρ × Except Fault α) := do
  start none
  match ← body with
  | (account, .ok x) => return (account, (← attempt commit).map fun _ => x)
  | (account, .error e) =>
    if ← inTransaction then discard (attempt rollback)
    return (account, .error e)

/-- Runs an operation in a transaction: the changes are kept when it succeeds and dropped when it
fails. -/
def transaction {α : Type} (body : Operation σ α) : Operation σ α := do
  let (_, result) ← transactionWith (do return ((), ← attempt body))
  result

/-- Runs statements in their order and adds up the rows they wrote, up to the first failure. -/
def executeAll (operation entity : String) : List Statement → Operation σ Nat
  | [] => return 0
  | s :: rest => do
    let written ← execute operation entity s
    return written + (← executeAll operation entity rest)

/-- Runs the statements of a batch. An atomic batch of several statements outside of a transaction
has a transaction of its own. -/
def runBatch (operation entity : String) (statements : List Statement) : Operation σ Nat := do
  let atomic := (← read).options.atomicBatches && 1 < statements.length && !(← inTransaction)
  if atomic then
    start none
    match ← attempt (executeAll operation entity statements) with
    | .ok written =>
      commit
      return written
    | .error e =>
      discard (attempt rollback)
      throw e
  else executeAll operation entity statements

end Session

end EntitySql
