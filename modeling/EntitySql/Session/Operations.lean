import EntitySql.Session.Basic
import EntitySql.Statement.Delete
import EntitySql.Statement.Insert
import EntitySql.Statement.Select
import EntitySql.Statement.Update

/-!
# Operations of a session

Writing and reading instances, counting, paging, and plain SQL.
-/

namespace EntitySql

/-- What an insertion gives: the number of rows, or the key that the database generated. -/
inductive Inserted where
  | affected (rows : Nat)
  | generated (key : Value)
  deriving Repr

namespace Inserted

/-- The number of rows written; a generated key stands for one. -/
def rows : Inserted → Nat
  | .affected n => n
  | .generated _ => 1

/-- The generated key. -/
def key? : Inserted → Option Value
  | .affected _ => none
  | .generated key => some key

end Inserted

/-- The rows of a page and the figures of the page. -/
structure Page (α : Type) where
  rows : List α
  window : Window

namespace Session

variable {σ : Type}

/-- Inserts an instance and gives its generated key, if the type has one. -/
def insert (t : EntityType) (x : Instance) : Operation σ Inserted := do
  let m ← ask t.metadata
  let s ← build fun d => Statement.insert d t x
  if m.autoKey?.isSome then
    return .generated ((← scalarValue "insert" t.name s).getD .null)
  else return .affected (← execute "insert" t.name s)

/-- Inserts an instance and writes the generated key back into it, unless it is null. -/
def insertAssign (t : EntityType) (x : Instance) : Operation σ (Inserted × Instance) := do
  let inserted ← insert t x
  let m ← ask t.metadata
  match inserted, m.autoKey? with
  | .generated key, some member =>
    if key.isNull then return (inserted, x)
    else
      let accessor ← ask (t.accessor member.name)
      return (inserted, ← accessor.set x key)
  | _, _ => return (inserted, x)

/-- The size of a batch. -/
def batchSize : Operation σ Nat := do
  return (← read).options.batchSize

/-- Inserts instances in chunks. -/
def insertBatch (t : EntityType) (xs : List Instance) : Operation σ Nat := do
  let size ← batchSize
  runBatch "insert_batch" t.name (← build fun d => Statement.insertBatch d t xs size)

/-- Updates the row of an instance. -/
def update (t : EntityType) (x : Instance) : Operation σ Nat := do
  execute "update" t.name (← build fun d => Statement.update d t x)

/-- Updates the rows of a condition by an instance. -/
def updateWhere (t : EntityType) (x : Instance) (c : Option Condition) : Operation σ Nat := do
  execute "update_where" t.name (← build fun d => Statement.updateWhere d t x c)

/-- Updates the rows of a condition by expressions. -/
def updateSet (t : EntityType) (assignments : List Assignment) (c : Option Condition) :
    Operation σ Nat := do
  execute "update_set" t.name (← build fun d => Statement.updateSet d t assignments c)

/-- Updates the rows of a condition by listed members of an instance. -/
def updateFields (t : EntityType) (x : Instance) (names : List String) (c : Option Condition) :
    Operation σ Nat := do
  execute "update_fields" t.name (← build fun d => Statement.updateFields d t x names c)

/-- Updates the rows of a condition by an instance, some members being left out. -/
def updateIgnoring (t : EntityType) (x : Instance) (ignored : List String) (c : Option Condition) :
    Operation σ Nat := do
  execute "update_ignoring" t.name (← build fun d => Statement.updateIgnoring d t x ignored c)

/-- Updates the rows of instances in chunks. -/
def updateBatch (t : EntityType) (xs : List Instance) : Operation σ Nat := do
  let size ← batchSize
  runBatch "update_batch" t.name (← build fun d => Statement.updateBatch d t xs size)

/-- Deletes the row of an instance. -/
def delete (t : EntityType) (x : Instance) : Operation σ Nat := do
  execute "delete" t.name (← build fun d => Statement.delete d t x)

/-- Deletes the rows of a condition. -/
def deleteWhere (t : EntityType) (c : Option Condition) : Operation σ Nat := do
  execute "delete_where" t.name (← build fun d => Statement.deleteWhere d t c)

/-- Deletes the rows of instances in chunks. -/
def deleteBatch (t : EntityType) (xs : List Instance) : Operation σ Nat := do
  let size ← batchSize
  runBatch "delete_batch" t.name (← build fun d => Statement.deleteBatch d t xs size)

/-- The instances of a condition in an order. -/
def selectWhere (t : EntityType) (c : Option Condition) (order : Option (List SortKey)) :
    Operation σ (List Instance) := do
  instances "select_where" t (← build fun d => Statement.select d t c order)

/-- A query for all columns of a condition, and the bare list of an order. -/
def selectOrdered (t : EntityType) (c : Option Condition) (order : Option (List SortKey)) :
    Operation σ (Statement × Option String) :=
  build fun d => do
    let inner ← Statement.select d t c none
    return (inner, ← Statement.orderText? d t order)

/-- A query restricted to the rows of a page. -/
def pageRows (inner : Statement) (order : Option String) (w : Window) : Operation σ Statement := do
  return Statement.pageRows (← read).gateway.dialect inner order w

/-- The first instance of a condition in an order. -/
def first (t : EntityType) (c : Option Condition) (order : Option (List SortKey)) :
    Operation σ (Option Instance) := do
  let (inner, keys) ← selectOrdered t c order
  let s ← pageRows inner keys (Window.ofRequest 1 1 1 1)
  return (← instances "first" t s).head?

/-- The first projected value of every row of a condition. -/
def selectFields (t : EntityType) (c : Option Condition) (p : Projection) (target : ReadType) :
    Operation σ (List target.Carrier) := do
  let s ← build fun d => Statement.selectProjection d t c p .rows
  let (_, rows) ← rows "select_fields" t.name s
  rows.mapM fun r => (readFirst target r : Except Fault target.Carrier)

/-- The projected rows of a condition. -/
def selectDynamic (t : EntityType) (c : Option Condition) (p : Projection) (k : SelectKind) :
    Operation σ (List Dynamic) := do
  let s ← build fun d => Statement.selectProjection d t c p k
  let (_, rows) ← rows "select_dynamic" t.name s
  return rows.map Dynamic.ofRow

/-- The one value of a projection. -/
def selectAggregate (t : EntityType) (c : Option Condition) (p : Projection) (k : SelectKind)
    (target : ReadType) : Operation σ target.Carrier := do
  let s ← build fun d => Statement.selectProjection d t c p k
  let v ← scalarValue "select_aggregate" t.name s
  (target.readMissing v : Except Fault target.Carrier)

/-- The number that a count query gives: nothing counts as zero, and so does a negative number. -/
def countOf (v : Option Value) : Except Fault Nat :=
  ((ReadType.optional .int64).readMissing v).map fun
    | some n => n.toInt.toNat
    | none => 0

/-- Counts the rows of a query and finds the requested page among them. -/
def window (operation entity : String) (inner : Statement) (index size : Int) :
    Operation σ Window := do
  let v ← scalarValue operation entity inner.pageCount
  let count ← countOf v
  return Window.ofRequest count index size (← read).options.defaultPageSize

/-- One page of the instances of a condition. Without rows nothing more is asked. -/
def selectPage (t : EntityType) (c : Option Condition) (order : Option (List SortKey))
    (index size : Int) : Operation σ (Page Instance) := do
  let (inner, keys) ← selectOrdered t c order
  let w ← window "select_page" t.name inner index size
  if w.recordCount = 0 then return ⟨[], w⟩
  else return ⟨← instances "select_page" t (← pageRows inner keys w), w⟩

/-- The number of rows of a condition. -/
def count (t : EntityType) (c : Option Condition) : Operation σ Nat := do
  let v ← scalarValue "count" t.name (← build fun d => Statement.count d t c)
  countOf v

/-- Whether a condition has rows. -/
def hasRows (t : EntityType) (c : Option Condition) : Operation σ Bool := do
  let v ← scalarValue "exists" t.name (← build fun d => Statement.count d t c)
  return 0 < (← countOf v)

/-- Runs plain SQL. -/
def executeSql (s : Statement) : Operation σ Nat :=
  execute "execute_sql" plainName s

/-- The rows of plain SQL. -/
def queryRows (s : Statement) : Operation σ (List Row) := do
  return (← rows "query_rows" plainName s).2

/-- The rows of plain SQL as instances. -/
def queryInstances (t : EntityType) (s : Statement) : Operation σ (List Instance) :=
  instances "query_entities" t s

/-- The one value of plain SQL. -/
def queryScalar (s : Statement) (target : ReadType) : Operation σ target.Carrier := do
  let v ← scalarValue "query_scalar" plainName s
  (target.readMissing v : Except Fault target.Carrier)

/-- One page of the rows of plain SQL, sorted by a bare list of columns. -/
def queryPage (inner : Statement) (order : Option String) (index size : Int) :
    Operation σ (Page Row) := do
  let w ← window "query_page" plainName inner index size
  if w.recordCount = 0 then return ⟨[], w⟩
  else return ⟨(← rows "query_page" plainName (← pageRows inner order w)).2, w⟩

end Session

end EntitySql
