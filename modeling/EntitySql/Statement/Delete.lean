import EntitySql.Statement.Basic

/-!
# Deletions

A deletion removes the rows that a key or a condition locates, and never all rows
for want of either.
-/

namespace EntitySql

/-- A deletion of all rows. -/
def deleteAll (m : Metadata) : Draft :=
  ⟨[.text ("DELETE FROM " ++ m.table)], []⟩

/-- The deletion of the row of an instance. -/
def deleteDraft (d : Dialect) (m : Metadata) (suffix : String) (keys : List Field) :
    Except Fault Draft := do
  let condition ← keyClause d m suffix keys
  return Draft.join " WHERE " [deleteAll m, condition]

namespace Statement

/-- Deletes the row of an instance. -/
def delete (d : Dialect) (t : EntityType) (x : Instance) : CatalogM Statement := do
  let m ← t.metadata
  m.requireKeys "delete"
  let keys ← t.fieldAccessors m.keyMembers
  let draft ← deleteDraft d m "" (readFields keys x)
  return draft.statement d

/-- Deletes the rows of a condition. -/
def deleteWhere (d : Dialect) (t : EntityType) (condition : Option Condition) :
    CatalogM Statement := do
  let m ← t.metadata
  let c ← requireCondition m "delete_where" condition
  let draft ← (deleteAll m).filtered d m c
  return draft.statement d

/-- Deletes the rows of instances in chunks. -/
def deleteBatch (d : Dialect) (t : EntityType) (xs : List Instance) (size : Nat) :
    CatalogM (List Statement) := do
  let m ← t.metadata
  m.requireKeys "delete_batch"
  let keys ← t.fieldAccessors m.keyMembers
  batch d size (fun suffix x => deleteDraft d m suffix (readFields keys x)) xs

end Statement

end EntitySql
