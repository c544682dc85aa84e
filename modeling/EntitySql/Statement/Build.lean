import EntitySql.Statement.Delete
import EntitySql.Statement.Insert
import EntitySql.Statement.Select
import EntitySql.Statement.Update

/-!
# Builds

Everything that statements can be built for, as data: the fourteen operations on an
entity type with what each of them is given.
-/

namespace EntitySql

/-- An operation on the rows of an entity type, with its arguments. -/
inductive Build where
  | insert (x : Instance)
  | insertBatch (xs : List Instance) (size : Nat)
  | update (x : Instance)
  | updateBatch (xs : List Instance) (size : Nat)
  | updateWhere (x : Instance) (condition : Option Condition)
  | updateIgnoring (x : Instance) (ignored : List String) (condition : Option Condition)
  | updateFields (x : Instance) (names : List String) (condition : Option Condition)
  | updateSet (assignments : List Assignment) (condition : Option Condition)
  | delete (x : Instance)
  | deleteBatch (xs : List Instance) (size : Nat)
  | deleteWhere (condition : Option Condition)
  | select (condition : Option Condition) (order : Option (List SortKey))
  | selectProjection (condition : Option Condition) (p : Projection) (k : SelectKind)
  | count (condition : Option Condition)

namespace Build

/-- The statements of an operation: any number for a batch, one for every other operation. -/
def statements (d : Dialect) (t : EntityType) : Build → CatalogM (List Statement)
  | .insert x => do return [← Statement.insert d t x]
  | .insertBatch xs size => Statement.insertBatch d t xs size
  | .update x => do return [← Statement.update d t x]
  | .updateBatch xs size => Statement.updateBatch d t xs size
  | .updateWhere x condition => do return [← Statement.updateWhere d t x condition]
  | .updateIgnoring x ignored condition => do
    return [← Statement.updateIgnoring d t x ignored condition]
  | .updateFields x names condition => do
    return [← Statement.updateFields d t x names condition]
  | .updateSet assignments condition => do
    return [← Statement.updateSet d t assignments condition]
  | .delete x => do return [← Statement.delete d t x]
  | .deleteBatch xs size => Statement.deleteBatch d t xs size
  | .deleteWhere condition => do return [← Statement.deleteWhere d t condition]
  | .select condition order => do return [← Statement.select d t condition order]
  | .selectProjection condition p k => do
    return [← Statement.selectProjection d t condition p k]
  | .count condition => do return [← Statement.count d t condition]

end Build

end EntitySql
