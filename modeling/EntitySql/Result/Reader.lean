import EntitySql.Entity.Catalog
import EntitySql.Result.Row

/-!
# Reading instances from rows

A reader settles once for all rows of a result which column goes into which member.
Columns without a member and null values leave an instance as it is.
-/

namespace EntitySql

/-- What the rows of a result are read into, and the members of its columns. -/
structure Reader where
  /-- The instance that each row is read into. -/
  blank : Instance
  /-- For each column the accessor of its member, if it has one. -/
  slots : List (Option Accessor)
  deriving Repr

/-- Writes the values of a row into an instance one after the other. -/
def fill (x : Instance) : List (Option Accessor × Value) → Except Fault Instance
  | [] => .ok x
  | (none, _) :: rest => fill x rest
  | (some a, v) :: rest =>
    if v.isNull then fill x rest
    else
      match a.set x v with
      | .ok y => fill y rest
      | .error e => .error e

namespace Reader

/-- The reader for the columns of a result. -/
def ofColumns (t : EntityType) (columns : List String) : CatalogM Reader := do
  let m ← t.metadata
  let slots ← columns.mapM fun c =>
    match m.resolve? c with
    | none => pure none
    | some member => do return some (← t.accessor member.name)
  return ⟨t.blank, slots⟩

/-- The instance of a row: a new instance, and then the values of the row. -/
def read (r : Reader) (row : Row) : Except Fault Instance :=
  fill r.blank (r.slots.zip row.values)

end Reader

/-- The first value of a row as a scalar; a missing value is read like null. -/
def readFirst (t : ReadType) (row : Row) : Except Fault t.Carrier :=
  t.readMissing row.values.head?

end EntitySql
