import EntitySql.Statement.Basic

/-!
# Insertions

An insertion writes every column that has a value, except a key that the database
generates.
-/

namespace EntitySql

/-- The insertion of the fields that have a value; there must be one. -/
def insertDraft (d : Dialect) (m : Metadata) (suffix : String) (fs : List Field) :
    Except Fault Draft :=
  let written := Field.present fs
  if written.isEmpty then .error (.mapping m.entity .nothingToInsert)
  else
    let columns := ", ".intercalate (written.map (·.1.column))
    let slots := Phrase.join ", " (written.map fun f => [.slot (f.parameterName suffix)])
    let head := "INSERT INTO " ++ m.table ++ " (" ++ columns ++ ") VALUES ("
    .ok ⟨.text head :: (slots ++ [.text ")"]),
      written.map (Field.parameter d suffix)⟩

/-- The query for the generated key, for types that have one. -/
def identityText (d : Dialect) (m : Metadata) : String :=
  if m.autoKey?.isSome then d.identityQuery m.table else ""

namespace Statement

/-- Inserts one instance and asks for its generated key, if the type has one. -/
def insert (d : Dialect) (t : EntityType) (x : Instance) : CatalogM Statement := do
  let m ← t.metadata
  let accessors ← t.fieldAccessors m.insertableMembers
  let draft ← insertDraft d m "" (readFields accessors x)
  return (draft.thenText (identityText d m)).statement d

/-- Inserts instances in chunks. -/
def insertBatch (d : Dialect) (t : EntityType) (xs : List Instance) (size : Nat) :
    CatalogM (List Statement) := do
  let m ← t.metadata
  let accessors ← t.fieldAccessors m.insertableMembers
  batch d size (fun suffix x => insertDraft d m suffix (readFields accessors x)) xs

end Statement

end EntitySql
