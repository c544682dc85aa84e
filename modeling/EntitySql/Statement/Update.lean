import EntitySql.Statement.Basic

/-!
# Updates

An update writes columns of the rows that a key or a condition locates. Without a
key, respectively without a condition, there is no update.
-/

namespace EntitySql

/-- The assignments of the fields that have a value; there must be one. -/
def assignmentsDraft (d : Dialect) (m : Metadata) (suffix : String) (fs : List Field) :
    Except Fault Draft :=
  let written := Field.present fs
  if written.isEmpty then .error (.mapping m.entity .nothingToUpdate)
  else
    .ok ⟨Phrase.join ", " (written.map (Field.assignment suffix)),
      written.map (Field.parameter d suffix)⟩

/-- An update by assignments, of all rows. -/
def updateAll (m : Metadata) (assignments : Draft) : Draft :=
  { assignments with
    phrase := .text ("UPDATE " ++ m.table ++ " SET ") :: assignments.phrase }

/-- The update of the row of an instance. -/
def updateDraft (d : Dialect) (m : Metadata) (suffix : String) (columns keys : List Field) :
    Except Fault Draft := do
  let assignments ← assignmentsDraft d m suffix columns
  let condition ← keyClause d m suffix keys
  return Draft.join " WHERE " [updateAll m assignments, condition]

/-- The assignment of a field, null included. -/
def nullableAssignment (f : Field) : Phrase :=
  if f.2.isNull then [.text (f.1.column ++ "=NULL")] else f.assignment ""

/-- The assignments of listed fields, null included. -/
def listedDraft (d : Dialect) (fs : List Field) : Draft :=
  ⟨Phrase.join ", " (fs.map nullableAssignment), (Field.present fs).map (Field.parameter d "")⟩

/-- Whether a name is among others up to the case of letters. -/
def isListed (names : List String) (name : String) : Bool :=
  names.any fun n => Text.sameName n name

namespace Statement

/-- Updates the row of an instance. -/
def update (d : Dialect) (t : EntityType) (x : Instance) : CatalogM Statement := do
  let m ← t.metadata
  m.requireKeys "update"
  let columns ← t.fieldAccessors m.nonKeyMembers
  let keys ← t.fieldAccessors m.keyMembers
  let draft ← updateDraft d m "" (readFields columns x) (readFields keys x)
  return draft.statement d

/-- Updates the rows of instances in chunks. -/
def updateBatch (d : Dialect) (t : EntityType) (xs : List Instance) (size : Nat) :
    CatalogM (List Statement) := do
  let m ← t.metadata
  m.requireKeys "update_batch"
  let columns ← t.fieldAccessors m.nonKeyMembers
  let keys ← t.fieldAccessors m.keyMembers
  batch d size
    (fun suffix x => updateDraft d m suffix (readFields columns x) (readFields keys x)) xs

/-- Updates the rows of a condition by the members of an instance that are kept. -/
def updateMatching (d : Dialect) (t : EntityType) (operation : String) (keep : Member → Bool)
    (x : Instance) (condition : Option Condition) : CatalogM Statement := do
  let m ← t.metadata
  let c ← requireCondition m operation condition
  let columns ← t.fieldAccessors (m.nonKeyMembers.filter keep)
  let assignments ← assignmentsDraft d m "" (readFields columns x)
  let draft ← (updateAll m assignments).filtered d m c
  return draft.statement d

/-- Updates the rows of a condition by an instance. -/
def updateWhere (d : Dialect) (t : EntityType) (x : Instance) (condition : Option Condition) :
    CatalogM Statement :=
  updateMatching d t "update_where" (fun _ => true) x condition

/-- Updates the rows of a condition by an instance, some members being left out. -/
def updateIgnoring (d : Dialect) (t : EntityType) (x : Instance) (ignored : List String)
    (condition : Option Condition) : CatalogM Statement :=
  updateMatching d t "update_ignoring" (fun m => !isListed ignored m.name) x condition

/-- Updates the rows of a condition by listed members of an instance, null included. -/
def updateFields (d : Dialect) (t : EntityType) (x : Instance) (names : List String)
    (condition : Option Condition) : CatalogM Statement := do
  let m ← t.metadata
  let c ← requireCondition m "update_fields" condition
  if names.isEmpty then throw (.expression .noFields)
  match names.find? fun n => (m.member? n).isNone with
  | some n => throw (.expression (.unknownMember n m.entity))
  | none =>
    let columns ← t.fieldAccessors (m.columnMembers.filter fun f => isListed names f.name)
    if columns.isEmpty then throw (.expression .onlyComputedFields)
    let draft ← (updateAll m (listedDraft d (readFields columns x))).filtered d m c
    return draft.statement d

/-- Updates the rows of a condition by expressions. -/
def updateSet (d : Dialect) (t : EntityType) (assignments : List Assignment)
    (condition : Option Condition) : CatalogM Statement := do
  let m ← t.metadata
  let c ← requireCondition m "update_set" condition
  let s : Surroundings := ⟨m, d, ""⟩
  match (s.bindAssignments assignments).runFrom (Binder.avoiding []) with
  | (.error e, _) => throw e
  | (.ok bound, b) =>
    let draft ← (updateAll m ⟨BoundAssignment.list bound, b.parameters⟩).filtered d m c
    return draft.statement d

end Statement

end EntitySql
