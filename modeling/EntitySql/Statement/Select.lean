import EntitySql.Statement.Page

/-!
# Selections

Queries for whole entities, for projections, and for the number of rows.
-/

namespace EntitySql

/-- A query for columns of all rows. -/
def selectAll (m : Metadata) (columns : String) : Draft :=
  ⟨[.text ("SELECT " ++ columns ++ " FROM " ++ m.table)], []⟩

/-- What a query of a given kind reads; an extreme is taken of one member. -/
def SelectKind.columns (k : SelectKind) (p : Projection) (text : String) : Except Fault String :=
  match k with
  | .rows => .ok text
  | .distinct => .ok ("DISTINCT " ++ text)
  | .max =>
    if p.names.length = 1 then .ok ("MAX(" ++ text ++ ")") else .error (.expression .aggregateArity)
  | .min =>
    if p.names.length = 1 then .ok ("MIN(" ++ text ++ ")") else .error (.expression .aggregateArity)
  | .count => .ok "COUNT(1) CT"

namespace Statement

/-- The bare list of sort keys of an order. -/
def orderText (d : Dialect) (t : EntityType) (order : List SortKey) : CatalogM String := do
  let m ← t.metadata
  (⟨m, d, ""⟩ : Surroundings).orderText order

/-- The bare list of sort keys of an order, if there is one. -/
def orderText? (d : Dialect) (t : EntityType) : Option (List SortKey) → CatalogM (Option String)
  | none => return none
  | some order => do return some (← orderText d t order)

/-- Reads all columns of the rows of a condition. -/
def select (d : Dialect) (t : EntityType) (condition : Option Condition)
    (order : Option (List SortKey)) : CatalogM Statement := do
  let m ← t.metadata
  let draft ← (selectAll m m.selectFields).filteredBy d m condition
  let keys ← orderText? d t order
  return (draft.thenText (d.orderClause keys)).statement d

/-- Reads a projection of the rows of a condition. -/
def selectProjection (d : Dialect) (t : EntityType) (condition : Option Condition)
    (p : Projection) (k : SelectKind) : CatalogM Statement := do
  let m ← t.metadata
  let text ← (⟨m, d, ""⟩ : Surroundings).projectionText p
  let columns ← k.columns p text
  let draft ← (selectAll m columns).filteredBy d m condition
  return draft.statement d

/-- Counts the rows of a condition. -/
def count (d : Dialect) (t : EntityType) (condition : Option Condition) : CatalogM Statement := do
  let m ← t.metadata
  let draft ← (selectAll m "COUNT(1) CT").filteredBy d m condition
  return draft.statement d

end Statement

end EntitySql
