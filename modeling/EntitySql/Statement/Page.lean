import EntitySql.Statement.Basic

/-!
# Pages

The figures of a page among counted rows, and the two queries that a page needs:
one counts the rows, the other reads those of the page.
-/

namespace EntitySql

/-- A page and the rows that it covers. -/
structure Window where
  recordCount : Nat
  pageCount : Nat
  /-- The number of the page, from one on. -/
  pageIndex : Nat
  pageSize : Nat
  /-- How many rows stand before the page. -/
  start : Nat
  /-- How many rows stand before the end of the page. -/
  stop : Nat
  deriving DecidableEq, Repr

namespace Window

/-- The size of a page: a request of zero or less asks for the default, which is at least one. -/
def sizeOf (request : Int) (default : Nat) : Nat :=
  if request ≤ 0 then max default 1 else request.toNat

/-- The page nearest to the requested one; there is always a first page. -/
def ofRequest (recordCount : Nat) (index size : Int) (default : Nat) : Window :=
  let pageSize := sizeOf size default
  let pageCount := (recordCount + pageSize - 1) / pageSize
  let pageIndex := min (max index 1).toNat (max pageCount 1)
  ⟨recordCount, pageCount, pageIndex, pageSize, (pageIndex - 1) * pageSize, pageIndex * pageSize⟩

end Window

/-- The query for the number of rows of a query. -/
def countText (inner : String) : String :=
  "SELECT COUNT(1) FROM (" ++ inner ++ ") t"

namespace Statement

/-- The query for the number of rows of a query, with its parameters. -/
def pageCount (inner : Statement) : Statement :=
  ⟨countText inner.text, inner.parameters⟩

/-- A query restricted to the rows of a page, with its parameters. -/
def pageRows (d : Dialect) (inner : Statement) (order : Option String) (w : Window) : Statement :=
  ⟨d.paginate inner.text order w.start w.stop, inner.parameters⟩

end Statement

end EntitySql
