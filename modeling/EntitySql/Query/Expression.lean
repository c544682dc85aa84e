import EntitySql.Query.Operator
import EntitySql.Value.Basic

/-!
# Query expressions

Conditions, projections, assignments and orders over the members of one entity
type. Members are named; the names are looked up when an expression is bound.
-/

namespace EntitySql

/-- One side of a comparison. -/
inductive Operand where
  | member (name : String)
  | value (v : Value)
  deriving Repr

/-- Where a searched text stands in the text of a column. -/
inductive Placement where
  | contains
  | startsWith
  | endsWith
  deriving DecidableEq, Repr

/-- The pattern that searches a text at a place. -/
def Placement.pattern (p : Placement) (text : String) : String :=
  match p with
  | .contains => "%" ++ text ++ "%"
  | .startsWith => text ++ "%"
  | .endsWith => "%" ++ text

/-- A condition on the members of an entity. -/
inductive Condition where
  | and (left right : Condition)
  | or (left right : Condition)
  | not (inner : Condition)
  | compare (left : Operand) (op : Comparison) (right : Operand)
  | isNull (member : String)
  | isNotNull (member : String)
  | like (member : String) (place : Placement) (text : Value)
  | among (member : String) (values : Value)
  | const (holds : Bool)
  deriving Repr

/-- The condition that all of several conditions hold, taken together from the left; there is none
for no condition. -/
def Condition.all : List Condition → Option Condition
  | [] => none
  | c :: cs => some (cs.foldl .and c)

/-- The members that a query reads. -/
inductive Projection where
  | member (name : String)
  | members (names : List String)
  deriving DecidableEq, Repr

/-- The names of the members that a projection reads. -/
def Projection.names : Projection → List String
  | .member name => [name]
  | .members names => names

/-- What a query makes of its projection. -/
inductive SelectKind where
  | rows
  | distinct
  | max
  | min
  | count
  deriving DecidableEq, Repr

/-- The right side of an assignment. -/
inductive Term where
  | value (v : Value)
  | member (name : String)
  | binary (left : Term) (op : Arithmetic) (right : Term)
  deriving Repr

/-- A member and what is assigned to it. -/
structure Assignment where
  member : String
  term : Term
  deriving Repr

/-- The direction of a sort key. -/
inductive Direction where
  | ascending
  | descending
  deriving DecidableEq, Repr

/-- The SQL word of a direction. -/
def Direction.word : Direction → String
  | .ascending => "ASC"
  | .descending => "DESC"

/-- A member to sort by, and the direction. -/
structure SortKey where
  member : String
  direction : Direction
  deriving DecidableEq, Repr

end EntitySql
