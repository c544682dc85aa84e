import EntitySql.Query.Operator
import EntitySql.Sql.Phrase

/-!
# Bound expressions

Expressions in which members have become columns and values have become the names
of parameters, and the way they are written. Every compound stands in parentheses,
so that what is written reads back as the same tree.
-/

namespace EntitySql

/-- The right side of a bound comparison. -/
inductive BoundOperand where
  | column (name : String)
  | slot (parameter : String)
  deriving DecidableEq, Repr

/-- The piece of a right side. -/
def BoundOperand.piece : BoundOperand → Piece
  | .column c => .text c
  | .slot p => .slot p

/-- A condition on columns and parameters. -/
inductive BoundCondition where
  | and (left right : BoundCondition)
  | or (left right : BoundCondition)
  | not (inner : BoundCondition)
  | isNull (column : String)
  | isNotNull (column : String)
  | compare (column : String) (op : Comparison) (right : BoundOperand)
  | like (column parameter : String)
  | among (column : String) (parameters : List String)
  | const (holds : Bool)
  deriving DecidableEq, Repr

namespace BoundCondition

/-- The written form of a condition. -/
def phrase : BoundCondition → Phrase
  | .and l r => .text "(" :: (l.phrase ++ .text " AND " :: (r.phrase ++ [.text ")"]))
  | .or l r => .text "(" :: (l.phrase ++ .text " OR " :: (r.phrase ++ [.text ")"]))
  | .not c => .text "(NOT " :: (c.phrase ++ [.text ")"])
  | .isNull c => [.text (c ++ " IS NULL")]
  | .isNotNull c => [.text (c ++ " IS NOT NULL")]
  | .compare c op r => [.text (c ++ " " ++ op.symbol ++ " "), r.piece]
  | .like c p => [.text (c ++ " LIKE "), .slot p]
  | .among c ps =>
    .text (c ++ " IN (") :: (Phrase.join ", " (ps.map fun p => [.slot p]) ++ [.text ")"])
  | .const true => [.text "1=1"]
  | .const false => [.text "1=0"]

/-- The parameters of a condition from left to right. -/
def parameters : BoundCondition → List String
  | .and l r => l.parameters ++ r.parameters
  | .or l r => l.parameters ++ r.parameters
  | .not c => c.parameters
  | .compare _ _ (.slot p) => [p]
  | .like _ p => [p]
  | .among _ ps => ps
  | _ => []

end BoundCondition

/-- The right side of a bound assignment. -/
inductive BoundTerm where
  | null
  | column (name : String)
  | slot (parameter : String)
  | binary (left : BoundTerm) (op : Arithmetic) (right : BoundTerm)
  deriving DecidableEq, Repr

namespace BoundTerm

/-- The written form of a right side. -/
def phrase : BoundTerm → Phrase
  | .null => [.text "NULL"]
  | .column c => [.text c]
  | .slot p => [.slot p]
  | .binary l op r =>
    .text "(" :: (l.phrase ++ .text (" " ++ op.symbol ++ " ") :: (r.phrase ++ [.text ")"]))

end BoundTerm

/-- A column and what is assigned to it. -/
structure BoundAssignment where
  column : String
  term : BoundTerm
  deriving DecidableEq, Repr

namespace BoundAssignment

/-- The written form of an assignment. -/
def phrase (a : BoundAssignment) : Phrase :=
  .text (a.column ++ "=") :: a.term.phrase

/-- The written form of several assignments. -/
def list (as : List BoundAssignment) : Phrase :=
  Phrase.join ", " (as.map phrase)

end BoundAssignment

end EntitySql
