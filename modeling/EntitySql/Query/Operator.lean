/-!
# Operators

Comparisons between the two sides of a condition, and arithmetic on the right side
of an assignment.
-/

namespace EntitySql

/-- A comparison of two operands. -/
inductive Comparison where
  | equal
  | notEqual
  | less
  | lessEqual
  | greater
  | greaterEqual
  deriving DecidableEq, Repr

namespace Comparison

/-- All comparisons. -/
def all : List Comparison :=
  [.equal, .notEqual, .less, .lessEqual, .greater, .greaterEqual]

/-- The SQL symbol of a comparison. -/
def symbol : Comparison → String
  | .equal => "="
  | .notEqual => "<>"
  | .less => "<"
  | .lessEqual => "<="
  | .greater => ">"
  | .greaterEqual => ">="

/-- The comparison with a given symbol. -/
def ofSymbol? (s : String) : Option Comparison :=
  all.find? fun c => c.symbol == s

/-- Whether a comparison asks for an order, which null has none of. -/
def isOrdering : Comparison → Bool
  | .equal => false
  | .notEqual => false
  | _ => true

/-- The comparison that holds of the two operands in the other order. -/
def flipped : Comparison → Comparison
  | .equal => .equal
  | .notEqual => .notEqual
  | .less => .greater
  | .lessEqual => .greaterEqual
  | .greater => .less
  | .greaterEqual => .lessEqual

/-- Swapping the operands twice gives back the comparison. -/
theorem flipped_flipped (c : Comparison) : c.flipped.flipped = c := by
  cases c <;> rfl

/-- Swapping the operands does not turn an order into an equation. -/
theorem isOrdering_flipped (c : Comparison) : c.flipped.isOrdering = c.isOrdering := by
  cases c <;> rfl

end Comparison

/-- An operation of arithmetic. -/
inductive Arithmetic where
  | add
  | sub
  | mul
  | div
  deriving DecidableEq, Repr

namespace Arithmetic

/-- All operations. -/
def all : List Arithmetic := [.add, .sub, .mul, .div]

/-- The SQL symbol of an operation. -/
def symbol : Arithmetic → String
  | .add => "+"
  | .sub => "-"
  | .mul => "*"
  | .div => "/"

/-- The operation with a given symbol. -/
def ofSymbol? (s : String) : Option Arithmetic :=
  all.find? fun a => a.symbol == s

end Arithmetic

end EntitySql
