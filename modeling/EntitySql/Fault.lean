/-!
# Faults

Everything that an operation can fail with, by its cause, and the message of each.
-/

namespace EntitySql

/-- What is wrong with the mapping of an entity type, or with an instance for its mapping. -/
inductive MappingFault where
  | blankTable
  | repeatedMember (member : String)
  | blankColumn (member : String)
  | secondAutoKey
  | unknownMember (member : String)
  | nothingToInsert
  | nothingToUpdate
  | keyWithoutValue (member : String)
  | custom (text : String)
  deriving DecidableEq, Repr

/-- The words for what is wrong with a mapping. -/
def MappingFault.message : MappingFault → String
  | .blankTable => "table name is empty"
  | .repeatedMember m => "member '" ++ m ++ "' is declared more than once"
  | .blankColumn m => "member '" ++ m ++ "' has an empty column name"
  | .secondAutoKey => "at most one auto-generated key is allowed"
  | .unknownMember m => "unknown member '" ++ m ++ "'"
  | .nothingToInsert => "no column has a value to insert"
  | .nothingToUpdate => "no column has a value to update"
  | .keyWithoutValue m => "key member '" ++ m ++ "' has no value"
  | .custom t => t

/-- Why an expression has no SQL text. -/
inductive ExpressionFault where
  | unknownMember (member entity : String)
  | constantComparison (left operator right : String)
  | nullComparison (member operator : String)
  | listComparison (member : String)
  | patternNotScalar (member : String)
  | notAList (member : String)
  | emptyList (member : String)
  | nestedList
  | noProjection
  | noAssignments
  | computedAssignment (member : String)
  | listAssignment (member : String)
  | noSortKeys
  | noFields
  | onlyComputedFields
  | aggregateArity
  | custom (construct text : String)
  deriving DecidableEq, Repr

/-- The construct that an expression fault is about. -/
def ExpressionFault.construct : ExpressionFault → String
  | .unknownMember .. => "member reference"
  | .constantComparison .. => "comparison"
  | .nullComparison .. => "comparison"
  | .listComparison .. => "comparison"
  | .patternNotScalar .. => "LIKE"
  | .notAList .. => "IN list"
  | .emptyList .. => "IN list"
  | .nestedList => "IN list"
  | .noProjection => "projection"
  | .noAssignments => "update set"
  | .computedAssignment .. => "update set"
  | .listAssignment .. => "update set"
  | .noSortKeys => "order by"
  | .noFields => "update fields"
  | .onlyComputedFields => "update fields"
  | .aggregateArity => "aggregate"
  | .custom c _ => c

/-- The words for an expression fault. -/
def ExpressionFault.message : ExpressionFault → String
  | .unknownMember m e => "unknown member '" ++ m ++ "' on '" ++ e ++ "'"
  | .constantComparison l op r =>
    "both sides are constants (" ++ l ++ " " ++ op ++ " " ++ r ++ ")"
  | .nullComparison m op => "'" ++ m ++ "' cannot be compared to NULL with '" ++ op ++ "'"
  | .listComparison m => "list operand for '" ++ m ++ "' is only valid in IN"
  | .patternNotScalar m => "pattern for '" ++ m ++ "' must be a scalar value"
  | .notAList m => "'" ++ m ++ "' must be compared against a list of values"
  | .emptyList m => "empty value list for '" ++ m ++ "'"
  | .nestedList => "nested lists are not supported"
  | .noProjection => "no members selected"
  | .noAssignments => "no assignments"
  | .computedAssignment m => "'" ++ m ++ "' is computed and cannot be assigned"
  | .listAssignment m => "list value for '" ++ m ++ "' is only valid in IN"
  | .noSortKeys => "no sort keys"
  | .noFields => "no members listed"
  | .onlyComputedFields => "only computed members were listed"
  | .aggregateArity => "MAX and MIN take exactly one member"
  | .custom _ t => t

/-- Why a transaction call is refused. -/
inductive TransactionFault where
  | alreadyActive
  | commitOutside
  | rollbackOutside
  | custom (text : String)
  deriving DecidableEq, Repr

/-- The words for a refused transaction call. -/
def TransactionFault.message : TransactionFault → String
  | .alreadyActive => "a transaction is already active"
  | .commitOutside => "commit without an active transaction"
  | .rollbackOutside => "rollback without an active transaction"
  | .custom t => t

/-- The cause of a failed operation. -/
inductive Fault where
  /-- The mapping of an entity type, or an instance, does not allow the operation. -/
  | mapping (entity : String) (cause : MappingFault)
  /-- The operation needs a key member and the entity type has none. -/
  | keyRequired (entity operation : String)
  /-- The operation needs a condition and has none. -/
  | conditionRequired (entity operation : String)
  /-- An expression has no SQL text. -/
  | expression (cause : ExpressionFault)
  /-- The database gateway failed, with its own text. -/
  | dataAccess (operation entity source : String)
  /-- A value cannot be read as the expected type. -/
  | conversion (expected found : String)
  /-- A transaction call is refused. -/
  | transaction (cause : TransactionFault)
  /-- A text that should be JSON is not, or not of the form that is asked for. -/
  | configuration
  deriving DecidableEq, Repr

namespace Fault

/-- The message of a fault. -/
def message : Fault → String
  | .mapping e c => "Mapping error on '" ++ e ++ "': " ++ c.message
  | .keyRequired e op => "'" ++ op ++ "' on '" ++ e ++ "' requires at least one key member"
  | .conditionRequired e op => "'" ++ op ++ "' on '" ++ e ++ "' requires a predicate"
  | .expression c => "Cannot translate " ++ c.construct ++ ": " ++ c.message
  | .dataAccess op e source =>
    "Database error during '" ++ op ++ "' on '" ++ e ++ "': " ++ source
  | .conversion expected found => "Cannot convert " ++ found ++ " into " ++ expected
  | .transaction c => "Transaction error: " ++ c.message
  | .configuration => "Configuration error"

/-- The text of the failure underneath, where there is one. -/
def source? : Fault → Option String
  | .dataAccess _ _ source => some source
  | _ => none

end Fault

end EntitySql
