import EntitySql.Entity.Metadata
import EntitySql.Query.Expression
import EntitySql.Sql.Bound
import EntitySql.Sql.Parameter
import Std.Data.HashSet

/-!
# Binding expressions

Binding looks members up in the metadata and turns values into parameters. A binder
collects the parameters of one statement and gives each a name that no other has;
what it has collected stays when a later expression fails.
-/

namespace EntitySql

/-- The surroundings in which expressions are bound. -/
structure Surroundings where
  metadata : Metadata
  dialect : Dialect
  /-- What is written after the name of a member to name its parameters. -/
  scope : String

/-- The names in use, folded, and the parameters collected so far. -/
structure Binder where
  taken : Std.HashSet String
  parameters : List Parameter

/-- A computation that may add parameters to a binder, also when it fails. -/
abbrev BindM := ExceptT Fault (StateM Binder)

namespace Binder

/-- The binder that holds no parameter and avoids given names. -/
def avoiding (names : List String) : Binder :=
  ⟨names.foldl (fun s n => s.insert (Text.foldCase n)) ∅, []⟩

/-- The names that are tried for a parameter: a base, and then the base with a number after it. -/
def candidate (base : String) (k : Nat) : String :=
  if k = 0 then base else base ++ "_" ++ toString k

/-- The first of the remaining candidates that is not taken; the last is not looked at. -/
def firstFree (taken : Std.HashSet String) (base : String) (tries k : Nat) : String :=
  match tries with
  | 0 => candidate base k
  | n + 1 =>
    if taken.contains (Text.foldCase (candidate base k)) then firstFree taken base n (k + 1)
    else candidate base k

/-- The first candidate that is not taken. Of as many candidates as there are names taken and one
more, at least one is free. -/
def mint (taken : Std.HashSet String) (base : String) : String :=
  firstFree taken base taken.size 0

/-- Adds a value for a member and gives the name of its parameter. -/
def add (s : Surroundings) (member : String) (v : Value) (b : Binder) : String × Binder :=
  let name := mint b.taken (member ++ s.scope)
  (name,
    ⟨b.taken.insert (Text.foldCase name), b.parameters ++ [Parameter.bound s.dialect name v]⟩)

end Binder

namespace Surroundings

/-- Adds a value for a member and gives the name of its parameter. -/
def bindValue (s : Surroundings) (member : String) (v : Value) : BindM String :=
  modifyGet (Binder.add s member v)

/-- The column of a member. -/
def column (s : Surroundings) (member : String) : Except Fault String :=
  (s.metadata.lookup member).map (·.column)

/-- Binds the comparison of a member with a value; null is only ever equal or unequal. -/
def bindComparison (s : Surroundings) (member : String) (op : Comparison) (v : Value) :
    BindM BoundCondition := do
  let column ← s.column member
  match v with
  | .null =>
    match op with
    | .equal => return .isNull column
    | .notEqual => return .isNotNull column
    | op => throw (.expression (.nullComparison member op.symbol))
  | .list _ => throw (.expression (.listComparison member))
  | v => return .compare column op (.slot (← s.bindValue member v))

/-- The text that a value searches for; null and lists have none. -/
def patternText? : Value → Option String
  | .null => none
  | .list _ => none
  | v => some v.text

/-- Binds the values of a list, up to one that is itself a list. -/
def bindValues (s : Surroundings) (member : String) : List Value → BindM (List String)
  | [] => return []
  | v :: vs => do
    if v.isList then throw (.expression .nestedList)
    let name ← s.bindValue member v
    return name :: (← s.bindValues member vs)

/-- Binds a condition from left to right. -/
def bindCondition (s : Surroundings) : Condition → BindM BoundCondition
  | .and l r => do return .and (← s.bindCondition l) (← s.bindCondition r)
  | .or l r => do return .or (← s.bindCondition l) (← s.bindCondition r)
  | .not c => do return .not (← s.bindCondition c)
  | .compare (.member l) op (.member r) => do
    return .compare (← s.column l) op (.column (← s.column r))
  | .compare (.member m) op (.value v) => s.bindComparison m op v
  | .compare (.value v) op (.member m) => s.bindComparison m op.flipped v
  | .compare (.value l) op (.value r) =>
    throw (.expression (.constantComparison l.text op.symbol r.text))
  | .isNull m => do return .isNull (← s.column m)
  | .isNotNull m => do return .isNotNull (← s.column m)
  | .like m place v => do
    let column ← s.column m
    match patternText? v with
    | none => throw (.expression (.patternNotScalar m))
    | some text => return .like column (← s.bindValue m (.string (place.pattern text)))
  | .among m v => do
    let column ← s.column m
    match v.items? with
    | none => throw (.expression (.notAList m))
    | some [] => throw (.expression (.emptyList m))
    | some vs => return .among column (← s.bindValues m vs)
  | .const b => return .const b

/-- The columns of a projection. -/
def columnsOf (s : Surroundings) (p : Projection) : Except Fault (List String) :=
  if p.names.isEmpty then .error (.expression .noProjection)
  else p.names.mapM s.column

/-- The written form of a projection. -/
def projectionText (s : Surroundings) (p : Projection) : Except Fault String :=
  (s.columnsOf p).map (", ".intercalate ·)

/-- Binds the right side of an assignment to a member. -/
def bindTerm (s : Surroundings) (member : String) : Term → BindM BoundTerm
  | .value .null => return .null
  | .value (.list _) => throw (.expression (.listAssignment member))
  | .value v => do return .slot (← s.bindValue member v)
  | .member m => do return .column (← s.column m)
  | .binary l op r => do return .binary (← s.bindTerm member l) op (← s.bindTerm member r)

/-- Binds an assignment; what is computed cannot be assigned. -/
def bindAssignment (s : Surroundings) (a : Assignment) : BindM BoundAssignment := do
  let member ← s.metadata.lookup a.member
  if !member.kind.isPersisted then throw (.expression (.computedAssignment member.name))
  return ⟨member.column, ← s.bindTerm member.name a.term⟩

/-- Binds assignments in their order; there must be one. -/
def bindAssignments (s : Surroundings) (as : List Assignment) : BindM (List BoundAssignment) := do
  if as.isEmpty then throw (.expression .noAssignments)
  as.mapM s.bindAssignment

/-- The written form of a sort key. -/
def sortKeyText (s : Surroundings) (k : SortKey) : Except Fault String :=
  (s.column k.member).map fun c => c ++ " " ++ k.direction.word

/-- The written form of sort keys; there must be one. -/
def orderText (s : Surroundings) (keys : List SortKey) : Except Fault String :=
  if keys.isEmpty then .error (.expression .noSortKeys)
  else (keys.mapM s.sortKeyText).map (", ".intercalate ·)

end Surroundings

/-- Runs a binding from a binder and gives the result and the binder after it. -/
def BindM.runFrom {α : Type} (b : Binder) (x : BindM α) : Except Fault α × Binder :=
  x.run.run b

end EntitySql
