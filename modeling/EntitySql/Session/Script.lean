import EntitySql.Session.Operations

/-!
# Scripts of operations

Operations of a session as data, to be run one after the other and nested in
transactions, with a report of each.
-/

namespace EntitySql

mutual

/-- An operation of a session. An instance is given by the values of some of its members, the others
holding what they start with. -/
inductive Request (σ : Type) where
  | insert (t : EntityType) (x : Fields)
  | insertAssign (t : EntityType) (x : Fields)
  | insertBatch (t : EntityType) (xs : List Fields)
  | update (t : EntityType) (x : Fields)
  | updateWhere (t : EntityType) (x : Fields) (c : Option Condition)
  | updateSet (t : EntityType) (assignments : List Assignment) (c : Option Condition)
  | updateFields (t : EntityType) (x : Fields) (names : List String) (c : Option Condition)
  | updateIgnoring (t : EntityType) (x : Fields) (ignored : List String) (c : Option Condition)
  | updateBatch (t : EntityType) (xs : List Fields)
  | delete (t : EntityType) (x : Fields)
  | deleteWhere (t : EntityType) (c : Option Condition)
  | deleteBatch (t : EntityType) (xs : List Fields)
  | selectWhere (t : EntityType) (c : Option Condition) (order : Option (List SortKey))
  | first (t : EntityType) (c : Option Condition) (order : Option (List SortKey))
  | selectFields (t : EntityType) (c : Option Condition) (p : Projection) (target : ReadType)
  | selectDynamic (t : EntityType) (c : Option Condition) (p : Projection) (k : SelectKind)
  | selectAggregate (t : EntityType) (c : Option Condition) (p : Projection) (k : SelectKind)
      (target : ReadType)
  | selectPage (t : EntityType) (c : Option Condition) (order : Option (List SortKey))
      (index size : Int)
  | count (t : EntityType) (c : Option Condition)
  | hasRows (t : EntityType) (c : Option Condition)
  | executeSql (s : Statement)
  | queryRows (s : Statement)
  | queryInstances (t : EntityType) (s : Statement)
  | queryScalar (s : Statement) (target : ReadType)
  | queryPage (s : Statement) (order : Option String) (index size : Int)
  | start (isolation : Option Isolation)
  | commit
  | rollback
  | transaction (steps : List (Step σ)) (abort : Option String)

/-- A request, with what is done to the connection before it, and whether a script goes on when it
fails. -/
inductive Step (σ : Type) where
  | mk (prepare : σ → σ) (tolerant : Bool) (request : Request σ)

end

/-- What a request gives when it succeeds. -/
inductive Outcome where
  | inserted (i : Inserted)
  | assigned (i : Inserted) (x : Fields)
  | rowCount (n : Nat)
  | instances (xs : List Fields)
  | found (x : Option Fields)
  | scalar (t : ReadType) (x : t.Carrier)
  | scalars (t : ReadType) (xs : List t.Carrier)
  | dynamics (xs : List Dynamic)
  | page (p : Page Fields)
  | truth (b : Bool)
  | rows (rs : List Row)
  | rowPage (p : Page Row)
  | done

/-- What became of a request: its outcome, the reports of the requests inside it, and the connection
before and after it. -/
inductive Report (σ : Type) where
  | mk (outcome : Except Fault Outcome) (inner : List (Report σ)) (before after : σ)

namespace Request

variable {σ : Type}

/-- The instance of given values. -/
def build (t : EntityType) (x : Fields) : Operation σ Instance :=
  Session.ask (t.instantiate x)

/-- The instances of given values, up to the first that cannot be built. -/
def buildAll (t : EntityType) (xs : List Fields) : Operation σ (List Instance) :=
  Session.ask (xs.mapM t.instantiate)

/-- The values of an instance. -/
def dump (t : EntityType) (x : Instance) : Operation σ Fields :=
  Session.ask (t.dump x)

/-- The values of several instances. -/
def dumpAll (t : EntityType) (xs : List Instance) : Operation σ (List Fields) :=
  xs.mapM (dump t)

/-- The operation of a request that holds no other requests. -/
def operation : Request σ → Operation σ Outcome
  | .insert t x => do return .inserted (← Session.insert t (← build t x))
  | .insertAssign t x => do
    let (inserted, y) ← Session.insertAssign t (← build t x)
    return .assigned inserted (← dump t y)
  | .insertBatch t xs => do return .rowCount (← Session.insertBatch t (← buildAll t xs))
  | .update t x => do return .rowCount (← Session.update t (← build t x))
  | .updateWhere t x c => do return .rowCount (← Session.updateWhere t (← build t x) c)
  | .updateSet t as c => do return .rowCount (← Session.updateSet t as c)
  | .updateFields t x names c => do
    return .rowCount (← Session.updateFields t (← build t x) names c)
  | .updateIgnoring t x ignored c => do
    return .rowCount (← Session.updateIgnoring t (← build t x) ignored c)
  | .updateBatch t xs => do return .rowCount (← Session.updateBatch t (← buildAll t xs))
  | .delete t x => do return .rowCount (← Session.delete t (← build t x))
  | .deleteWhere t c => do return .rowCount (← Session.deleteWhere t c)
  | .deleteBatch t xs => do return .rowCount (← Session.deleteBatch t (← buildAll t xs))
  | .selectWhere t c order => do
    return .instances (← dumpAll t (← Session.selectWhere t c order))
  | .first t c order => do return .found (← (← Session.first t c order).mapM (dump t))
  | .selectFields t c p target => do
    return .scalars target (← Session.selectFields t c p target)
  | .selectDynamic t c p k => do return .dynamics (← Session.selectDynamic t c p k)
  | .selectAggregate t c p k target => do
    return .scalar target (← Session.selectAggregate t c p k target)
  | .selectPage t c order index size => do
    let p ← Session.selectPage t c order index size
    return .page ⟨← dumpAll t p.rows, p.window⟩
  | .count t c => do return .rowCount (← Session.count t c)
  | .hasRows t c => do return .truth (← Session.hasRows t c)
  | .executeSql s => do return .rowCount (← Session.executeSql s)
  | .queryRows s => do return .rows (← Session.queryRows s)
  | .queryInstances t s => do return .instances (← dumpAll t (← Session.queryInstances t s))
  | .queryScalar s target => do return .scalar target (← Session.queryScalar s target)
  | .queryPage s order index size => do
    return .rowPage (← Session.queryPage s order index size)
  | .start isolation => do
    Session.start isolation
    return .done
  | .commit => do
    Session.commit
    return .done
  | .rollback => do
    Session.rollback
    return .done
  | .transaction .. => return .done

end Request

namespace Session

variable {σ : Type}

mutual

/-- Runs a request and gives the reports of the requests inside it beside its outcome. -/
def runRequest (r : Request σ) : Operation σ (List (Report σ) × Except Fault Outcome) :=
  match r with
  | .transaction steps abort => do
    let body : Operation σ (List (Report σ) × Except Fault Unit) := do
      let (reports, result) ← runSteps steps
      match result, abort with
      | .ok (), some text => return (reports, .error (.transaction (.custom text)))
      | result, _ => return (reports, result)
    match ← attempt (transactionWith body) with
    | .ok (reports, result) => return (reports, result.map fun _ => .done)
    | .error e => return ([], .error e)
  | r => do return ([], ← attempt r.operation)

/-- Runs a step and reports on it. -/
def runStep (s : Step σ) : Operation σ (Report σ) :=
  match s with
  | .mk prepare _ request => do
    modify fun state => { state with connection := prepare state.connection }
    let before := (← get).connection
    let (inner, outcome) ← runRequest request
    return .mk outcome inner before (← get).connection

/-- Runs steps up to the first failure that is not tolerated. -/
def runSteps (steps : List (Step σ)) : Operation σ (List (Report σ) × Except Fault Unit) :=
  match steps with
  | [] => return ([], .ok ())
  | .mk prepare tolerant request :: rest => do
    let report ← runStep (.mk prepare tolerant request)
    let .mk outcome _ _ _ := report
    match outcome, tolerant with
    | .error e, false => return ([report], .error e)
    | _, _ =>
      let (reports, result) ← runSteps rest
      return (report :: reports, result)

end

/-- Runs all steps of a script one after the other and reports on each, whether they fail or not. -/
def runScript : List (Step σ) → Operation σ (List (Report σ))
  | [] => return []
  | s :: rest => do
    let report ← runStep s
    return report :: (← runScript rest)

end Session

end EntitySql
