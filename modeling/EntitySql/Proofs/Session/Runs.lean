import EntitySql.Gateway.Scripted
import EntitySql.Proofs.Entity.Transparency
import EntitySql.Proofs.Fallible
import EntitySql.Session.Operations

/-!
# Runs of operations

What the steps of an operation do to the state of a session: asking the catalog leaves
the connection alone, and a call of the gateway leaves the catalog alone. Any gateway can
be given a record of the calls that it receives.
-/

namespace EntitySql

variable {σ α β : Type} {s : Session σ} {st : SessionState σ}

/-- Runs an operation in a session from a state, and gives the result and the state after it. -/
def Operation.runFrom (s : Session σ) (st : SessionState σ) (x : Operation σ α) :
    Except Fault α × SessionState σ :=
  (x.run s).run.run st

/-- Whether a transaction is open. -/
def Session.isOpen (s : Session σ) (st : SessionState σ) : Bool :=
  s.gateway.inTransaction st.connection

namespace Operation

@[simp] theorem runFrom_pure (a : α) : (pure a : Operation σ α).runFrom s st = (.ok a, st) := rfl

@[simp] theorem runFrom_throw (e : Fault) :
    (throw e : Operation σ α).runFrom s st = (.error e, st) := rfl

@[simp] theorem runFrom_lift (r : Except Fault α) :
    (liftM r : Operation σ α).runFrom s st = (r, st) := rfl

@[simp] theorem runFrom_read : (read : Operation σ (Session σ)).runFrom s st = (.ok s, st) := rfl

@[simp] theorem runFrom_get :
    (get : Operation σ (SessionState σ)).runFrom s st = (.ok st, st) := rfl

/-- What comes second runs from the state that the first leaves. -/
theorem runFrom_bind_ok {x : Operation σ α} {f : α → Operation σ β} {a : α} {st' : SessionState σ}
    (h : x.runFrom s st = (.ok a, st')) : (x >>= f).runFrom s st = (f a).runFrom s st' := by
  have hx : x s st = (.ok a, st') := h
  show (ExceptT.bind (x s) fun a => f a s) st = f a s st'
  simp only [ExceptT.bind, ExceptT.mk, bind, StateT.bind, hx]
  rfl

/-- When the first fails, nothing comes second. -/
theorem runFrom_bind_error {x : Operation σ α} {f : α → Operation σ β} {e : Fault}
    {st' : SessionState σ} (h : x.runFrom s st = (.error e, st')) :
    (x >>= f).runFrom s st = (.error e, st') := by
  have hx : x s st = (.error e, st') := h
  show (ExceptT.bind (x s) fun a => f a s) st = (.error e, st')
  simp only [ExceptT.bind, ExceptT.mk, bind, StateT.bind, hx]
  rfl

/-- Changing a result leaves the state alone. -/
theorem runFrom_map (f : α → β) (x : Operation σ α) :
    (f <$> x).runFrom s st = ((x.runFrom s st).1.map f, (x.runFrom s st).2) := by
  rw [map_eq_pure_bind]
  rcases hx : x.runFrom s st with ⟨e | a, st'⟩
  · exact runFrom_bind_error hx
  · exact runFrom_bind_ok hx

/-- An attempt succeeds with what the operation ends in. -/
theorem runFrom_attempt (x : Operation σ α) :
    (Session.attempt x).runFrom s st = (.ok (x.runFrom s st).1, (x.runFrom s st).2) := by
  have hmap : ((Except.ok <$> x : Operation σ (Except Fault α)) s) st =
      ((x.runFrom s st).1.map .ok, (x.runFrom s st).2) := runFrom_map Except.ok x
  show (ExceptT.tryCatch ((Except.ok <$> x : Operation σ (Except Fault α)) s)
    fun e => pure (.error e)) st = _
  simp only [ExceptT.tryCatch, ExceptT.mk, bind, StateT.bind, hmap]
  cases (x.runFrom s st).1 <;> rfl

/-- Asking the catalog leaves the connection alone. -/
theorem runFrom_ask (x : CatalogM α) :
    (Session.ask x).runFrom s st =
      ((x.runFrom st.catalog).1, { st with catalog := (x.runFrom st.catalog).2 }) := rfl

/-- What is built is built for the engine of the session. -/
theorem runFrom_build (f : Dialect → CatalogM α) :
    (Session.build f).runFrom s st = (Session.ask (f s.gateway.dialect)).runFrom s st := rfl

/-- A call of the gateway leaves the catalog alone, and its failure becomes a fault of the
operation. -/
theorem runFrom_call (operation entity : String) (c : Gateway σ → Call σ α) :
    (Session.call operation entity c).runFrom s st =
      (((c s.gateway).run.run st.connection).1.mapError (.dataAccess operation entity),
        { st with connection := ((c s.gateway).run.run st.connection).2 }) := by
  unfold Session.call
  rw [runFrom_bind_ok runFrom_read, runFrom_bind_ok runFrom_get]
  rcases (c s.gateway).run.run st.connection with ⟨message | a, connection⟩ <;> rfl

/-- A call of the gateway ends in a fault exactly when the gateway fails, and then in its own. -/
theorem runFrom_call_eq_error_iff {operation entity : String} {c : Gateway σ → Call σ α}
    {e : Fault} : ((Session.call operation entity c).runFrom s st).1 = .error e ↔
      ∃ message, ((c s.gateway).run.run st.connection).1 = .error message ∧
        .dataAccess operation entity message = e := by
  rw [runFrom_call]
  exact mapError_eq_error_iff

/-- Whether a transaction is open is read off the connection. -/
theorem runFrom_inTransaction : (Session.inTransaction : Operation σ Bool).runFrom s st =
    (.ok (s.isOpen st), st) := rfl

/-- Dropping a result leaves the state alone. -/
theorem runFrom_discard (x : Operation σ α) :
    (discard x).runFrom s st = ((x.runFrom s st).1.map fun _ => ⟨⟩, (x.runFrom s st).2) :=
  runFrom_map (fun _ => PUnit.unit) x

/-- An attempt whose outcome is dropped only leaves its state. -/
theorem runFrom_discard_attempt (x : Operation σ α) :
    (discard (Session.attempt x)).runFrom s st = (.ok ⟨⟩, (x.runFrom s st).2) := by
  rw [runFrom_discard, runFrom_attempt]
  rfl

/-- A transaction is opened when none is open. -/
theorem runFrom_start (isolation : Option Isolation) :
    (Session.start isolation).runFrom s st =
      if s.isOpen st then (.error (.transaction .alreadyActive), st)
      else (Session.call "begin" Session.plainName fun g => g.start isolation).runFrom s st := by
  unfold Session.start
  rw [runFrom_bind_ok runFrom_inTransaction]
  cases s.isOpen st <;> rfl

/-- An open transaction is committed. -/
theorem runFrom_commit : (Session.commit : Operation σ Unit).runFrom s st =
    if s.isOpen st then
      (Session.call "commit" Session.plainName fun g => g.commit).runFrom s st
    else (.error (.transaction .commitOutside), st) := by
  unfold Session.commit
  rw [runFrom_bind_ok runFrom_inTransaction]
  cases s.isOpen st <;> rfl

/-- An open transaction is rolled back. -/
theorem runFrom_rollback : (Session.rollback : Operation σ Unit).runFrom s st =
    if s.isOpen st then
      (Session.call "rollback" Session.plainName fun g => g.rollback).runFrom s st
    else (.error (.transaction .rollbackOutside), st) := by
  unfold Session.rollback
  rw [runFrom_bind_ok runFrom_inTransaction]
  cases s.isOpen st <;> rfl

end Operation

/-- A call that is recorded, whatever it ends in. -/
def Call.recorded (record : CallRecord) (c : Call σ α) : Call (σ × List CallRecord) α :=
  ExceptT.mk fun (connection, calls) =>
    let (result, connection') := c.run.run connection
    (result, connection', calls ++ [record])

/-- A gateway that also keeps a record of the calls that it received. -/
def Gateway.recorded (g : Gateway σ) : Gateway (σ × List CallRecord) where
  dialect := g.dialect
  execute q timeout := (g.execute q timeout).recorded (.execute q timeout)
  scalar q timeout := (g.scalar q timeout).recorded (.scalar q timeout)
  query q timeout := (g.query q timeout).recorded (.query q timeout)
  start isolation := (g.start isolation).recorded (.start isolation)
  commit := g.commit.recorded .commit
  rollback := g.rollback.recorded .rollback
  inTransaction connection := g.inTransaction connection.1

/-- A recorded call ends as it does without a record. -/
theorem Call.run_recorded (record : CallRecord) (c : Call σ α)
    (connection : σ × List CallRecord) : (c.recorded record).run.run connection =
      ((c.run.run connection.1).1, (c.run.run connection.1).2, connection.2 ++ [record]) := rfl

end EntitySql
