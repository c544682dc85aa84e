import EntitySql.Gateway.Store
import EntitySql.Proofs.Session.Runs
import EntitySql.Proofs.Statement.Rows

/-!
# Transactions of a session's own

A session opens a transaction of its own around a body, and around a batch of several
statements when batches are atomic. Whatever the body does and whichever calls fail, the
transaction is closed when the operation ends, unless its commit fails: then it stays
open.
-/

namespace EntitySql

variable {σ α : Type}

/-- A gateway whose transaction flag follows its transaction calls: it is set when a transaction is
opened, cleared when one is committed, left alone when either fails, and cleared by a rollback
whatever becomes of it. No other call sets it, but a transaction may lapse while a statement is run,
for example when its time runs out. -/
structure Gateway.Lapsing (g : Gateway σ) : Prop where
  execute_closed : ∀ q timeout c, g.inTransaction c = false →
    g.inTransaction ((g.execute q timeout).run.run c).2 = false
  scalar_closed : ∀ q timeout c, g.inTransaction c = false →
    g.inTransaction ((g.scalar q timeout).run.run c).2 = false
  query_closed : ∀ q timeout c, g.inTransaction c = false →
    g.inTransaction ((g.query q timeout).run.run c).2 = false
  start_ok : ∀ i c c', (g.start i).run.run c = (.ok (), c') → g.inTransaction c' = true
  start_error : ∀ i c e c', (g.start i).run.run c = (.error e, c') →
    g.inTransaction c' = g.inTransaction c
  commit_ok : ∀ c c', g.commit.run.run c = (.ok (), c') → g.inTransaction c' = false
  commit_error : ∀ c e c', g.commit.run.run c = (.error e, c') →
    g.inTransaction c' = g.inTransaction c
  rollback : ∀ c, g.inTransaction (g.rollback.run.run c).2 = false

/-- A gateway whose transaction flag only follows its transaction calls: no other call changes
it. -/
structure Gateway.Flagged (g : Gateway σ) : Prop extends g.Lapsing where
  execute : ∀ q timeout c, g.inTransaction ((g.execute q timeout).run.run c).2 = g.inTransaction c
  scalar : ∀ q timeout c, g.inTransaction ((g.scalar q timeout).run.run c).2 = g.inTransaction c
  query : ∀ q timeout c, g.inTransaction ((g.query q timeout).run.run c).2 = g.inTransaction c
  execute_closed q timeout c hclosed := (execute q timeout c).trans hclosed
  scalar_closed q timeout c hclosed := (scalar q timeout c).trans hclosed
  query_closed q timeout c hclosed := (query q timeout c).trans hclosed

/-- The operation of a session on several instances. -/
def RowOperation.batch (k : RowOperation) (t : EntityType) (xs : List Instance) :
    Operation σ Nat :=
  match k with
  | .insert => Session.insertBatch t xs
  | .update => Session.updateBatch t xs
  | .delete => Session.deleteBatch t xs

namespace Session

open Operation

variable {s : Session σ} {st st₁ st₂ : SessionState σ} {body : Operation σ α} {a : α} {e : Fault}

/-- A transaction is open and cannot be committed. -/
def CommitFails (s : Session σ) (st : SessionState σ) (message : String) : Prop :=
  s.isOpen st = true ∧ (s.gateway.commit.run.run st.connection).1 = .error message

/-- What holds of a connection after a statement if it held before, holds after several. -/
theorem invariant_executeAll {P : σ → Prop}
    (h : ∀ q timeout c, P c → P ((s.gateway.execute q timeout).run.run c).2)
    (operation entity : String) (qs : List Statement) (hst : P st.connection) :
    P ((executeAll operation entity qs).runFrom s st).2.connection := by
  induction qs generalizing st with
  | nil => exact hst
  | cons q qs ih =>
    have hone : P ((execute operation entity q).runFrom s st).2.connection := by
      unfold execute
      rw [runFrom_bind_ok runFrom_read, runFrom_call]
      exact h _ _ st.connection hst
    unfold executeAll
    rcases hrun : (execute operation entity q).runFrom s st with ⟨e | n, st'⟩
    · rw [runFrom_bind_error hrun]
      rwa [hrun] at hone
    · rw [hrun] at hone
      have hall := ih hone
      rw [runFrom_bind_ok hrun]
      rcases hrest : (executeAll operation entity qs).runFrom s st' with ⟨e | n', st''⟩
      all_goals rw [hrest] at hall
      · rwa [runFrom_bind_error hrest]
      · rwa [runFrom_bind_ok hrest, runFrom_pure]

/-- What running one statement preserves of a connection, running several preserves. -/
theorem preserved_executeAll {γ : Type} (f : σ → γ)
    (h : ∀ q timeout c, f ((s.gateway.execute q timeout).run.run c).2 = f c)
    (operation entity : String) (qs : List Statement) (st : SessionState σ) :
    f ((executeAll operation entity qs).runFrom s st).2.connection = f st.connection :=
  invariant_executeAll (P := fun c => f c = f st.connection)
    (fun q timeout c hc => (h q timeout c).trans hc) operation entity qs rfl

section Steps

variable (hg : s.gateway.Lapsing)

include hg

/-- A transaction is open after it was opened. -/
theorem isOpen_of_start {isolation : Option Isolation}
    (h : (start isolation).runFrom s st = (.ok (), st₁)) : s.isOpen st₁ = true := by
  rw [runFrom_start] at h
  split at h
  · cases h
  · rw [runFrom_call] at h
    rcases hcall : (s.gateway.start isolation).run.run st.connection with ⟨message | u, c⟩
    · rw [hcall] at h
      cases h
    · rw [hcall] at h
      cases h
      exact hg.start_ok isolation st.connection c hcall

/-- When no transaction could be opened, none is opened. -/
theorem isOpen_of_start_error {isolation : Option Isolation}
    (h : (start isolation).runFrom s st = (.error e, st₁)) : s.isOpen st₁ = s.isOpen st := by
  rw [runFrom_start] at h
  split at h
  · cases h
    rfl
  · rw [runFrom_call] at h
    rcases hcall : (s.gateway.start isolation).run.run st.connection with ⟨message | u, c⟩
    · rw [hcall] at h
      cases h
      exact hg.start_error isolation st.connection message c hcall
    · rw [hcall] at h
      cases h

/-- After a commit a transaction is open exactly when there was one that could not be committed. -/
theorem isOpen_commit_iff (st : SessionState σ) :
    s.isOpen (commit.runFrom s st).2 = true ↔ ∃ message, s.CommitFails st message := by
  rw [runFrom_commit]
  cases hopen : s.isOpen st with
  | false => simp [CommitFails, hopen]
  | true =>
    rw [if_pos rfl, runFrom_call]
    rcases hcall : s.gateway.commit.run.run st.connection with ⟨message | u, c⟩
    · have hflag : s.isOpen { st with connection := c } = true :=
        (hg.commit_error st.connection message c hcall).trans hopen
      simp [CommitFails, hopen, hcall, hflag]
    · have hflag : s.isOpen { st with connection := c } = false :=
        hg.commit_ok st.connection c hcall
      simp [CommitFails, hcall, hflag]

/-- After a rollback no transaction is open. -/
theorem isOpen_rollback (st : SessionState σ) : s.isOpen (rollback.runFrom s st).2 = false := by
  rw [runFrom_rollback]
  split
  · rw [runFrom_call]
    exact hg.rollback st.connection
  · rename_i hclosed
    simpa using hclosed

/-- Running statements opens no transaction. -/
theorem isOpen_executeAll_of_closed (operation entity : String) (qs : List Statement)
    (hclosed : s.isOpen st = false) :
    s.isOpen ((executeAll operation entity qs).runFrom s st).2 = false :=
  invariant_executeAll hg.execute_closed operation entity qs hclosed

end Steps

/-- Where statements leave the flag alone, running several opens and closes no transaction. -/
theorem isOpen_executeAll (hg : s.gateway.Flagged) (operation entity : String)
    (qs : List Statement) (st : SessionState σ) :
    s.isOpen ((executeAll operation entity qs).runFrom s st).2 = s.isOpen st :=
  preserved_executeAll s.gateway.inTransaction hg.execute operation entity qs st

/-- The fault of the gateway is that of a commit which fails. -/
theorem runFrom_commit_eq_iff {message : String} :
    (commit.runFrom s st).1 = .error (.dataAccess "commit" plainName message) ↔
      s.CommitFails st message := by
  rw [runFrom_commit, CommitFails]
  cases s.isOpen st with
  | false => simp
  | true =>
    rw [if_pos rfl, runFrom_call_eq_error_iff]
    simp

/-- The faults of opening a transaction. -/
theorem fault_of_start {isolation : Option Isolation}
    (h : ((start isolation).runFrom s st).1 = .error e) :
    e = .transaction .alreadyActive ∨ ∃ message, e = .dataAccess "begin" plainName message := by
  rw [runFrom_start] at h
  split at h
  · cases h
    exact Or.inl rfl
  · obtain ⟨message, -, rfl⟩ := runFrom_call_eq_error_iff.mp h
    exact Or.inr ⟨message, rfl⟩

/-- The faults of running statements. -/
theorem fault_of_executeAll {operation entity : String} {qs : List Statement}
    (h : ((executeAll operation entity qs).runFrom s st).1 = .error e) :
    ∃ message, e = .dataAccess operation entity message := by
  induction qs generalizing st with
  | nil => cases h
  | cons q qs ih =>
    unfold executeAll at h
    rcases hrun : (execute operation entity q).runFrom s st with ⟨e' | n, st'⟩
    · rw [runFrom_bind_error hrun] at h
      cases h
      unfold execute at hrun
      rw [runFrom_bind_ok runFrom_read] at hrun
      obtain ⟨message, -, rfl⟩ := runFrom_call_eq_error_iff.mp (congrArg Prod.fst hrun)
      exact ⟨message, rfl⟩
    · rw [runFrom_bind_ok hrun] at h
      rcases hrest : (executeAll operation entity qs).runFrom s st' with ⟨e' | n', st''⟩
      · rw [runFrom_bind_error hrest] at h
        cases h
        exact ih (by rw [hrest])
      · rw [runFrom_bind_ok hrest] at h
        cases h

/-- Without a transaction the body does not run. -/
theorem runFrom_transaction_of_start_error (hstart : (start none).runFrom s st = (.error e, st₁)) :
    (transaction body).runFrom s st = (.error e, st₁) :=
  runFrom_bind_error (runFrom_bind_error hstart)

/-- After a body that succeeds, the transaction is committed. -/
theorem runFrom_transaction_of_ok (hstart : (start none).runFrom s st = (.ok (), st₁))
    (hbody : body.runFrom s st₁ = (.ok a, st₂)) :
    (transaction body).runFrom s st =
      ((commit.runFrom s st₂).1.map fun _ => a, (commit.runFrom s st₂).2) := by
  have hattempt : (do return ((), ← attempt body) :
      Operation σ (Unit × Except Fault α)).runFrom s st₁ = (.ok ((), .ok a), st₂) := by
    rw [runFrom_bind_ok (runFrom_attempt body), hbody, runFrom_pure]
  have hwith : (transactionWith (do return ((), ← attempt body))).runFrom s st =
      (.ok ((), (commit.runFrom s st₂).1.map fun _ => a), (commit.runFrom s st₂).2) := by
    unfold transactionWith
    rw [runFrom_bind_ok hstart, runFrom_bind_ok hattempt]
    dsimp only
    rw [runFrom_bind_ok (runFrom_attempt commit), runFrom_pure]
  unfold transaction
  rw [runFrom_bind_ok hwith, runFrom_lift]

/-- After a body that fails, the transaction is rolled back if it is still open. -/
theorem runFrom_transaction_of_error (hstart : (start none).runFrom s st = (.ok (), st₁))
    (hbody : body.runFrom s st₁ = (.error e, st₂)) :
    (transaction body).runFrom s st =
      (.error e, if s.isOpen st₂ then (rollback.runFrom s st₂).2 else st₂) := by
  have hattempt : (do return ((), ← attempt body) :
      Operation σ (Unit × Except Fault α)).runFrom s st₁ = (.ok ((), .error e), st₂) := by
    rw [runFrom_bind_ok (runFrom_attempt body), hbody, runFrom_pure]
  have hwith : (transactionWith (do return ((), ← attempt body))).runFrom s st =
      (.ok ((), .error e), if s.isOpen st₂ then (rollback.runFrom s st₂).2 else st₂) := by
    unfold transactionWith
    rw [runFrom_bind_ok hstart, runFrom_bind_ok hattempt]
    dsimp only
    rw [runFrom_bind_ok runFrom_inTransaction]
    cases s.isOpen st₂ with
    | false => rfl
    | true =>
      rw [if_pos rfl, if_pos rfl, runFrom_bind_ok (runFrom_discard_attempt rollback), runFrom_pure]
  unfold transaction
  rw [runFrom_bind_ok hwith, runFrom_lift]

/-- Where a transaction ends open that was closed before, its body succeeded and its commit failed,
and the other way round. -/
theorem isOpen_transaction_iff (hg : s.gateway.Lapsing) (hclosed : s.isOpen st = false)
    (body : Operation σ α) :
    s.isOpen ((transaction body).runFrom s st).2 = true ↔
      ∃ st₁ a st₂ message, (start none).runFrom s st = (.ok (), st₁) ∧
        body.runFrom s st₁ = (.ok a, st₂) ∧ s.CommitFails st₂ message := by
  rcases hstart : (start none).runFrom s st with ⟨e | u, st₁⟩
  · have hunchanged := isOpen_of_start_error hg hstart
    rw [runFrom_transaction_of_start_error hstart, hunchanged, hclosed]
    simp
  · rcases hbody : body.runFrom s st₁ with ⟨e | a, st₂⟩
    · have hends : s.isOpen ((transaction body).runFrom s st).2 = false := by
        rw [runFrom_transaction_of_error hstart hbody]
        cases hopen : s.isOpen st₂ with
        | false => exact hopen
        | true => exact isOpen_rollback hg st₂
      rw [hends]
      simp [hbody]
    · rw [runFrom_transaction_of_ok hstart hbody, isOpen_commit_iff hg]
      simp [hbody]

/-- The fault of a transaction whose commit fails. -/
theorem runFrom_transaction_of_fails {message : String}
    (hstart : (start none).runFrom s st = (.ok (), st₁))
    (hbody : body.runFrom s st₁ = (.ok a, st₂)) (h : s.CommitFails st₂ message) :
    ((transaction body).runFrom s st).1 = .error (.dataAccess "commit" plainName message) := by
  rw [runFrom_transaction_of_ok hstart hbody, runFrom_commit_eq_iff.mpr h]
  rfl

/-- Outside of a transaction, an atomic batch of several statements is a transaction around them,
and every other batch is these statements alone. -/
theorem runFrom_runBatch (hclosed : s.isOpen st = false) (operation entity : String)
    (qs : List Statement) :
    (runBatch operation entity qs).runFrom s st =
      if s.options.atomicBatches && 1 < qs.length then
        (transaction (executeAll operation entity qs)).runFrom s st
      else (executeAll operation entity qs).runFrom s st := by
  unfold runBatch
  rw [runFrom_bind_ok runFrom_read, runFrom_bind_ok runFrom_inTransaction, hclosed, Bool.not_false,
    Bool.and_true]
  cases s.options.atomicBatches && decide (1 < qs.length) with
  | false => rfl
  | true =>
    rw [if_pos rfl, if_pos rfl]
    rcases hstart : (start none).runFrom s st with ⟨e | u, st₁⟩
    · rw [runFrom_bind_error hstart, runFrom_transaction_of_start_error hstart]
    · rw [runFrom_bind_ok hstart, runFrom_bind_ok (runFrom_attempt _)]
      rcases hall : (executeAll operation entity qs).runFrom s st₁ with ⟨e | written, st₂⟩
      · -- a transaction that has lapsed is not rolled back, and its rollback is refused
        have hended : (if s.isOpen st₂ then (rollback.runFrom s st₂).2 else st₂) =
            (rollback.runFrom s st₂).2 := by
          cases hopen : s.isOpen st₂ with
          | false => simp [runFrom_rollback, hopen]
          | true => rfl
        rw [runFrom_transaction_of_error hstart hall, hended]
        dsimp only
        rw [runFrom_bind_ok (runFrom_discard_attempt rollback), runFrom_throw]
      · rw [runFrom_transaction_of_ok hstart hall]
        dsimp only
        rcases hcommit : commit.runFrom s st₂ with ⟨e | u, st₃⟩
        · rw [runFrom_bind_error hcommit]
          rfl
        · rw [runFrom_bind_ok hcommit, runFrom_pure]
          rfl

/-- A batch ends in an open transaction exactly when it ends in the fault of a commit. -/
theorem isOpen_runBatch_iff (hg : s.gateway.Lapsing) (hclosed : s.isOpen st = false)
    {operation : String} (hoperation : operation ≠ "commit") (entity : String)
    (qs : List Statement) :
    s.isOpen ((runBatch operation entity qs).runFrom s st).2 = true ↔
      ∃ message, ((runBatch operation entity qs).runFrom s st).1 =
        .error (.dataAccess "commit" plainName message) := by
  have hother {st : SessionState σ} {message : String} :
      ((executeAll operation entity qs).runFrom s st).1 ≠
        .error (.dataAccess "commit" plainName message) := by
    intro h
    obtain ⟨message', hfault⟩ := fault_of_executeAll h
    injection hfault with hsame
    exact hoperation hsame.symm
  rw [runFrom_runBatch hclosed]
  split
  · constructor
    · intro hopen
      obtain ⟨st₁, written, st₂, message, hstart, hbody, hfails⟩ :=
        (isOpen_transaction_iff hg hclosed _).mp hopen
      exact ⟨message, runFrom_transaction_of_fails hstart hbody hfails⟩
    · rintro ⟨message, hfault⟩
      rcases hstart : (start none).runFrom s st with ⟨e | u, st₁⟩
      · rw [runFrom_transaction_of_start_error hstart] at hfault
        rcases fault_of_start (by rw [hstart]) with rfl | ⟨message', rfl⟩ <;> simp at hfault
      · rcases hall : (executeAll operation entity qs).runFrom s st₁ with ⟨e | written, st₂⟩
        · rw [runFrom_transaction_of_error hstart hall] at hfault
          cases hfault
          exact absurd (by rw [hall]) hother
        · rw [runFrom_transaction_of_ok hstart hall] at hfault
          have hcommit := runFrom_commit_eq_iff.mp (map_eq_error_iff.mp hfault)
          exact (isOpen_transaction_iff hg hclosed _).mpr
            ⟨st₁, written, st₂, message, hstart, hall, hcommit⟩
  · rw [isOpen_executeAll_of_closed hg operation entity qs hclosed]
    simp [hother]

/-- The statements of a batch are built and then run. -/
theorem batch_eq (k : RowOperation) (t : EntityType) (xs : List Instance) :
    (k.batch t xs : Operation σ Nat) = batchSize >>= fun size =>
      build (fun d => (k.many xs size).statements d t) >>= runBatch k.batchName t.name := by
  cases k <;> rfl

/-- A batch fails without a call, or its statements are built without a call and then run. -/
theorem batch_cases (s : Session σ) (st : SessionState σ) (k : RowOperation) (t : EntityType)
    (xs : List Instance) :
    (∃ e st₁, (k.batch t xs).runFrom s st = (.error e, st₁) ∧ st₁.connection = st.connection) ∨
    ∃ qs st₁, (build fun d => (k.many xs s.options.batchSize).statements d t).runFrom s st =
        (.ok qs, st₁) ∧
      st₁.connection = st.connection ∧
      (k.batch t xs).runFrom s st = (runBatch k.batchName t.name qs).runFrom s st₁ := by
  have hsize : (batchSize : Operation σ Nat).runFrom s st = (.ok s.options.batchSize, st) := rfl
  rw [batch_eq, runFrom_bind_ok hsize]
  rcases hbuild : (build fun d => (k.many xs s.options.batchSize).statements d t).runFrom s st
    with ⟨e | qs, st₁⟩
  all_goals
    have hconnection : st₁.connection = st.connection :=
      (congrArg (fun r => r.2.connection) hbuild).symm
  · exact Or.inl ⟨e, st₁, runFrom_bind_error hbuild, hconnection⟩
  · exact Or.inr ⟨qs, st₁, rfl, hconnection, runFrom_bind_ok hbuild⟩

/-- A transaction that a session opens on its own is closed at the end, unless its commit fails. -/
theorem own_transaction_open_iff (hg : s.gateway.Lapsing) (hclosed : s.isOpen st = false) :
    (∀ {α : Type} (body : Operation σ α),
      s.isOpen ((transaction body).runFrom s st).2 = true ↔
        ∃ st₁ a st₂ message, (start none).runFrom s st = (.ok (), st₁) ∧
          body.runFrom s st₁ = (.ok a, st₂) ∧ s.CommitFails st₂ message ∧
          ((transaction body).runFrom s st).1 =
            .error (.dataAccess "commit" plainName message)) ∧
    ∀ (k : RowOperation) (t : EntityType) (xs : List Instance),
      s.isOpen ((k.batch t xs).runFrom s st).2 = true ↔
        ∃ qs st₁ message,
          (build fun d => (k.many xs s.options.batchSize).statements d t).runFrom s st =
            (.ok qs, st₁) ∧
          ((k.batch t xs).runFrom s st).1 = .error (.dataAccess "commit" plainName message) := by
  refine ⟨fun body => ?_, fun k t xs => ?_⟩
  · rw [isOpen_transaction_iff hg hclosed]
    constructor
    · rintro ⟨st₁, a, st₂, message, hstart, hbody, hfails⟩
      exact ⟨st₁, a, st₂, message, hstart, hbody, hfails,
        runFrom_transaction_of_fails hstart hbody hfails⟩
    · rintro ⟨st₁, a, st₂, message, hstart, hbody, hfails, -⟩
      exact ⟨st₁, a, st₂, message, hstart, hbody, hfails⟩
  · have hsize : (batchSize : Operation σ Nat).runFrom s st = (.ok s.options.batchSize, st) := rfl
    have hbuild : s.isOpen ((build fun d =>
        (k.many xs s.options.batchSize).statements d t).runFrom s st).2 = false := hclosed
    rw [batch_eq, runFrom_bind_ok hsize]
    rcases hrun : (build fun d =>
      (k.many xs s.options.batchSize).statements d t).runFrom s st with ⟨e | qs, st₁⟩
    · rw [hrun] at hbuild
      rw [runFrom_bind_error hrun, hbuild]
      simp
    · rw [hrun] at hbuild
      rw [runFrom_bind_ok hrun, isOpen_runBatch_iff hg hbuild (by cases k <;> decide)]
      simp

end Session

namespace Connection

/-- Binding values leaves the connection as it is, and so does what is made of them. -/
theorem run_bind_pure {β : Type} (f : List Value → β) (q : Statement) (c : Connection) :
    ((bind .sqlite q >>= fun values => pure (f values)).run.run c).2 = c := by
  unfold bind
  cases Placeholder.positional q.text Dialect.sqlite.marker q.parameters <;> rfl

/-- The flag of a store follows its transaction calls. -/
theorem flagged_gateway : gateway.Flagged where
  execute q timeout c := by
    show ((discard (bind .sqlite q) >>= fun _ => pure 0 : Call Connection Nat).run.run
      c).2.inTransaction = c.inTransaction
    unfold bind
    cases Placeholder.positional q.text Dialect.sqlite.marker q.parameters <;> rfl
  scalar q timeout c :=
    congrArg Connection.inTransaction
      (run_bind_pure (fun values => (values.map Value.stored).head?) q c)
  query q timeout c :=
    congrArg Connection.inTransaction
      (run_bind_pure (fun values => (⟨(values.map Value.stored).map fun _ => "?",
        [values.map Value.stored], none⟩ : ResultSet)) q c)
  start_ok i c c' h := by cases h; rfl
  start_error i c e c' h := by cases h
  commit_ok c c' h := by cases h; rfl
  commit_error c e c' h := by cases h
  rollback c := rfl

/-- A store that cannot keep changes: every commit fails. -/
def refusing (message : String) : Gateway Connection :=
  { gateway with commit := throw message }

/-- The flag of a store that cannot keep changes follows its transaction calls as well. -/
theorem flagged_refusing (message : String) : (refusing message).Flagged where
  execute := flagged_gateway.execute
  scalar := flagged_gateway.scalar
  query := flagged_gateway.query
  start_ok := flagged_gateway.start_ok
  start_error := flagged_gateway.start_error
  commit_ok c c' h := by cases h
  commit_error c e c' h := by cases h; rfl
  rollback := flagged_gateway.rollback

/-- A store on which the time of every statement runs out, which ends the open transaction. -/
def expiring : Gateway Connection :=
  { gateway with
    execute := fun _ _ => do
      set (⟨false⟩ : Connection)
      throw "statement timed out" }

/-- On a store on which the time of statements runs out, transactions lapse. -/
theorem lapsing_expiring : expiring.Lapsing where
  execute_closed _ _ _ _ := rfl
  scalar_closed := flagged_gateway.scalar_closed
  query_closed := flagged_gateway.query_closed
  start_ok := flagged_gateway.start_ok
  start_error := flagged_gateway.start_error
  commit_ok := flagged_gateway.commit_ok
  commit_error := flagged_gateway.commit_error
  rollback := flagged_gateway.rollback

end Connection

namespace Session

/-- A transaction around nothing stays open on a store that cannot keep changes. Where the time of a
statement runs out, the transaction around it does not. -/
theorem own_transaction_open_iff_refusing :
    ((Connection.refusing "disk full").Lapsing ∧
      (⟨Connection.refusing "disk full", .default⟩ : Session Connection).isOpen
        ⟨⟨false⟩, .empty⟩ = false ∧
      (⟨Connection.refusing "disk full", .default⟩ : Session Connection).isOpen
        ((transaction (pure ())).runFrom ⟨Connection.refusing "disk full", .default⟩
          ⟨⟨false⟩, .empty⟩).2 = true) ∧
    Connection.expiring.Lapsing ∧
      ∀ q, (⟨Connection.expiring, .default⟩ : Session Connection).isOpen
        ((transaction (execute "execute" plainName q)).runFrom ⟨Connection.expiring, .default⟩
          ⟨⟨false⟩, .empty⟩).2 = false := by
  have hrefusing := (Connection.flagged_refusing "disk full").toLapsing
  refine ⟨⟨hrefusing, rfl, ?_⟩, Connection.lapsing_expiring, fun q => ?_⟩
  · exact ((own_transaction_open_iff hrefusing rfl).1 (pure ())).mpr
      ⟨_, (), _, "disk full", rfl, rfl, ⟨rfl, rfl⟩, rfl⟩
  · rw [← Bool.not_eq_true, (own_transaction_open_iff Connection.lapsing_expiring rfl).1]
    rintro ⟨st₁, n, st₂, message, -, hbody, -⟩
    cases hbody

/-- A transaction that a session opens on its own is not always closed at the end: where its commit
fails, the operation returns without a rollback. -/
theorem refused_commit_leaves_transaction_open :
    ¬∀ (s : Session Connection) (st : SessionState Connection) (body : Operation Connection Unit),
      s.gateway.Flagged → s.isOpen st = false →
        s.isOpen ((transaction body).runFrom s st).2 = false := by
  intro h
  have hclosed := h ⟨Connection.refusing "disk full", .default⟩ ⟨⟨false⟩, .empty⟩ (pure ())
    (Connection.flagged_refusing _) rfl
  have hopen : (⟨Connection.refusing "disk full", .default⟩ : Session Connection).isOpen
      ((transaction (pure ())).runFrom ⟨Connection.refusing "disk full", .default⟩
        ⟨⟨false⟩, .empty⟩).2 = true := by rfl
  rw [hclosed] at hopen
  cases hopen

end Session

end EntitySql
