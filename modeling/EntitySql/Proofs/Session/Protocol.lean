import EntitySql.Proofs.Session.EarlyFaults
import EntitySql.Proofs.Session.Transactions

/-!
# The transaction protocol of a session

A gateway is observed while operations run over it: for each call that it receives, is
a transaction open at the time, and does the call succeed? Whatever operations are
strung together or nested, transactions are opened while none is open and closed while
one is. Each operation only sends calls through a few steps, so the protocol is kept by
these steps and by whatever is composed of them.
-/

namespace EntitySql

/-- A call that a gateway receives, whether a transaction is open at the time, and whether the call
succeeds. -/
structure Received where
  isOpen : Bool
  call : CallRecord
  succeeded : Bool

namespace Received

/-- A transaction is opened while none is open, and closed while one is. -/
def Fits (e : Received) : Prop :=
  match e.call with
  | .start _ => e.isOpen = false
  | .commit => e.isOpen = true
  | .rollback => e.isOpen = true
  | _ => True

/-- Whether a transaction is open after a call. -/
def isOpenAfter (e : Received) : Bool :=
  match e.call with
  | .start _ => e.isOpen || e.succeeded
  | .commit => e.isOpen && !e.succeeded
  | .rollback => false
  | _ => e.isOpen

end Received

/-- Calls in a row that fit, given whether a transaction is open before them and after them. -/
inductive Bracketed : Bool → List Received → Bool → Prop
  | nil (b : Bool) : Bracketed b [] b
  | cons {e : Received} {es : List Received} {b : Bool} (hfits : e.Fits)
      (hrest : Bracketed e.isOpenAfter es b) : Bracketed e.isOpen (e :: es) b

/-- Bracketed calls after bracketed calls. -/
theorem Bracketed.append {b b' b'' : Bool} {es es' : List Received} (h : Bracketed b es b')
    (h' : Bracketed b' es' b'') : Bracketed b (es ++ es') b'' := by
  induction h with
  | nil => exact h'
  | cons hfits _ ih => exact .cons hfits (ih h')

/-- Statements that are run neither open nor close a transaction. -/
theorem Bracketed.eq_of_execute {b b' : Bool} {es : List Received} (h : Bracketed b es b')
    (hall : ∀ e ∈ es, ∃ q timeout, e.call = .execute q timeout) : b' = b := by
  induction h with
  | nil => rfl
  | @cons e es b' _ _ ih =>
    obtain ⟨hhead, hrest⟩ := List.forall_mem_cons.mp hall
    obtain ⟨q, timeout, hcall⟩ := hhead
    rw [ih hrest, Received.isOpenAfter, hcall]

section Observed

variable {σ α : Type}

/-- A call that is observed, whatever it ends in. -/
def Call.observed (g : Gateway σ) (record : CallRecord) (c : Call σ α) :
    Call (σ × List Received) α :=
  ExceptT.mk fun (connection, calls) =>
    let (result, connection') := c.run.run connection
    (result, connection', calls ++ [⟨g.inTransaction connection, record, result.isOk⟩])

/-- A gateway whose calls are observed. -/
def Gateway.observed (g : Gateway σ) : Gateway (σ × List Received) where
  dialect := g.dialect
  execute q timeout := (g.execute q timeout).observed g (.execute q timeout)
  scalar q timeout := (g.scalar q timeout).observed g (.scalar q timeout)
  query q timeout := (g.query q timeout).observed g (.query q timeout)
  start isolation := (g.start isolation).observed g (.start isolation)
  commit := g.commit.observed g .commit
  rollback := g.rollback.observed g .rollback
  inTransaction connection := g.inTransaction connection.1

namespace Gateway.Flagged

variable {g : Gateway σ} (hg : g.Flagged)

include hg

/-- A transaction is open after an attempt to open one, if one was open or the attempt succeeds. -/
theorem isOpen_start (i : Option Isolation) (c : σ) :
    g.inTransaction ((g.start i).run.run c).2 =
      (g.inTransaction c || ((g.start i).run.run c).1.isOk) := by
  rcases hrun : (g.start i).run.run c with ⟨message | u, c'⟩
  · simpa [Except.isOk, Except.toBool] using hg.start_error i c message c' hrun
  · simpa [Except.isOk, Except.toBool] using hg.start_ok i c c' hrun

/-- A transaction is open after an attempt to commit it, if the attempt fails. -/
theorem isOpen_commit (c : σ) :
    g.inTransaction (g.commit.run.run c).2 =
      (g.inTransaction c && !(g.commit.run.run c).1.isOk) := by
  rcases hrun : g.commit.run.run c with ⟨message | u, c'⟩
  · simpa [Except.isOk, Except.toBool] using hg.commit_error c message c' hrun
  · simpa [Except.isOk, Except.toBool] using hg.commit_ok c c' hrun

end Gateway.Flagged

/-- One state of an observed connection becomes another by bracketed calls, each of them one of
some. -/
def Gateway.Extends (g : Gateway σ) (A : CallRecord → Prop) (c c' : σ × List Received) : Prop :=
  ∃ es, c'.2 = c.2 ++ es ∧ Bracketed (g.inTransaction c.1) es (g.inTransaction c'.1) ∧
    ∀ e ∈ es, A e.call

namespace Gateway.Extends

variable {g : Gateway σ} {A : CallRecord → Prop} {c c' c'' : σ × List Received}

/-- Nothing is sent. -/
theorem refl (g : Gateway σ) (A : CallRecord → Prop) (c : σ × List Received) : g.Extends A c c :=
  ⟨[], by simp, .nil _, by simp⟩

/-- Calls are sent after others. -/
theorem trans (h : g.Extends A c c') (h' : g.Extends A c' c'') : g.Extends A c c'' := by
  obtain ⟨es, hes, hbracketed, hall⟩ := h
  obtain ⟨es', hes', hbracketed', hall'⟩ := h'
  refine ⟨es ++ es', by rw [hes', hes, List.append_assoc], hbracketed.append hbracketed', ?_⟩
  intro e he
  exact (List.mem_append.mp he).elim (hall e) (hall' e)

/-- One call is sent, which fits. -/
theorem single {record : CallRecord} {x : Call σ α}
    (hfits : Received.Fits ⟨g.inTransaction c.1, record, (x.run.run c.1).1.isOk⟩)
    (hafter : g.inTransaction (x.run.run c.1).2 =
      Received.isOpenAfter ⟨g.inTransaction c.1, record, (x.run.run c.1).1.isOk⟩)
    (hA : A record) : g.Extends A c ((x.observed g record).run.run c).2 := by
  refine ⟨[_], rfl, ?_, by simpa using hA⟩
  show Bracketed _ _ (g.inTransaction (x.run.run c.1).2)
  rw [hafter]
  exact .cons hfits (.nil _)

end Gateway.Extends

end Observed

variable {σ α β : Type} {g : Gateway σ} {A : CallRecord → Prop}

namespace Operation

/-- Whatever the options and the state, an operation sends bracketed calls, each of them one of
some. -/
def Sends (g : Gateway σ) (A : CallRecord → Prop) (x : Operation (σ × List Received) α) : Prop :=
  ∀ o st, g.Extends A st.connection (x.runFrom ⟨g.observed, o⟩ st).2.connection

/-- Whatever the options and the state, an operation sends bracketed calls. -/
abbrev Keeps (g : Gateway σ) (x : Operation (σ × List Received) α) : Prop :=
  Sends g (fun _ => True) x

variable {x : Operation (σ × List Received) α} {f : α → Operation (σ × List Received) β}

/-- A result is given without a call. -/
theorem sends_pure (a : α) : Sends g A (pure a) :=
  fun _ _ => .refl g A _

/-- A fault is given without a call. -/
theorem sends_throw (e : Fault) : Sends g A (throw e : Operation (σ × List Received) α) :=
  fun _ _ => .refl g A _

/-- A result is found without a call. -/
theorem sends_lift (r : Except Fault α) :
    Sends g A (liftM r : Operation (σ × List Received) α) :=
  fun _ _ => .refl g A _

/-- The session is known without a call. -/
theorem sends_read :
    Sends g A (read : Operation (σ × List Received) (Session (σ × List Received))) :=
  fun _ _ => .refl g A _

/-- The catalog is asked without a call. -/
theorem sends_ask (q : CatalogM α) : Sends g A (Session.ask q) :=
  fun _ _ => .refl g A _

/-- Statements are built without a call. -/
theorem sends_build (f : Dialect → CatalogM α) : Sends g A (Session.build f) :=
  fun _ _ => .refl g A _

/-- Whether a transaction is open is known without a call. -/
theorem sends_inTransaction : Sends g A Session.inTransaction :=
  fun _ _ => .refl g A _

/-- Two operations in a row send the calls of both. -/
theorem Sends.bind (hx : Sends g A x) (hf : ∀ a, Sends g A (f a)) : Sends g A (x >>= f) := by
  intro o st
  have hfirst := hx o st
  rcases hrun : x.runFrom ⟨g.observed, o⟩ st with ⟨e | a, st'⟩ <;> rw [hrun] at hfirst
  · rw [runFrom_bind_error hrun]
    exact hfirst
  · rw [runFrom_bind_ok hrun]
    exact hfirst.trans (hf a o st')

/-- An attempt sends what is attempted. -/
theorem Sends.attempt (hx : Sends g A x) : Sends g A (Session.attempt x) := by
  intro o st
  rw [runFrom_attempt]
  exact hx o st

/-- A result may be dropped. -/
theorem Sends.discard (hx : Sends g A x) : Sends g A (discard x) := by
  intro o st
  rw [runFrom_discard]
  exact hx o st

/-- Options may be changed for a while. -/
theorem Sends.under (hx : Sends g A x) (o : Options) :
    Sends g A (withReader (fun s => { s with options := o }) x) :=
  fun _ st => hx o st

/-- Items are gone through without a call. -/
theorem sends_mapM_lift {γ : Type} (h : γ → Except Fault α) (cs : List γ) :
    Sends g A (cs.mapM fun c => (liftM (h c) : Operation (σ × List Received) α)) := by
  induction cs with
  | nil => exact sends_pure []
  | cons c cs ih =>
    rw [List.mapM_cons]
    exact (sends_lift (h c)).bind fun a => ih.bind fun as => sends_pure (a :: as)

end Operation

namespace Session

open Operation

/-- Restricting a query to a page sends nothing. -/
theorem sends_pageRows (inner : Statement) (order : Option String) (w : Window) :
    Sends g A (pageRows inner order w) :=
  sends_read.bind fun _ => sends_pure _

section Steps

variable (hg : g.Flagged)

include hg

/-- Running a statement sends it. -/
theorem sends_execute (hA : ∀ q timeout, A (.execute q timeout)) (operation entity : String)
    (q : Statement) : Sends g A (execute operation entity q) := by
  refine sends_read.bind fun s o st => ?_
  rw [runFrom_call]
  exact .single trivial (hg.execute _ _ _) (hA _ _)

/-- Running statements sends them. -/
theorem sends_executeAll (hA : ∀ q timeout, A (.execute q timeout)) (operation entity : String)
    (qs : List Statement) : Sends g A (executeAll operation entity qs) := by
  induction qs with
  | nil => exact sends_pure 0
  | cons q qs ih =>
    exact (sends_execute hg hA operation entity q).bind fun n => ih.bind fun m => sends_pure (n + m)

/-- Running a query for one value sends it. -/
theorem sends_scalarValue (hA : ∀ q timeout, A (.scalar q timeout)) (operation entity : String)
    (q : Statement) : Sends g A (scalarValue operation entity q) := by
  refine sends_read.bind fun s o st => ?_
  rw [runFrom_call]
  exact .single trivial (hg.scalar _ _ _) (hA _ _)

/-- Running a query for its rows sends it. -/
theorem sends_rows (hA : ∀ q timeout, A (.query q timeout)) (operation entity : String)
    (q : Statement) : Sends g A (rows operation entity q) := by
  refine sends_read.bind fun s => Sends.bind (fun o st => ?_) fun result => ?_
  · rw [runFrom_call]
    exact .single trivial (hg.query _ _ _) (hA _ _)
  · split
    · exact sends_pure _
    · exact sends_throw _

/-- A transaction is opened only while none is open. -/
theorem sends_start (hA : ∀ i, A (.start i)) (i : Option Isolation) : Sends g A (start i) := by
  intro o st
  rw [runFrom_start]
  cases hopen : (⟨g.observed, o⟩ : Session (σ × List Received)).isOpen st with
  | true => exact .refl g A _
  | false =>
    rw [if_neg Bool.false_ne_true, runFrom_call]
    exact .single hopen (hg.isOpen_start i _) (hA i)

/-- A transaction is committed only while it is open. -/
theorem sends_commit (hA : A .commit) : Sends g A commit := by
  intro o st
  rw [runFrom_commit]
  cases hopen : (⟨g.observed, o⟩ : Session (σ × List Received)).isOpen st with
  | false => exact .refl g A _
  | true =>
    rw [if_pos rfl, runFrom_call]
    exact .single hopen (hg.isOpen_commit _) hA

/-- A transaction is rolled back only while it is open. -/
theorem sends_rollback (hA : A .rollback) : Sends g A rollback := by
  intro o st
  rw [runFrom_rollback]
  cases hopen : (⟨g.observed, o⟩ : Session (σ × List Received)).isOpen st with
  | false => exact .refl g A _
  | true =>
    rw [if_pos rfl, runFrom_call]
    exact .single hopen (hg.rollback _) hA

/-- Reading rows as instances only sends the query. -/
theorem keeps_instances (operation : String) (t : EntityType) (q : Statement) :
    Keeps g (instances operation t q) :=
  (sends_rows hg (fun _ _ => trivial) operation t.name q).bind fun result =>
    (sends_ask _).bind fun _ => sends_mapM_lift _ result.2

/-- What runs in a transaction is bracketed with it. -/
theorem keeps_transactionWith {ρ : Type}
    {body : Operation (σ × List Received) (ρ × Except Fault α)} (hbody : Keeps g body) :
    Keeps g (transactionWith body) := by
  refine (sends_start hg (fun _ => trivial) none).bind fun _ => hbody.bind fun r => ?_
  obtain ⟨account, e | a⟩ := r
  · -- a body that fails may have ended the transaction itself
    refine sends_inTransaction.bind fun isOpen => ?_
    cases isOpen with
    | false => exact sends_pure _
    | true => exact (sends_rollback hg trivial).attempt.discard.bind fun _ => sends_pure _
  · exact (sends_commit hg trivial).attempt.bind fun _ => sends_pure _

/-- What runs in a transaction is bracketed with it. -/
theorem keeps_transaction {body : Operation (σ × List Received) α} (hbody : Keeps g body) :
    Keeps g (transaction body) :=
  (keeps_transactionWith hg (hbody.attempt.bind fun r => sends_pure ((), r))).bind fun r =>
    sends_lift r.2

/-- A batch is bracketed by its own transaction, or by none. -/
theorem keeps_runBatch (operation entity : String) (qs : List Statement) :
    Keeps g (runBatch operation entity qs) := by
  have hall := sends_executeAll hg (A := fun _ => True) (fun _ _ => trivial) operation entity qs
  refine sends_read.bind fun s => sends_inTransaction.bind fun isOpen => ?_
  dsimp only
  split
  · -- several chunks, and no transaction is open
    refine (sends_start hg (fun _ => trivial) none).bind fun _ => hall.attempt.bind fun r => ?_
    cases r with
    | ok written => exact (sends_commit hg trivial).bind fun _ => sends_pure _
    | error e => exact (sends_rollback hg trivial).attempt.discard.bind fun _ => sends_throw e
  · exact hall

/-- An operation on several instances only sends its batch. -/
theorem keeps_batch (operation entity : String) (f : Nat → Dialect → CatalogM (List Statement)) :
    Keeps g (batchSize >>= fun size => build (f size) >>= runBatch operation entity) :=
  Sends.bind (sends_read.bind fun _ => sends_pure _) fun size =>
    (sends_build (f size)).bind fun qs => keeps_runBatch hg operation entity qs

/-- Finding a page only sends the count query. -/
theorem keeps_window (operation entity : String) (inner : Statement) (index size : Int) :
    Keeps g (window operation entity inner index size) :=
  (sends_scalarValue hg (fun _ _ => trivial) operation entity inner.pageCount).bind fun v =>
    (sends_lift (countOf v)).bind fun _ => sends_read.bind fun _ => sends_pure _

/-- Building a statement and running it only sends it. -/
theorem keeps_statement (operation entity : String) (f : Dialect → CatalogM Statement) :
    Keeps g (build f >>= execute operation entity) :=
  (sends_build f).bind fun q => sends_execute hg (fun _ _ => trivial) operation entity q

/-- Inserting only sends the insertion. -/
theorem keeps_insert (t : EntityType) (x : Instance) : Keeps g (insert t x) := by
  refine (sends_ask _).bind fun m => (sends_build _).bind fun q => ?_
  split
  · exact (sends_scalarValue hg (fun _ _ => trivial) _ _ q).bind fun _ => sends_pure _
  · exact (sends_execute hg (fun _ _ => trivial) _ _ q).bind fun _ => sends_pure _

/-- The operations of a session on an entity type and on plain SQL send bracketed calls. -/
theorem Offers.keeps {t : EntityType} {x : Operation (σ × List Received) α} (h : Offers t x) :
    Keeps g x := by
  have hscalar := sends_scalarValue hg (A := fun _ => True) fun _ _ => trivial
  have hrows := sends_rows hg (A := fun _ => True) fun _ _ => trivial
  cases h with
  | insert x => exact keeps_insert hg t x
  | insertAssign x =>
    refine (keeps_insert hg t x).bind fun inserted => (sends_ask _).bind fun m => ?_
    split
    · split
      · exact sends_pure _
      · exact (sends_ask _).bind fun a => (sends_lift _).bind fun _ => sends_pure _
    · exact sends_pure _
  | insertBatch xs | updateBatch xs | deleteBatch xs => exact keeps_batch hg _ _ _
  | update x | updateWhere x c | updateSet as c | updateFields x names c
  | updateIgnoring x ignored c | delete x | deleteWhere c => exact keeps_statement hg _ _ _
  | selectWhere c order => exact (sends_build _).bind fun q => keeps_instances hg _ t q
  | first c order =>
    exact (sends_build _).bind fun query => (sends_pageRows _ _ _).bind fun q =>
      (keeps_instances hg _ t q).bind fun _ => sends_pure _
  | selectFields c p target =>
    exact (sends_build _).bind fun q => (hrows _ _ q).bind fun result =>
      sends_mapM_lift _ result.2
  | selectDynamic c p k =>
    exact (sends_build _).bind fun q => (hrows _ _ q).bind fun _ => sends_pure _
  | selectAggregate c p k target =>
    exact (sends_build _).bind fun q => (hscalar _ _ q).bind fun v => sends_lift _
  | selectPage c order index size =>
    refine (sends_build _).bind fun query => (keeps_window hg _ _ _ _ _).bind fun w => ?_
    split
    · exact sends_pure _
    · exact (sends_pageRows _ _ _).bind fun q =>
        (keeps_instances hg _ t q).bind fun _ => sends_pure _
  | count c => exact (sends_build _).bind fun q => (hscalar _ _ q).bind fun v => sends_lift _
  | hasRows c =>
    exact (sends_build _).bind fun q => (hscalar _ _ q).bind fun v =>
      (sends_lift _).bind fun _ => sends_pure _
  | executeSql q => exact sends_execute hg (fun _ _ => trivial) _ _ q
  | queryRows q => exact (hrows _ _ q).bind fun _ => sends_pure _
  | queryScalar q target => exact (hscalar _ _ q).bind fun v => sends_lift _
  | queryPage q order index size =>
    refine (keeps_window hg _ _ _ _ _).bind fun w => ?_
    split
    · exact sends_pure _
    · exact (sends_pageRows _ _ _).bind fun q => (hrows _ _ q).bind fun _ => sends_pure _

end Steps

/-- What a program can be composed of: the operations of a session, one after the other and each as
it depends on what came before, attempted, under other options, and nested in transactions to any
depth. -/
inductive Program : {α : Type} → Operation σ α → Prop
  | pure {α : Type} (a : α) : Program (pure a)
  | fail {α : Type} (e : Fault) : Program (throw e : Operation σ α)
  | bind {α β : Type} {x : Operation σ α} {f : α → Operation σ β} (hx : Program x)
      (hf : ∀ a, Program (f a)) : Program (x >>= f)
  | attempt {α : Type} {x : Operation σ α} (hx : Program x) : Program (attempt x)
  | under {α : Type} {x : Operation σ α} (hx : Program x) (o : Options) :
      Program (withReader (fun s => { s with options := o }) x)
  | inTransaction : Program inTransaction
  | offered {α : Type} {t : EntityType} {x : Operation σ α} (hx : Offers t x) : Program x
  | queryInstances (t : EntityType) (q : Statement) : Program (queryInstances t q)
  | start (i : Option Isolation) : Program (start i)
  | commit : Program commit
  | rollback : Program rollback
  | transaction {α : Type} {body : Operation σ α} (hbody : Program body) :
      Program (transaction body)

/-- A program sends bracketed calls. -/
theorem Program.keeps (hg : g.Flagged) {x : Operation (σ × List Received) α} (h : Program x) :
    Keeps g x := by
  induction h with
  | pure a => exact sends_pure a
  | fail e => exact sends_throw e
  | bind _ _ ihx ihf => exact ihx.bind ihf
  | attempt _ ih => exact ih.attempt
  | under _ o ih => exact ih.under o
  | inTransaction => exact sends_inTransaction
  | offered hx => exact hx.keeps hg
  | queryInstances t q => exact keeps_instances hg _ t q
  | start i => exact sends_start hg (fun _ => trivial) i
  | commit => exact sends_commit hg trivial
  | rollback => exact sends_rollback hg trivial
  | transaction _ ih => exact keeps_transaction hg ih

section Refused

variable {s : Session σ} {st : SessionState σ}

/-- While a transaction is open, no other can be opened. -/
theorem runFrom_start_of_open (hopen : s.isOpen st = true) (i : Option Isolation) :
    (start i).runFrom s st = (.error (.transaction .alreadyActive), st) := by
  rw [runFrom_start, if_pos hopen]

/-- While no transaction is open, none can be committed. -/
theorem runFrom_commit_of_closed (hclosed : s.isOpen st = false) :
    commit.runFrom s st = (.error (.transaction .commitOutside), st) := by
  rw [runFrom_commit, if_neg (by simp [hclosed])]

/-- While no transaction is open, none can be rolled back. -/
theorem runFrom_rollback_of_closed (hclosed : s.isOpen st = false) :
    rollback.runFrom s st = (.error (.transaction .rollbackOutside), st) := by
  rw [runFrom_rollback, if_neg (by simp [hclosed])]

/-- While a transaction is open, the statements of a batch are run in it. -/
theorem runFrom_runBatch_of_open (hopen : s.isOpen st = true) (operation entity : String)
    (qs : List Statement) :
    (runBatch operation entity qs).runFrom s st =
      (executeAll operation entity qs).runFrom s st := by
  unfold runBatch
  rw [runFrom_bind_ok runFrom_read, runFrom_bind_ok runFrom_inTransaction, hopen]
  simp

end Refused

/-- While a transaction is open, a batch only runs statements in it. -/
theorem extends_batch_of_open (hg : g.Flagged) (o : Options)
    {st : SessionState (σ × List Received)} (hopen : isOpen ⟨g.observed, o⟩ st = true)
    (k : RowOperation) (t : EntityType) (xs : List Instance) :
    g.Extends (fun r => ∃ q timeout, r = .execute q timeout) st.connection
      ((k.batch t xs).runFrom ⟨g.observed, o⟩ st).2.connection := by
  rcases batch_cases ⟨g.observed, o⟩ st k t xs with
    ⟨e, st₁, hrun, hconnection⟩ | ⟨qs, st₁, -, hconnection, hrun⟩
  · rw [hrun, hconnection]
    exact .refl g _ _
  · have hopen₁ : isOpen ⟨g.observed, o⟩ st₁ = true := by
      rw [isOpen, hconnection]
      exact hopen
    rw [hrun, runFrom_runBatch_of_open hopen₁, ← hconnection]
    exact sends_executeAll hg (fun q timeout => ⟨q, timeout, rfl⟩) _ _ qs o st₁

/-- The gateway sees transactions that are opened only while none is open and closed only while one
is, whatever the program. While a transaction is open, opening another is refused, with a body or
without, and so is closing one while none is open: neither sends anything. A batch in an open
transaction only runs statements in it. A body that has ended its transaction leaves no transaction
to commit. -/
theorem gateway_sees_bracketed_calls (hg : g.Flagged) (o : Options)
    (st : SessionState (σ × List Received)) :
    (∀ {α : Type} (x : Operation (σ × List Received) α), Program x → ∃ es,
      (x.runFrom ⟨g.observed, o⟩ st).2.connection.2 = st.connection.2 ++ es ∧
      Bracketed (isOpen ⟨g.observed, o⟩ st) es
        (isOpen ⟨g.observed, o⟩ (x.runFrom ⟨g.observed, o⟩ st).2)) ∧
    (isOpen ⟨g.observed, o⟩ st = true →
      (∀ i, (start i).runFrom ⟨g.observed, o⟩ st = (.error (.transaction .alreadyActive), st)) ∧
      (∀ {α : Type} (body : Operation (σ × List Received) α),
        (transaction body).runFrom ⟨g.observed, o⟩ st =
          (.error (.transaction .alreadyActive), st)) ∧
      ∀ k t xs, ∃ es,
        ((RowOperation.batch k t xs).runFrom ⟨g.observed, o⟩ st).2.connection.2 =
          st.connection.2 ++ es ∧
        (∀ e ∈ es, ∃ q timeout, e.call = .execute q timeout) ∧
        isOpen ⟨g.observed, o⟩
          ((RowOperation.batch k t xs).runFrom ⟨g.observed, o⟩ st).2 = true) ∧
    (isOpen ⟨g.observed, o⟩ st = false →
      commit.runFrom ⟨g.observed, o⟩ st = (.error (.transaction .commitOutside), st) ∧
      rollback.runFrom ⟨g.observed, o⟩ st = (.error (.transaction .rollbackOutside), st)) ∧
    ∀ {α : Type} (body : Operation (σ × List Received) α) (a : α)
      (st₁ st₂ : SessionState (σ × List Received)),
      (start none).runFrom ⟨g.observed, o⟩ st = (.ok (), st₁) →
      body.runFrom ⟨g.observed, o⟩ st₁ = (.ok a, st₂) → isOpen ⟨g.observed, o⟩ st₂ = false →
      (transaction body).runFrom ⟨g.observed, o⟩ st =
        (.error (.transaction .commitOutside), st₂) := by
  refine ⟨fun x hx => ?_, fun hopen => ⟨fun i => ?_, fun body => ?_, fun k t xs => ?_⟩,
    fun hclosed => ⟨?_, ?_⟩, fun body a st₁ st₂ hstart hbody hended => ?_⟩
  · obtain ⟨es, hes, hbracketed, -⟩ := hx.keeps hg o st
    exact ⟨es, hes, hbracketed⟩
  · exact runFrom_start_of_open hopen i
  · exact runFrom_transaction_of_start_error (runFrom_start_of_open hopen none)
  · obtain ⟨es, hes, hbracketed, hexecute⟩ := extends_batch_of_open hg o hopen k t xs
    exact ⟨es, hes, hexecute, (hbracketed.eq_of_execute hexecute).trans hopen⟩
  · exact runFrom_commit_of_closed hclosed
  · exact runFrom_rollback_of_closed hclosed
  · rw [runFrom_transaction_of_ok hstart hbody, runFrom_commit_of_closed hended]
    rfl

/-- A transaction inside a transaction is refused, which rolls the outer one back, and a transaction
whose body commits it has nothing left to commit. -/
theorem gateway_sees_bracketed_calls_nested :
    Connection.gateway.Flagged ∧
    (∃ es, Bracketed false es false ∧ es.map Received.call = [.start none, .rollback] ∧
      ((transaction (transaction (pure ()))).runFrom ⟨Connection.gateway.observed, .default⟩
        ⟨(⟨false⟩, []), .empty⟩).2.connection.2 = es) ∧
    ((transaction commit).runFrom ⟨Connection.gateway.observed, .default⟩
      ⟨(⟨false⟩, []), .empty⟩).1 = .error (.transaction .commitOutside) := by
  obtain ⟨hprogram, -, -, hended⟩ := gateway_sees_bracketed_calls Connection.flagged_gateway
    .default ⟨(⟨false⟩, []), .empty⟩
  refine ⟨Connection.flagged_gateway, ?_, ?_⟩
  · obtain ⟨es, hes, hbracketed⟩ := hprogram (transaction (transaction (pure ())))
      (.transaction (.transaction (.pure ())))
    refine ⟨es, hbracketed, ?_, hes⟩
    rw [List.nil_append] at hes
    rw [← hes]
    rfl
  · rw [hended commit () _ _ rfl rfl rfl]

end Session

end EntitySql
