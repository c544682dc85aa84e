import EntitySql.Proofs.Session.Transactions

/-!
# The calls of a batch

Which calls a gateway receives for the statements of a batch, and in what the batch ends,
follows from what the gateway answers: the calls up to the first failure, with a transaction
around them when the batch opens one of its own.
-/

namespace EntitySql

variable {σ : Type}

/-- A gateway whose transaction flag is set when a transaction is opened, and stays as it is when a
statement is run. -/
structure Gateway.HoldsOpen (g : Gateway σ) : Prop where
  start_ok : ∀ i c c', (g.start i).run.run c = (.ok (), c') → g.inTransaction c' = true
  execute : ∀ q timeout c, g.inTransaction ((g.execute q timeout).run.run c).2 = g.inTransaction c

/-- Statements that succeed one after the other, and the numbers of rows that they write. -/
inductive Gateway.Writes (g : Gateway σ) (timeout : Option Nat) :
    σ → List Statement → List Nat → σ → Prop
  | nil (c : σ) : g.Writes timeout c [] [] c
  | cons {c c₁ c₂ : σ} {q : Statement} {qs : List Statement} {n : Nat} {ns : List Nat}
      (h : (g.execute q timeout).run.run c = (.ok n, c₁)) (hrest : g.Writes timeout c₁ qs ns c₂) :
      g.Writes timeout c (q :: qs) (n :: ns) c₂

/-- Statements that are sent in their order, up to and including the first that fails: the calls,
and the sum of the rows or the failure. -/
inductive Gateway.Executes (g : Gateway σ) (timeout : Option Nat) :
    σ → List Statement → List CallRecord → Except String Nat → σ → Prop
  | all {c c' : σ} {qs : List Statement} {ns : List Nat} (h : g.Writes timeout c qs ns c') :
      g.Executes timeout c qs (qs.map (.execute · timeout)) (.ok ns.sum) c'
  | upTo {c c₁ c' : σ} {done : List Statement} {q : Statement} {ns : List Nat} {message : String}
      (h : g.Writes timeout c done ns c₁)
      (hfails : (g.execute q timeout).run.run c₁ = (.error message, c')) (rest : List Statement) :
      g.Executes timeout c (done ++ q :: rest) ((done ++ [q]).map (.execute · timeout))
        (.error message) c'

/-- A statement that succeeds before others. -/
theorem Gateway.Executes.cons {g : Gateway σ} {timeout : Option Nat} {c c₁ c₂ : σ} {q : Statement}
    {qs : List Statement} {n : Nat} {calls : List CallRecord} {r : Except String Nat}
    (hq : (g.execute q timeout).run.run c = (.ok n, c₁)) (h : g.Executes timeout c₁ qs calls r c₂) :
    g.Executes timeout c (q :: qs) (.execute q timeout :: calls) (r.map (n + ·)) c₂ := by
  cases h with
  | all h => exact .all (.cons hq h)
  | upTo h hfails rest => exact .upTo (.cons hq h) hfails rest

/-- Of statements in a row, either the first fails and ends the row, or it succeeds before the
others. -/
theorem Gateway.Executes.cons_cases {g : Gateway σ} {timeout : Option Nat} {c c' : σ}
    {q : Statement} {qs : List Statement} {calls : List CallRecord} {r : Except String Nat}
    (h : g.Executes timeout c (q :: qs) calls r c') :
    (∃ message, (g.execute q timeout).run.run c = (.error message, c') ∧
      calls = [.execute q timeout] ∧ r = .error message) ∨
    ∃ n c₁ calls' r', (g.execute q timeout).run.run c = (.ok n, c₁) ∧
      g.Executes timeout c₁ qs calls' r' c' ∧
      calls = .execute q timeout :: calls' ∧ r = r'.map (n + ·) := by
  generalize hall : q :: qs = all at h
  cases h with
  | all h =>
    subst hall
    cases h with
    | cons hq hrest => exact .inr ⟨_, _, _, _, hq, .all hrest, rfl, rfl⟩
  | upTo h hfails rest =>
    cases h with
    | nil =>
      obtain ⟨rfl, rfl⟩ := List.cons.inj hall
      exact .inl ⟨_, hfails, rfl, rfl⟩
    | cons hq hdone =>
      obtain ⟨rfl, rfl⟩ := List.cons.inj hall
      exact .inr ⟨_, _, _, _, hq, .upTo hdone hfails rest, rfl, rfl⟩

/-- Nothing is sent for no statements. -/
theorem Gateway.Executes.of_nil {g : Gateway σ} {timeout : Option Nat} {c c' : σ}
    {calls : List CallRecord} {r : Except String Nat}
    (h : g.Executes timeout c [] calls r c') : calls = [] ∧ r = .ok 0 ∧ c' = c := by
  generalize hall : ([] : List Statement) = all at h
  cases h with
  | all h =>
    subst hall
    cases h
    exact ⟨rfl, rfl, rfl⟩
  | upTo h hfails rest => simp at hall

/-- Statements are sent in some way from every state. -/
theorem Gateway.exists_executes (g : Gateway σ) (timeout : Option Nat) (c : σ)
    (qs : List Statement) : ∃ calls r c', g.Executes timeout c qs calls r c' := by
  induction qs generalizing c with
  | nil => exact ⟨_, _, _, .all (.nil c)⟩
  | cons q qs ih =>
    rcases hq : (g.execute q timeout).run.run c with ⟨message | n, c₁⟩
    · exact ⟨_, _, _, .upTo (.nil c) hq qs⟩
    · obtain ⟨calls, r, c', hrest⟩ := ih c₁
      exact ⟨_, _, _, .cons hq hrest⟩

namespace Session

/-- A batch opens a transaction of its own when batches are atomic, there are several statements,
and no transaction is open. -/
def OpensOwn (g : Gateway σ) (o : Options) (c : σ) (qs : List Statement) : Prop :=
  o.atomicBatches = true ∧ 1 < qs.length ∧ g.inTransaction c = false

/-- The calls of a batch from a state of the connection, in what the batch ends, and the state of
the connection then. -/
inductive BatchTrace (g : Gateway σ) (o : Options) (operation entity : String) (c : σ)
    (qs : List Statement) : List CallRecord → Except Fault Nat → σ → Prop
  | bare {calls : List CallRecord} {r : Except String Nat} {c' : σ} (hown : ¬OpensOwn g o c qs)
      (hall : g.Executes o.timeout c qs calls r c') :
      BatchTrace g o operation entity c qs calls (r.mapError (.dataAccess operation entity)) c'
  | unopened {message : String} {c' : σ} (hown : OpensOwn g o c qs)
      (hstart : (g.start none).run.run c = (.error message, c')) :
      BatchTrace g o operation entity c qs [.start none]
        (.error (.dataAccess "begin" plainName message)) c'
  | undone {calls : List CallRecord} {message : String} {r : Except String Unit} {c₁ c₂ c' : σ}
      (hown : OpensOwn g o c qs) (hstart : (g.start none).run.run c = (.ok (), c₁))
      (hall : g.Executes o.timeout c₁ qs calls (.error message) c₂)
      (hrollback : g.rollback.run.run c₂ = (r, c')) :
      BatchTrace g o operation entity c qs (.start none :: (calls ++ [.rollback]))
        (.error (.dataAccess operation entity message)) c'
  | unkept {calls : List CallRecord} {n : Nat} {message : String} {c₁ c₂ c' : σ}
      (hown : OpensOwn g o c qs) (hstart : (g.start none).run.run c = (.ok (), c₁))
      (hall : g.Executes o.timeout c₁ qs calls (.ok n) c₂)
      (hcommit : g.commit.run.run c₂ = (.error message, c')) :
      BatchTrace g o operation entity c qs (.start none :: (calls ++ [.commit]))
        (.error (.dataAccess "commit" plainName message)) c'
  | kept {calls : List CallRecord} {n : Nat} {c₁ c₂ c' : σ} (hown : OpensOwn g o c qs)
      (hstart : (g.start none).run.run c = (.ok (), c₁))
      (hall : g.Executes o.timeout c₁ qs calls (.ok n) c₂)
      (hcommit : g.commit.run.run c₂ = (.ok (), c')) :
      BatchTrace g o operation entity c qs (.start none :: (calls ++ [.commit])) (.ok n) c'

/-- A batch has a trace from every state. -/
theorem exists_batchTrace (g : Gateway σ) (o : Options) (operation entity : String) (c : σ)
    (qs : List Statement) : ∃ calls r c', BatchTrace g o operation entity c qs calls r c' := by
  by_cases hown : OpensOwn g o c qs
  · rcases hstart : (g.start none).run.run c with ⟨message | u, c₁⟩
    · exact ⟨_, _, _, .unopened hown hstart⟩
    · obtain ⟨calls, r, c₂, hall⟩ := g.exists_executes o.timeout c₁ qs
      cases r with
      | error message => exact ⟨_, _, _, .undone hown hstart hall rfl⟩
      | ok n =>
        rcases hcommit : g.commit.run.run c₂ with ⟨message | u, c'⟩
        · exact ⟨_, _, _, .unkept hown hstart hall hcommit⟩
        · exact ⟨_, _, _, .kept hown hstart hall hcommit⟩
  · obtain ⟨calls, r, c', hall⟩ := g.exists_executes o.timeout c qs
    exact ⟨_, _, _, .bare hown hall⟩

open Operation

variable {g : Gateway σ} {o : Options} (operation entity : String)

/-- A call of a recording gateway is made, recorded, and its failure becomes the fault. -/
private theorem call_recorded {α : Type} {f : Gateway (σ × List CallRecord) → Call _ α}
    {x : Call σ α} {record : CallRecord} (h : f g.recorded = x.recorded record)
    (st : SessionState (σ × List CallRecord)) :
    (call operation entity f).runFrom ⟨g.recorded, o⟩ st =
      ((x.run.run st.connection.1).1.mapError (.dataAccess operation entity),
        { st with
          connection := ((x.run.run st.connection.1).2, st.connection.2 ++ [record]) }) := by
  rw [runFrom_call, h]
  rfl

/-- With no transaction open, one is begun by a call of the gateway. -/
private theorem start_recorded (st : SessionState (σ × List CallRecord))
    (hclosed : g.inTransaction st.connection.1 = false) :
    (start none).runFrom ⟨g.recorded, o⟩ st =
      (((g.start none).run.run st.connection.1).1.mapError (.dataAccess "begin" plainName),
        { st with connection :=
          (((g.start none).run.run st.connection.1).2, st.connection.2 ++ [.start none]) }) := by
  have hcall := call_recorded (g := g) (o := o) "begin" plainName (f := fun g => g.start none)
    (x := g.start none) rfl st
  rw [runFrom_start]
  exact (if_neg (Bool.eq_false_iff.mp hclosed)).trans hcall

/-- With a transaction open, it is committed by a call of the gateway. -/
private theorem commit_recorded (st : SessionState (σ × List CallRecord))
    (hopen : g.inTransaction st.connection.1 = true) :
    commit.runFrom ⟨g.recorded, o⟩ st =
      ((g.commit.run.run st.connection.1).1.mapError (.dataAccess "commit" plainName),
        { st with connection :=
          ((g.commit.run.run st.connection.1).2, st.connection.2 ++ [.commit]) }) := by
  have hcall := call_recorded (g := g) (o := o) "commit" plainName (f := (·.commit))
    (x := g.commit) rfl st
  rw [runFrom_commit]
  exact (if_pos hopen).trans hcall

/-- With a transaction open, it is rolled back by a call of the gateway. -/
private theorem rollback_recorded (st : SessionState (σ × List CallRecord))
    (hopen : g.inTransaction st.connection.1 = true) :
    rollback.runFrom ⟨g.recorded, o⟩ st =
      ((g.rollback.run.run st.connection.1).1.mapError (.dataAccess "rollback" plainName),
        { st with connection :=
          ((g.rollback.run.run st.connection.1).2, st.connection.2 ++ [.rollback]) }) := by
  have hcall := call_recorded (g := g) (o := o) "rollback" plainName (f := (·.rollback))
    (x := g.rollback) rfl st
  rw [runFrom_rollback]
  exact (if_pos hopen).trans hcall

/-- Running a statement sends it as it is prepared. -/
private theorem execute_recorded (q : Statement) (st : SessionState (σ × List CallRecord)) :
    (execute operation entity q).runFrom ⟨g.recorded, o⟩ st =
      let x := (g.execute (prepare g.dialect q) o.timeout).run.run st.connection.1
      (x.1.mapError (.dataAccess operation entity), { st with
        connection := (x.2, st.connection.2 ++ [.execute (prepare g.dialect q) o.timeout]) }) := by
  unfold execute
  rw [runFrom_bind_ok runFrom_read]
  exact call_recorded operation entity
    (f := fun g => g.execute (prepare g.dialect q) o.timeout) rfl st

/-- Running statements sends them as they are prepared, up to and including the first that fails,
whose failure is the fault. -/
private theorem executeAll_recorded (qs : List Statement)
    (st : SessionState (σ × List CallRecord)) {calls : List CallRecord} {r : Except String Nat}
    {c' : σ} (h : g.Executes o.timeout st.connection.1 (qs.map (prepare g.dialect)) calls r c') :
    (executeAll operation entity qs).runFrom ⟨g.recorded, o⟩ st =
      (r.mapError (.dataAccess operation entity),
        { st with connection := (c', st.connection.2 ++ calls) }) := by
  induction qs generalizing st calls r with
  | nil =>
    obtain ⟨rfl, rfl, rfl⟩ := h.of_nil
    rw [List.append_nil]
    rfl
  | cons q qs ih =>
    have hone := execute_recorded (g := g) (o := o) operation entity q st
    unfold executeAll
    rcases h.cons_cases with ⟨message, hq, rfl, rfl⟩ | ⟨n, c₁, calls, r, hq, hrest, rfl, rfl⟩
    · rw [hq] at hone
      exact runFrom_bind_error hone
    · rw [hq] at hone
      rw [runFrom_bind_ok hone]
      have hresult := ih { st with
        connection := (c₁, st.connection.2 ++ [.execute (prepare g.dialect q) o.timeout]) } hrest
      cases r with
      | error message =>
        rw [runFrom_bind_error hresult, List.append_assoc]
        rfl
      | ok written =>
        rw [runFrom_bind_ok hresult, runFrom_pure, List.append_assoc]
        rfl

/-- The statements of a batch leave the flag of the transaction as it was. -/
private theorem inTransaction_of_executeAll (hg : g.HoldsOpen) (qs : List Statement)
    (st : SessionState (σ × List CallRecord)) {r : Except Fault Nat} {c' : σ}
    {calls : List CallRecord}
    (hrun : (executeAll operation entity qs).runFrom ⟨g.recorded, o⟩ st =
      (r, { st with connection := (c', calls) })) :
    g.inTransaction c' = g.inTransaction st.connection.1 := by
  have hkept := preserved_executeAll (s := ⟨g.recorded, o⟩) (fun c => g.inTransaction c.1)
    (fun q timeout c => hg.execute q timeout c.1) operation entity qs st
  rw [hrun] at hkept
  exact hkept

/-- A batch that opens no transaction of its own runs its statements and nothing else. -/
private theorem runBatch_of_not_own {qs : List Statement} {st : SessionState (σ × List CallRecord)}
    (hown : ¬OpensOwn g o st.connection.1 (qs.map (prepare g.dialect))) :
    (runBatch operation entity qs).runFrom ⟨g.recorded, o⟩ st =
      (executeAll operation entity qs).runFrom ⟨g.recorded, o⟩ st := by
  have hisOpen : (⟨g.recorded, o⟩ : Session _).isOpen st = g.inTransaction st.connection.1 := rfl
  unfold runBatch
  rw [runFrom_bind_ok runFrom_read, runFrom_bind_ok runFrom_inTransaction, hisOpen]
  exact congrArg (runFrom _ st) (if_neg (by simpa [OpensOwn, and_assoc] using hown))

/-- A batch that opens a transaction of its own does so before its statements, and closes it by how
they ended. -/
private theorem runBatch_of_own {qs : List Statement} {st : SessionState (σ × List CallRecord)}
    (hown : OpensOwn g o st.connection.1 (qs.map (prepare g.dialect))) :
    (runBatch operation entity qs).runFrom ⟨g.recorded, o⟩ st =
      (do
        start none
        match ← attempt (executeAll operation entity qs) with
        | .ok written =>
          commit
          return written
        | .error e =>
          discard (attempt rollback)
          throw e : Operation _ Nat).runFrom ⟨g.recorded, o⟩ st := by
  obtain ⟨hatomic, hseveral, hclosed⟩ := hown
  rw [List.length_map] at hseveral
  have hisOpen : (⟨g.recorded, o⟩ : Session _).isOpen st = g.inTransaction st.connection.1 := rfl
  unfold runBatch
  rw [runFrom_bind_ok runFrom_read, runFrom_bind_ok runFrom_inTransaction, hisOpen]
  exact congrArg (runFrom _ st) (if_pos (by simp [hatomic, hseveral, hclosed]))

/-- A batch ends as any trace of it says, with the calls of the trace recorded. -/
private theorem runBatch_of_batchTrace (hg : g.HoldsOpen) {qs : List Statement}
    {st : SessionState (σ × List CallRecord)} {calls : List CallRecord} {result : Except Fault Nat}
    {c' : σ} (h : BatchTrace g o operation entity st.connection.1 (qs.map (prepare g.dialect))
      calls result c') :
    (runBatch operation entity qs).runFrom ⟨g.recorded, o⟩ st =
      (result, { st with connection := (c', st.connection.2 ++ calls) }) := by
  have hbegin {r : Except String Unit} {c₁ : σ}
      (hown : OpensOwn g o st.connection.1 (qs.map (prepare g.dialect)))
      (hstart : (g.start none).run.run st.connection.1 = (r, c₁)) :
      (start none).runFrom ⟨g.recorded, o⟩ st =
        (r.mapError (.dataAccess "begin" plainName),
          { st with connection := (c₁, st.connection.2 ++ [.start none]) }) := by
    rw [start_recorded st hown.2.2, hstart]
  have hopen {c₁ c₂ : σ} {calls : List CallRecord} {r : Except String Nat}
      (hstart : (g.start none).run.run st.connection.1 = (.ok (), c₁))
      (hall : g.Executes o.timeout c₁ (qs.map (prepare g.dialect)) calls r c₂) :
      g.inTransaction c₂ = true :=
    (inTransaction_of_executeAll operation entity hg qs
      { st with connection := (c₁, st.connection.2 ++ [.start none]) }
      (executeAll_recorded operation entity qs _ hall)).trans (hg.start_ok none _ c₁ hstart)
  -- a commit that fails and one that succeeds differ in the result only
  have hkeep {c₁ c₂ c' : σ} {calls : List CallRecord} {n : Nat} {r : Except String Unit}
      (hown : OpensOwn g o st.connection.1 (qs.map (prepare g.dialect)))
      (hstart : (g.start none).run.run st.connection.1 = (.ok (), c₁))
      (hall : g.Executes o.timeout c₁ (qs.map (prepare g.dialect)) calls (.ok n) c₂)
      (hcommit : g.commit.run.run c₂ = (r, c')) :
      (runBatch operation entity qs).runFrom ⟨g.recorded, o⟩ st =
        ((r.mapError (.dataAccess "commit" plainName)).map fun _ => n,
          { st with
            connection := (c', st.connection.2 ++ .start none :: (calls ++ [.commit])) }) := by
    have hrun := commit_recorded (o := o)
      { st with connection := (c₂, st.connection.2 ++ [.start none] ++ calls) } (hopen hstart hall)
    rw [hcommit] at hrun
    rw [runBatch_of_own operation entity hown, runFrom_bind_ok (hbegin hown hstart),
      runFrom_bind_ok (runFrom_attempt _), executeAll_recorded operation entity qs _ hall]
    dsimp only [Except.mapError]
    cases r with
    | error message =>
      rw [runFrom_bind_error hrun]
      simp [Except.map]
    | ok u =>
      rw [runFrom_bind_ok hrun, runFrom_pure]
      simp [Except.map]
  cases h with
  | bare hown hall =>
    rw [runBatch_of_not_own operation entity hown, executeAll_recorded operation entity qs _ hall]
  | unopened hown hstart =>
    rw [runBatch_of_own operation entity hown, runFrom_bind_error (hbegin hown hstart)]
  | undone hown hstart hall hrollback =>
    rw [runBatch_of_own operation entity hown, runFrom_bind_ok (hbegin hown hstart),
      runFrom_bind_ok (runFrom_attempt _), executeAll_recorded operation entity qs _ hall]
    dsimp only [Except.mapError]
    rw [runFrom_bind_ok (runFrom_discard_attempt rollback), runFrom_throw,
      rollback_recorded _ (hopen hstart hall), hrollback]
    simp
  | unkept hown hstart hall hcommit => exact hkeep hown hstart hall hcommit
  | kept hown hstart hall hcommit => exact hkeep hown hstart hall hcommit

/-- A batch has a single trace, made from the answers of the gateway: these calls it sends and no
others, and it ends as the trace says. -/
theorem runBatch_sends_trace (hg : g.HoldsOpen) (qs : List Statement)
    (st : SessionState (σ × List CallRecord)) :
    ∃ calls result c', (runBatch operation entity qs).runFrom ⟨g.recorded, o⟩ st =
        (result, { st with connection := (c', st.connection.2 ++ calls) }) ∧
      ∀ calls₁ result₁ c₁, BatchTrace g o operation entity st.connection.1
          (qs.map (prepare g.dialect)) calls₁ result₁ c₁ ↔
        calls₁ = calls ∧ result₁ = result ∧ c₁ = c' := by
  obtain ⟨calls, result, c', htrace⟩ := exists_batchTrace g o operation entity st.connection.1
    (qs.map (prepare g.dialect))
  have hrun := runBatch_of_batchTrace operation entity hg htrace
  refine ⟨calls, result, c', hrun, fun calls₁ result₁ c₁ => ⟨fun hother => ?_, ?_⟩⟩
  · have hsame := (runBatch_of_batchTrace operation entity hg hother).symm.trans hrun
    simp only [Prod.mk.injEq, SessionState.mk.injEq, and_true, List.append_cancel_left_eq] at hsame
    exact ⟨hsame.2.2, hsame.1, hsame.2.1⟩
  · rintro ⟨rfl, rfl, rfl⟩
    exact htrace

/-- The flag of a script is set when a transaction is opened, and by no statement. -/
theorem holdsOpen_script (d : Dialect) : (Script.gateway d).HoldsOpen where
  start_ok i c c' h := by
    rcases c with ⟨_ | ⟨⟨_ | message, affected, scalar, result⟩, rest⟩, calls, isOpen⟩
    · cases h
      rfl
    · cases h
      rfl
    · cases h
  execute q timeout c := by
    rcases c with ⟨_ | ⟨⟨_ | message, affected, scalar, result⟩, rest⟩, calls, isOpen⟩ <;> rfl

/-- A batch of three statements whose second fails, and a rollback that fails too. -/
theorem runBatch_sends_trace_refused_row :
    (Script.gateway .sqlite).HoldsOpen ∧ ∃ c', BatchTrace (Script.gateway .sqlite)
      { Options.default with atomicBatches := true } "delete_batch" "Part"
      ⟨[.default, .default, { Reply.default with error := some "locked" },
        { Reply.default with error := some "gone" }], [], false⟩
      [⟨"DELETE FROM A", []⟩, ⟨"DELETE FROM B", []⟩, ⟨"DELETE FROM C", []⟩]
      [.start none, .execute ⟨"DELETE FROM A", []⟩ none, .execute ⟨"DELETE FROM B", []⟩ none,
        .rollback]
      (.error (.dataAccess "delete_batch" "Part" "locked")) c' := by
  obtain ⟨calls, result, c', hrun, htrace⟩ := runBatch_sends_trace
    (g := Script.gateway .sqlite) (o := { Options.default with atomicBatches := true })
    "delete_batch" "Part" (holdsOpen_script .sqlite)
    [⟨"DELETE FROM A", []⟩, ⟨"DELETE FROM B", []⟩, ⟨"DELETE FROM C", []⟩]
    ⟨(⟨[.default, .default, { Reply.default with error := some "locked" },
      { Reply.default with error := some "gone" }], [], false⟩, []), .empty⟩
  obtain rfl : _ = result := congrArg Prod.fst hrun
  obtain rfl : _ = calls := congrArg (·.2.connection.2) hrun
  exact ⟨holdsOpen_script .sqlite, c', (htrace _ _ _).mpr ⟨rfl, rfl, rfl⟩⟩

end Session

end EntitySql
