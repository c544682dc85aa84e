import EntitySql.Proofs.Session.Transactions

/-!
# What a failed batch leaves behind

An engine runs the statements of a text one after the other up to the first that fails,
and a rollback brings back the data from before the transaction. On such an engine a
failed atomic batch of several chunks leaves nothing behind. A batch that fits into one
chunk is one text, sent without a transaction: its statements before the failing one
stay in effect.
-/

namespace EntitySql

variable {σ δ : Type}

/-- What stands behind the connections of a gateway. -/
structure Engine (σ δ : Type) where
  /-- The data in effect. -/
  data : σ → δ
  /-- The data that was in effect when the open transaction was opened. -/
  saved : σ → δ
  /-- Whether a text is a single statement. -/
  single : String → Prop
  /-- What a single statement makes of the data, unless it fails. -/
  run : String → List Parameter → δ → Except String δ

/-- Runs statements one after the other up to the first that fails, and gives the data that is
reached. -/
def Engine.runAll (en : Engine σ δ) (ps : List Parameter) : List String → δ → Except String Unit × δ
  | [], d => (.ok (), d)
  | x :: xs, d =>
    match en.run x ps d with
    | .ok d' => en.runAll ps xs d'
    | .error message => (.error message, d)

/-- A gateway to an engine. A text of statements runs them one after the other up to the first that
fails, in a transaction or outside of one. Opening a transaction and rolling it back succeed, and
the rollback brings the data back. -/
structure Gateway.Follows (g : Gateway σ) (en : Engine σ δ) : Prop where
  flagged : g.Flagged
  execute : ∀ texts ps timeout c, texts ≠ [] → (∀ x ∈ texts, en.single x) →
    (((g.execute ⟨";".intercalate texts, ps⟩ timeout).run.run c).1.map (fun _ => ()),
      en.data ((g.execute ⟨";".intercalate texts, ps⟩ timeout).run.run c).2) =
        en.runAll ps texts (en.data c)
  saved_execute : ∀ q timeout c, en.saved ((g.execute q timeout).run.run c).2 = en.saved c
  start : ∀ i c, g.inTransaction c = false → ((g.start i).run.run c).1 = .ok () ∧
    en.data ((g.start i).run.run c).2 = en.data c ∧ en.saved ((g.start i).run.run c).2 = en.data c
  rollback : ∀ c, g.inTransaction c = true → (g.rollback.run.run c).1 = .ok () ∧
    en.data (g.rollback.run.run c).2 = en.saved c

/-- The text of a row for an engine. -/
def Draft.textFor (d : Dialect) (row : Draft) : String :=
  (row.statement d).text

/-- The parameters of rows as they are sent to an engine. -/
def Draft.sentFor (d : Dialect) (rows : List Draft) : List Parameter :=
  (rows.flatMap (·.parameters)).map (Parameter.sent d)

/-- Joined rows are sent as their joined texts. -/
theorem Draft.prepare_join (d : Dialect) (rows : List Draft) :
    Session.prepare d ((Draft.join ";" rows).statement d) =
      ⟨";".intercalate (rows.map (textFor d)), sentFor d rows⟩ := by
  simp only [Session.prepare, Draft.statement, Draft.join, Phrase.render_join, List.map_map]
  rfl

/-- When statements fail, those before the failing one have taken effect. -/
theorem Engine.runAll_eq_error {α : Type} {en : Engine σ δ} {ps : List Parameter}
    {text : α → String} {rows : List α} {d d' : δ} {message : String}
    (h : en.runAll ps (rows.map text) d = (.error message, d')) :
    ∃ done failing rest, rows = done ++ failing :: rest ∧
      en.runAll ps (done.map text) d = (.ok (), d') ∧
      en.run (text failing) ps d' = .error message := by
  induction rows generalizing d with
  | nil => cases h
  | cons row rows ih =>
    cases hrun : en.run (text row) ps d with
    | error message' =>
      rw [List.map_cons, runAll, hrun] at h
      cases h
      exact ⟨[], row, rows, rfl, rfl, hrun⟩
    | ok d₁ =>
      rw [List.map_cons, runAll, hrun] at h
      obtain ⟨done, failing, rest, rfl, hdone, hfailing⟩ := ih h
      refine ⟨row :: done, failing, rest, rfl, ?_, hfailing⟩
      rw [List.map_cons, runAll, hrun]
      exact hdone

/-- Rows in one text take effect up to one of them, which fails. -/
def Engine.StopsIn (en : Engine σ δ) (dialect : Dialect) (rows : List Draft) (d : δ)
    (message : String) (d' : δ) : Prop :=
  ∃ done failing rest, rows = done ++ failing :: rest ∧
    en.runAll (Draft.sentFor dialect rows) (done.map (Draft.textFor dialect)) d = (.ok (), d') ∧
    en.run (failing.textFor dialect) (Draft.sentFor dialect rows) d' = .error message

namespace Session

open Operation

variable {s : Session σ} {st st₁ st₂ : SessionState σ} {en : Engine σ δ} {e : Fault}

section Steps

variable (hg : s.gateway.Follows en)

include hg

/-- Opening a transaction outside of one succeeds and leaves the data alone. -/
theorem exists_start (hclosed : s.isOpen st = false) :
    ∃ st₁, (start none).runFrom s st = (.ok (), st₁) ∧
      en.data st₁.connection = en.data st.connection ∧
      en.saved st₁.connection = en.data st.connection := by
  obtain ⟨hok, hdata, hsaved⟩ := hg.start none st.connection hclosed
  refine ⟨{ st with connection := ((s.gateway.start none).run.run st.connection).2 }, ?_, hdata,
    hsaved⟩
  rw [runFrom_start, if_neg (by simp [hclosed]), runFrom_call, hok]
  rfl

/-- Rolling back an open transaction brings back the data from before it. -/
theorem data_rollback (hopen : s.isOpen st = true) :
    en.data (rollback.runFrom s st).2.connection = en.saved st.connection := by
  rw [runFrom_rollback, if_pos hopen, runFrom_call]
  exact (hg.rollback st.connection hopen).2

/-- Statements that fail in a transaction of their own leave nothing behind, unless it is the commit
that fails. -/
theorem data_transaction_executeAll (hclosed : s.isOpen st = false) {operation entity : String}
    {qs : List Statement}
    (h : ((transaction (executeAll operation entity qs)).runFrom s st).1 = .error e)
    (hcommit : ∀ message, e ≠ .dataAccess "commit" plainName message) :
    en.data ((transaction (executeAll operation entity qs)).runFrom s st).2.connection =
        en.data st.connection ∧
      s.isOpen ((transaction (executeAll operation entity qs)).runFrom s st).2 = false := by
  obtain ⟨st₁, hstart, hdata, hsaved⟩ := exists_start hg hclosed
  have hopen := isOpen_of_start hg.flagged.toLapsing hstart
  have hstill := isOpen_executeAll hg.flagged operation entity qs st₁
  have hkept := preserved_executeAll en.saved hg.saved_execute operation entity qs st₁
  rcases hall : (executeAll operation entity qs).runFrom s st₁ with ⟨e' | written, st₂⟩
  all_goals
    rw [hall] at hstill hkept
    have hopen₂ : s.isOpen st₂ = true := hstill.trans hopen
  · -- a statement fails while the transaction is still open, which is then rolled back
    rw [runFrom_transaction_of_error hstart hall, if_pos hopen₂]
    refine ⟨?_, isOpen_rollback hg.flagged.toLapsing st₂⟩
    rw [data_rollback hg hopen₂, hkept, hsaved]
  · -- all statements succeed, so only the commit can fail
    rw [runFrom_transaction_of_ok hstart hall, map_eq_error_iff, runFrom_commit, if_pos hopen₂] at h
    obtain ⟨message, -, rfl⟩ := runFrom_call_eq_error_iff.mp h
    exact absurd rfl (hcommit message)

/-- When rows in one text fail, they stop in one of them. -/
theorem stopsIn_of_executeAll {operation entity : String} {rows : List Draft}
    (hsome : rows ≠ []) (hsingle : ∀ row ∈ rows, en.single (row.textFor s.gateway.dialect))
    (h : (executeAll operation entity
      [(Draft.join ";" rows).statement s.gateway.dialect]).runFrom s st = (.error e, st₁)) :
    ∃ message, e = .dataAccess operation entity message ∧
      en.StopsIn s.gateway.dialect rows (en.data st.connection) message
        (en.data st₁.connection) := by
  have hexecute := hg.execute (rows.map (Draft.textFor s.gateway.dialect))
    (Draft.sentFor s.gateway.dialect rows) s.options.timeout st.connection (by simpa using hsome)
    (by simpa using hsingle)
  have hcall : (call operation entity fun g =>
      g.execute (prepare g.dialect ((Draft.join ";" rows).statement s.gateway.dialect))
        s.options.timeout).runFrom s st = _ := runFrom_call operation entity _
  rw [Draft.prepare_join] at hcall
  unfold executeAll execute at h
  rw [bind_assoc, runFrom_bind_ok runFrom_read] at h
  rcases hrun : (s.gateway.execute ⟨";".intercalate (rows.map (Draft.textFor s.gateway.dialect)),
    Draft.sentFor s.gateway.dialect rows⟩ s.options.timeout).run.run st.connection with
    ⟨message | n, c⟩
  · rw [hrun] at hexecute hcall
    rw [runFrom_bind_error hcall] at h
    cases h
    exact ⟨message, rfl, Engine.runAll_eq_error hexecute.symm⟩
  · rw [hrun] at hcall
    rw [runFrom_bind_ok hcall] at h
    cases h

/-- When rows that one chunk holds fail, they stop in one of them. -/
theorem stopsIn_of_one_chunk {operation entity : String} {rows : List Draft} {size : Nat}
    (hle : rows.length ≤ max size 1)
    (hsingle : ∀ row ∈ rows, en.single (row.textFor s.gateway.dialect))
    (h : (executeAll operation entity ((chunks size rows).map fun part =>
      (Draft.join ";" part).statement s.gateway.dialect)).runFrom s st = (.error e, st₁)) :
    ∃ message, e = .dataAccess operation entity message ∧
      en.StopsIn s.gateway.dialect rows (en.data st.connection) message
        (en.data st₁.connection) := by
  have hsome : rows ≠ [] := by
    rintro rfl
    rw [chunks] at h
    cases h
  rw [chunks_of_length_le hsome hle] at h
  exact stopsIn_of_executeAll hg hsome hsingle h

end Steps

variable {k : RowOperation} {t : EntityType} {xs : List Instance} {size : Nat}
  {qs : List Statement}

/-- Statements that are built for a batch are the rows of its instances, cut into chunks. -/
theorem exists_rows (hcatalog : st.catalog.Serves t)
    (h : (build fun d => (k.many xs size).statements d t).runFrom s st = (.ok qs, st₁)) :
    ∃ m rows, Metadata.ofMapping t.mapping = .ok m ∧
      xs.zipIdx.mapM (draftAt (k.draft s.gateway.dialect t m)) = .ok rows ∧
      qs = (chunks size rows).map fun part =>
        (Draft.join ";" part).statement s.gateway.dialect := by
  rw [runFrom_build, runFrom_ask] at h
  obtain ⟨hresult, -⟩ := Prod.mk.inj h
  obtain ⟨m, ds, hm, hds, rfl⟩ := Build.statements_eq_ok hcatalog (Prod.ext hresult rfl)
  by_cases hkeys : k.HasKeys m
  · rw [RowOperation.drafts_many hkeys] at hds
    obtain ⟨rows, hrows, rfl⟩ := map_eq_ok_iff.mp hds
    exact ⟨m, rows, hm, hrows, List.map_map⟩
  · rw [RowOperation.drafts_many_of_keyless hkeys] at hds
    cases hds

/-- A batch that fails has sent nothing, or it fails in the chunks of the rows of its instances. -/
theorem batch_error_cases (hcatalog : st.catalog.Serves t)
    (h : (k.batch t xs).runFrom s st = (.error e, st₂)) :
    st₂.connection = st.connection ∨
    ∃ m rows st₁, Metadata.ofMapping t.mapping = .ok m ∧
      xs.zipIdx.mapM (draftAt (k.draft s.gateway.dialect t m)) = .ok rows ∧
      st₁.connection = st.connection ∧
      (runBatch k.batchName t.name ((chunks s.options.batchSize rows).map fun part =>
        (Draft.join ";" part).statement s.gateway.dialect)).runFrom s st₁ = (.error e, st₂) := by
  rcases batch_cases s st k t xs with
    ⟨e', st₁, hrun, hconnection⟩ | ⟨qs, st₁, hbuild, hconnection, hrun⟩
  · rw [hrun] at h
    cases h
    exact Or.inl hconnection
  · obtain ⟨m, rows, hm, hrows, rfl⟩ := exists_rows hcatalog hbuild
    exact Or.inr ⟨m, rows, st₁, hm, hrows, hconnection, hrun ▸ h⟩

/-- A failed atomic batch outside of a transaction leaves nothing behind, when it has several chunks
or at most one instance and it is not its commit that fails. When one chunk holds all of several
instances, either nothing was sent, or the rows before a failing one have taken effect and the
others have not. -/
theorem failed_batch_leaves_nothing_or_one_chunk (hg : s.gateway.Follows en)
    (hatomic : s.options.atomicBatches = true) (hclosed : s.isOpen st = false)
    (hcatalog : st.catalog.Serves t)
    (hsingle : ∀ m rows, Metadata.ofMapping t.mapping = .ok m →
      xs.zipIdx.mapM (draftAt (k.draft s.gateway.dialect t m)) = .ok rows →
      ∀ row ∈ rows, en.single (row.textFor s.gateway.dialect))
    (h : (k.batch t xs).runFrom s st = (.error e, st₂)) :
    (xs.length ≤ 1 ∨ max s.options.batchSize 1 < xs.length →
      (∀ message, e ≠ .dataAccess "commit" plainName message) →
      en.data st₂.connection = en.data st.connection ∧ s.isOpen st₂ = false) ∧
    (1 < xs.length → xs.length ≤ max s.options.batchSize 1 →
      st₂.connection = st.connection ∨
      ∃ m done failing rest message, Metadata.ofMapping t.mapping = .ok m ∧
        xs.zipIdx.mapM (draftAt (k.draft s.gateway.dialect t m)) = .ok (done ++ failing :: rest) ∧
        en.runAll (Draft.sentFor s.gateway.dialect (done ++ failing :: rest))
          (done.map (Draft.textFor s.gateway.dialect)) (en.data st.connection) =
            (.ok (), en.data st₂.connection) ∧
        en.run (failing.textFor s.gateway.dialect)
          (Draft.sentFor s.gateway.dialect (done ++ failing :: rest)) (en.data st₂.connection) =
            .error message ∧
        e = .dataAccess k.batchName t.name message) := by
  rcases batch_error_cases hcatalog h with hnothing | ⟨m, rows, st₁, hm, hrows, hconnection, hrun⟩
  · have hunchanged : s.isOpen st₂ = false := by
      rw [isOpen, hnothing]
      exact hclosed
    exact ⟨fun _ _ => ⟨congrArg en.data hnothing, hunchanged⟩, fun _ _ => Or.inl hnothing⟩
  · have hlength : rows.length = xs.length := by
      simpa using (mapM_eq_ok_iff.mp hrows).length_eq.symm
    have hclosed₁ : s.isOpen st₁ = false := by
      rw [isOpen, hconnection]
      exact hclosed
    rw [runFrom_runBatch hclosed₁, hatomic, Bool.true_and, List.length_map] at hrun
    rw [← hconnection, ← hlength]
    by_cases hmany : max s.options.batchSize 1 < rows.length
    · rw [if_pos (decide_eq_true (one_lt_length_chunks_iff.mpr hmany))] at hrun
      refine ⟨fun _ hcommit => ?_, fun _ hle => absurd hle (by omega)⟩
      have hnothing := data_transaction_executeAll hg hclosed₁ (congrArg Prod.fst hrun) hcommit
      rwa [hrun] at hnothing
    · have hone : ¬1 < (chunks s.options.batchSize rows).length :=
        mt one_lt_length_chunks_iff.mp hmany
      rw [if_neg (by simpa using hone)] at hrun
      have hopen := isOpen_executeAll hg.flagged k.batchName t.name
        ((chunks s.options.batchSize rows).map fun part =>
          (Draft.join ";" part).statement s.gateway.dialect) st₁
      rw [hrun, hclosed₁] at hopen
      obtain ⟨message, he, done, failing, rest, rfl, hdone, hfailing⟩ :=
        stopsIn_of_one_chunk hg (by omega) (hsingle m rows hm hrows) hrun
      refine ⟨fun hlimits _ => ⟨?_, hopen⟩, fun _ _ => Or.inr
        ⟨m, done, failing, rest, message, hm, hrows, hdone, hfailing, he⟩⟩
      -- a single row is the failing one
      have hnone : done = [] := by
        refine List.length_eq_zero_iff.mp ?_
        simp only [List.length_append, List.length_cons] at hlimits hmany
        omega
      subst hnone
      exact (congrArg Prod.snd hdone).symm

end Session

/-- The state of a connection to a store that writes statements down: those in effect, those in
effect when the open transaction was opened, and whether one is open. -/
structure Journal where
  entries : List String
  saved : List String
  isOpen : Bool

namespace Journal

/-- The statements of a text. -/
def statements (text : String) : List String :=
  (text.toList.splitOn ';').map String.ofList

/-- A store that has room for a number of statements. -/
def engine (room : Nat) : Engine Journal (List String) where
  data j := j.entries
  saved j := j.saved
  single text := ';' ∉ text.toList
  run text _ entries :=
    if entries.length < room then .ok (entries ++ [text]) else .error "database or disk is full"

/-- The gateway of a store that has room for a number of statements. -/
def gateway (room : Nat) : Gateway Journal where
  dialect := .sqlite
  execute q _ := ExceptT.mk fun j =>
    let (result, entries) := (engine room).runAll q.parameters (statements q.text) j.entries
    (result.map fun _ => entries.length - j.entries.length, { j with entries := entries })
  scalar _ _ := return none
  query _ _ := return ⟨[], [], none⟩
  start _ := modify fun j => ⟨j.entries, j.entries, true⟩
  commit := modify fun j => { j with isOpen := false }
  rollback := modify fun j => ⟨j.saved, j.saved, false⟩
  inTransaction j := j.isOpen

/-- Joined statements are cut where they were joined. -/
theorem statements_intercalate {texts : List String} (hsome : texts ≠ [])
    (hsingle : ∀ x ∈ texts, ';' ∉ x.toList) : statements (";".intercalate texts) = texts := by
  have hcut : (";".intercalate texts).toList.splitOn ';' = texts.map String.toList := by
    rw [String.toList_intercalate]
    exact List.splitOn_intercalate ';' (by simpa using hsingle) (by simpa using hsome)
  rw [statements, hcut, List.map_map]
  simp [Function.comp_def]

/-- The flag of a store that writes statements down follows its transaction calls. -/
theorem flagged_journal (room : Nat) : (gateway room).Flagged where
  execute q timeout c := rfl
  scalar q timeout c := rfl
  query q timeout c := rfl
  start_ok i c c' h := by cases h; rfl
  start_error i c e c' h := by cases h
  commit_ok c c' h := by cases h; rfl
  commit_error c e c' h := by cases h
  rollback c := rfl

/-- The gateway follows its store. -/
theorem follows_gateway (room : Nat) : (gateway room).Follows (engine room) where
  flagged := flagged_journal room
  execute texts ps timeout c hsome hsingle := by
    have hrun : ((gateway room).execute ⟨";".intercalate texts, ps⟩ timeout).run.run c =
        let r := (engine room).runAll ps (statements (";".intercalate texts)) c.entries
        (r.1.map fun _ => r.2.length - c.entries.length, { c with entries := r.2 }) := rfl
    rw [hrun, statements_intercalate hsome hsingle]
    show _ = (engine room).runAll ps texts c.entries
    rcases (engine room).runAll ps texts c.entries with ⟨message | u, entries⟩ <;> rfl
  saved_execute q timeout c := rfl
  start i c _ := ⟨rfl, rfl, rfl⟩
  rollback c _ := ⟨rfl, rfl⟩

/-- Two parts. -/
def parts : List Instance :=
  [⟨[.int64 1, .int64 2, .int64 3]⟩, ⟨[.int64 4, .int64 5, .null]⟩]

/-- The session of a store with room for one statement, and batches of a size. -/
def session (size : Nat) : Session Journal :=
  ⟨gateway 1, { Options.default with batchSize := size, atomicBatches := true }⟩

/-- The state before anything is written down. -/
def blank : SessionState Journal :=
  ⟨⟨[], [], false⟩, .empty⟩

/-- The deletions of two parts are single statements. -/
theorem single_rows (m : Metadata) (rows : List Draft)
    (hm : Metadata.ofMapping EntityType.parts.mapping = .ok m)
    (hrows : parts.zipIdx.mapM (draftAt (RowOperation.delete.draft .sqlite .parts m)) = .ok rows) :
    ∀ row ∈ rows, (engine 1).single (row.textFor .sqlite) := by
  have hall : (Metadata.ofMapping EntityType.parts.mapping >>= fun m =>
      parts.zipIdx.mapM (draftAt (RowOperation.delete.draft .sqlite .parts m))).toOption.all
        (·.all fun row => !(row.textFor .sqlite).toList.contains ';') = true := by
    decide +kernel
  rw [bind_eq_ok_iff.mpr ⟨m, hm, hrows⟩] at hall
  intro row hrow
  have hone := List.all_eq_true.mp hall row hrow
  show ';' ∉ (row.textFor .sqlite).toList
  simpa using hone

end Journal

namespace Session

open Journal

/-- Two deletions in two chunks, with room for one: the first is undone. -/
theorem failed_batch_leaves_nothing_two_chunks :
    ∃ st₂, (RowOperation.delete.batch .parts parts).runFrom (session 1) blank =
        (.error (.dataAccess "delete_batch" "Part" "database or disk is full"), st₂) ∧
      st₂.connection.entries = [] ∧ st₂.connection.isOpen = false := by
  have hfails : ((RowOperation.delete.batch .parts parts).runFrom (session 1) blank).1 =
      .error (.dataAccess "delete_batch" "Part" "database or disk is full") := by decide +kernel
  have hnothing := (failed_batch_leaves_nothing_or_one_chunk (follows_gateway 1) rfl rfl
    (Catalog.serves_empty _) single_rows (Prod.ext hfails rfl)).1 (Or.inr (by decide)) (by simp)
  exact ⟨_, Prod.ext hfails rfl, hnothing⟩

/-- Two deletions in one chunk, with room for one: the first is not undone. -/
theorem one_chunk_is_not_undone :
    ¬∀ (s : Session Journal) (en : Engine Journal (List String)) (st st₂ : SessionState Journal)
      (k : RowOperation) (t : EntityType) (xs : List Instance) (e : Fault),
      s.gateway.Follows en → s.options.atomicBatches = true → s.isOpen st = false →
      st.catalog.Serves t →
      (∀ m rows, Metadata.ofMapping t.mapping = .ok m →
        xs.zipIdx.mapM (draftAt (k.draft s.gateway.dialect t m)) = .ok rows →
        ∀ row ∈ rows, en.single (row.textFor s.gateway.dialect)) →
      xs ≠ [] → (k.batch t xs).runFrom s st = (.error e, st₂) →
      en.data st₂.connection = en.data st.connection := by
  intro h
  have hfails : ((RowOperation.delete.batch .parts parts).runFrom (session 2) blank).1 =
      .error (.dataAccess "delete_batch" "Part" "database or disk is full") := by decide +kernel
  have hstays : ((RowOperation.delete.batch .parts parts).runFrom (session 2)
      blank).2.connection.entries.length = 1 := by decide +kernel
  have hnothing : ((RowOperation.delete.batch .parts parts).runFrom (session 2)
      blank).2.connection.entries = [] :=
    h (session 2) (engine 1) blank _ .delete .parts parts _ (follows_gateway 1) rfl rfl
      (Catalog.serves_empty _) single_rows (by decide) (Prod.ext hfails rfl)
  rw [hnothing] at hstays
  cases hstays

end Session

end EntitySql
