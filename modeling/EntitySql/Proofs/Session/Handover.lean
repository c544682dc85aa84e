import EntitySql.Proofs.Session.EarlyFaults
import EntitySql.Proofs.Statement.Parameters

/-!
# Statements handed to a gateway

A session prepares each statement before it hands it over, by sending its parameters one
by one. What it has built itself is bound already and reaches the gateway as it was built.
Plain SQL reaches it with its truth values encoded, and preparing it once more would
change nothing. Every operation hands over through the same few steps, so this is shown
for these steps and for whatever is composed of them.
-/

namespace EntitySql

/-- The statement that a call hands over. -/
def CallRecord.statement? : CallRecord → Option Statement
  | .execute q _ => some q
  | .scalar q _ => some q
  | .query q _ => some q
  | .start _ => none
  | .commit => none
  | .rollback => none

variable {σ α β : Type} {g : Gateway σ} {o : Options} {t : EntityType} {C : Catalog → Prop}
  {P given : Statement → Prop} {R : α → Prop} {R' : β → Prop}

namespace Operation

/-- The statements that an operation hands over, in their order and whatever it ends in. -/
def handed (g : Gateway σ) (o : Options) (st : SessionState σ)
    (x : Operation (σ × List CallRecord) α) : List Statement :=
  (x.runFrom ⟨g.recorded, o⟩ ⟨(st.connection, []), st.catalog⟩).2.connection.2.filterMap
    (·.statement?)

/-- What holds of every run of an operation from a state whose catalog is one of some: the catalog
stays one of them, every statement that is handed over is one of some, and so is the result. -/
def Hands (g : Gateway σ) (o : Options) (C : Catalog → Prop) (P : Statement → Prop) (R : α → Prop)
    (x : Operation (σ × List CallRecord) α) : Prop :=
  ∀ st, C st.catalog → C (x.runFrom ⟨g.recorded, o⟩ st).2.catalog ∧
    (∃ calls, (x.runFrom ⟨g.recorded, o⟩ st).2.connection.2 = st.connection.2 ++ calls ∧
      ∀ q ∈ calls.filterMap (·.statement?), P q) ∧
    ∀ a, (x.runFrom ⟨g.recorded, o⟩ st).1 = .ok a → R a

variable {x : Operation (σ × List CallRecord) α} {f : α → Operation (σ × List CallRecord) β}

/-- What is handed over by a run from a state is one of some. -/
theorem Hands.handed (hx : x.Hands g o C P R) {st : SessionState σ} (hst : C st.catalog) :
    ∀ q ∈ x.handed g o st, P q := by
  obtain ⟨-, ⟨calls, hcalls, hP⟩, -⟩ := hx ⟨(st.connection, []), st.catalog⟩ hst
  rw [Operation.handed, hcalls]
  exact hP

/-- An operation that hands nothing over. -/
theorem hands_of_connection_eq
    (h : ∀ st, C st.catalog → C (x.runFrom ⟨g.recorded, o⟩ st).2.catalog ∧
      (x.runFrom ⟨g.recorded, o⟩ st).2.connection = st.connection ∧
      ∀ a, (x.runFrom ⟨g.recorded, o⟩ st).1 = .ok a → R a) : x.Hands g o C P R := by
  intro st hst
  obtain ⟨hcatalog, hconnection, hR⟩ := h st hst
  exact ⟨hcatalog, ⟨[], by rw [hconnection, List.append_nil], by simp⟩, hR⟩

/-- Two operations in a row hand over what both do. -/
theorem Hands.bind (hx : x.Hands g o C P R) (hf : ∀ a, R a → (f a).Hands g o C P R') :
    (x >>= f).Hands g o C P R' := by
  intro st hst
  obtain ⟨hcatalog, ⟨calls, hcalls, hP⟩, hR⟩ := hx st hst
  rcases hrun : x.runFrom ⟨g.recorded, o⟩ st with ⟨e | a, st'⟩ <;> rw [hrun] at hcatalog hcalls hR
  · rw [runFrom_bind_error hrun]
    exact ⟨hcatalog, ⟨calls, hcalls, hP⟩, nofun⟩
  · rw [runFrom_bind_ok hrun]
    obtain ⟨hcatalog', ⟨calls', hcalls', hP'⟩, hR'⟩ := hf a (hR a rfl) st' hcatalog
    refine ⟨hcatalog', ⟨calls ++ calls', by rw [hcalls', hcalls, List.append_assoc], ?_⟩, hR'⟩
    intro q hq
    rw [List.filterMap_append] at hq
    exact (List.mem_append.mp hq).elim (hP q) (hP' q)

/-- What makes no call hands nothing over. -/
theorem Offline.hands (hx : x.Offline ⟨g.recorded, o⟩ t R) : x.Hands g o (·.Serves t) P R :=
  hands_of_connection_eq fun st hst => ⟨(hx st hst).1, (hx st hst).2.1, (hx st hst).2.2⟩

/-- A result is given without a call. -/
theorem hands_pure {a : α} (h : R a) : Hands g o C P R (pure a) :=
  hands_of_connection_eq fun _ hst => ⟨hst, rfl, fun _ ha => by cases ha; exact h⟩

/-- A fault is given without a call. -/
theorem hands_throw (e : Fault) :
    Hands g o C P R (throw e : Operation (σ × List CallRecord) α) :=
  hands_of_connection_eq fun _ hst => ⟨hst, rfl, nofun⟩

/-- A result is found without a call. -/
theorem hands_lift (r : Except Fault α) :
    Hands g o C P (fun _ => True) (liftM r : Operation (σ × List CallRecord) α) :=
  hands_of_connection_eq fun _ hst => ⟨hst, rfl, fun _ _ => trivial⟩

/-- The session is known without a call. -/
theorem hands_read :
    Hands g o C P (· = ⟨g.recorded, o⟩)
      (read : Operation (σ × List CallRecord) (Session (σ × List CallRecord))) :=
  hands_of_connection_eq fun _ hst => ⟨hst, rfl, fun _ ha => by cases ha; rfl⟩

/-- Whether a transaction is open is known without a call. -/
theorem hands_inTransaction : Hands g o C P (fun _ => True) Session.inTransaction :=
  hands_of_connection_eq fun _ hst => ⟨hst, rfl, fun _ _ => trivial⟩

/-- The catalog is asked without a call. -/
theorem hands_ask {q : CatalogM α} (h : ∀ c, C c → C (q.runFrom c).2) :
    Hands g o C P (fun _ => True) (Session.ask q) :=
  hands_of_connection_eq fun st hst => ⟨h st.catalog hst, rfl, fun _ _ => trivial⟩

/-- An attempt hands over what is attempted. -/
theorem Hands.attempt (hx : x.Hands g o C P R) :
    (Session.attempt x).Hands g o C P fun _ => True := by
  intro st hst
  rw [runFrom_attempt]
  exact ⟨(hx st hst).1, (hx st hst).2.1, fun _ _ => trivial⟩

/-- A result may be dropped. -/
theorem Hands.discard (hx : x.Hands g o C P R) : (discard x).Hands g o C P fun _ => True := by
  intro st hst
  rw [runFrom_discard]
  exact ⟨(hx st hst).1, (hx st hst).2.1, fun _ _ => trivial⟩

/-- Items are gone through without a call. -/
theorem hands_mapM_lift {γ : Type} (h : γ → Except Fault α) (cs : List γ) :
    Hands g o C P (fun _ => True)
      (cs.mapM fun c => (liftM (h c) : Operation (σ × List CallRecord) α)) := by
  induction cs with
  | nil => exact hands_pure trivial
  | cons c cs ih =>
    rw [List.mapM_cons]
    exact (hands_lift (h c)).bind fun _ _ => ih.bind fun _ _ => hands_pure trivial

/-- A call hands its statement over, if it has one. -/
theorem hands_call (operation entity : String) {c : Gateway (σ × List CallRecord) → Call _ α}
    {y : Call σ α} {record : CallRecord} (hc : c g.recorded = y.recorded record)
    (hP : ∀ q, record.statement? = some q → P q) :
    Hands g o C P (fun _ => True) (Session.call operation entity c) := by
  intro st hst
  rw [runFrom_call, hc, Call.run_recorded]
  exact ⟨hst, ⟨[record], rfl, by simpa using hP⟩, fun _ _ => trivial⟩

end Operation

namespace Session

open Operation

/-! ### Preparing -/

/-- Preparing a second time changes nothing. -/
theorem prepare_prepare (d : Dialect) (s : Statement) : prepare d (prepare d s) = prepare d s := by
  simp [prepare, Function.comp_def, Parameter.sent_sent]

/-- Preparing changes nothing about a statement whose parameters are bound. -/
theorem prepare_eq_of_isBound {d : Dialect} {s : Statement} (h : s.IsBound d) :
    prepare d s = s := by
  have hsame : s.parameters.map (Parameter.sent d) = s.parameters :=
    (List.map_congr_left fun p hp => (h p hp).sent_eq).trans s.parameters.map_id
  rw [prepare, hsame]

/-- A prepared statement has no truth values where there are none. -/
theorem encoded_prepare (d : Dialect) (s : Statement) : (prepare d s).Encoded d := by
  intro hnone p hp
  obtain ⟨given, -, rfl⟩ := List.mem_map.mp hp
  exact Dialect.isBool_encode hnone given.value

/-- Preparing passes on one parameter after the other. -/
theorem passes_prepare (d : Dialect) (s : Statement) :
    List.Forall₂ (Parameter.Passes d) s.parameters (prepare d s).parameters :=
  List.forall₂_map_right_iff.mpr (List.forall₂_same.mpr fun p _ => p.passes_sent d)

/-! ### Steps of operations -/

/-- A statement that is handed over for one of some: it is prepared from this one, or from a query
for a page of it. -/
def HandedFor (d : Dialect) (given : Statement → Prop) (q : Statement) : Prop :=
  ∃ s s', given s ∧ s.PageOf d s' ∧ q = prepare d s'

/-- Running a statement hands it over. -/
theorem hands_execute (operation entity : String) {q : Statement} (hq : P (prepare g.dialect q)) :
    Hands g o C P (fun _ => True) (execute operation entity q) := by
  refine hands_read.bind fun s hs => ?_
  subst hs
  exact hands_call operation entity (y := g.execute (prepare g.dialect q) o.timeout) rfl
    (by rintro _ ⟨⟩; exact hq)

/-- Running a query for one value hands it over. -/
theorem hands_scalarValue (operation entity : String) {q : Statement}
    (hq : P (prepare g.dialect q)) :
    Hands g o C P (fun _ => True) (scalarValue operation entity q) := by
  refine hands_read.bind fun s hs => ?_
  subst hs
  exact hands_call operation entity (y := g.scalar (prepare g.dialect q) o.timeout) rfl
    (by rintro _ ⟨⟩; exact hq)

/-- Running a query for its rows hands it over. -/
theorem hands_rows (operation entity : String) {q : Statement} (hq : P (prepare g.dialect q)) :
    Hands g o C P (fun _ => True) (rows operation entity q) := by
  refine hands_read.bind fun s hs => ?_
  subst hs
  refine Hands.bind (hands_call operation entity (y := g.query (prepare g.dialect q) o.timeout) rfl
    (by rintro _ ⟨⟩; exact hq)) fun result _ => ?_
  split
  · exact hands_pure trivial
  · exact hands_throw _

/-- Reading rows as instances hands over the query. -/
theorem hands_instances (hC : ∀ columns c, C c → C ((Reader.ofColumns t columns).runFrom c).2)
    (operation : String) {q : Statement} (hq : P (prepare g.dialect q)) :
    Hands g o C P (fun _ => True) (instances operation t q) :=
  (hands_rows operation t.name hq).bind fun result _ =>
    (hands_ask (hC result.1)).bind fun _ _ => hands_mapM_lift _ result.2

/-- Opening a transaction hands nothing over. -/
theorem hands_start (isolation : Option Isolation) :
    Hands g o C P (fun _ => True) (start isolation) := by
  intro st hst
  rw [runFrom_start]
  split
  · exact hands_throw (g := g) (o := o) _ st hst
  · exact hands_call "begin" plainName (y := g.start isolation) rfl nofun st hst

/-- Keeping the changes of a transaction hands nothing over. -/
theorem hands_commit : Hands g o C P (fun _ => True) commit := by
  intro st hst
  rw [runFrom_commit]
  split
  · exact hands_call "commit" plainName (y := g.commit) rfl nofun st hst
  · exact hands_throw (g := g) (o := o) _ st hst

/-- Dropping the changes of a transaction hands nothing over. -/
theorem hands_rollback : Hands g o C P (fun _ => True) rollback := by
  intro st hst
  rw [runFrom_rollback]
  split
  · exact hands_call "rollback" plainName (y := g.rollback) rfl nofun st hst
  · exact hands_throw (g := g) (o := o) _ st hst

/-- Running statements one after the other hands them over. -/
theorem hands_executeAll (operation entity : String) {qs : List Statement}
    (hqs : ∀ q ∈ qs, P (prepare g.dialect q)) :
    Hands g o C P (fun _ => True) (executeAll operation entity qs) := by
  induction qs with
  | nil => exact hands_pure trivial
  | cons q qs ih =>
    obtain ⟨hq, hqs⟩ := List.forall_mem_cons.mp hqs
    exact (hands_execute operation entity hq).bind fun _ _ =>
      (ih hqs).bind fun _ _ => hands_pure trivial

/-- Running the statements of a batch hands them over, in a transaction or not. -/
theorem hands_runBatch (operation entity : String) {qs : List Statement}
    (hqs : ∀ q ∈ qs, P (prepare g.dialect q)) :
    Hands g o C P (fun _ => True) (runBatch operation entity qs) := by
  have hall := hands_executeAll (o := o) (C := C) operation entity hqs
  refine hands_read.bind fun _ _ => hands_inTransaction.bind fun _ _ => ?_
  dsimp only
  split
  · refine (hands_start none).bind fun _ _ => hall.attempt.bind fun r _ => ?_
    cases r with
    | ok written => exact hands_commit.bind fun _ _ => hands_pure trivial
    | error e => exact hands_rollback.attempt.discard.bind fun _ _ => hands_throw e
  · exact hall

/-- Finding a page among the rows of a query hands over the query for their number. -/
theorem hands_window (operation entity : String) {inner : Statement} (index size : Int)
    (hinner : P (prepare g.dialect inner.pageCount)) :
    Hands g o C P (fun _ => True) (window operation entity inner index size) :=
  (hands_scalarValue operation entity hinner).bind fun _ _ =>
    (hands_lift _).bind fun _ _ => hands_read.bind fun _ _ => hands_pure trivial

/-- Restricting a query to a page hands nothing over. -/
theorem hands_pageRows (inner : Statement) (order : Option String) (w : Window) :
    Hands g o C P (· = inner.pageRows g.dialect order w) (pageRows inner order w) := by
  refine hands_read.bind fun s hs => ?_
  subst hs
  exact hands_pure rfl

/-! ### Operations -/

/-- The operations on an entity type, each with the operation that builds its statements; batches
are cut into chunks of a size. -/
inductive HandsBuilt (t : EntityType) (size : Nat) : Build → {α : Type} → Operation σ α → Prop
  | insert (x : Instance) : HandsBuilt t size (.insert x) (insert t x)
  | insertAssign (x : Instance) : HandsBuilt t size (.insert x) (insertAssign t x)
  | insertBatch (xs : List Instance) : HandsBuilt t size (.insertBatch xs size) (insertBatch t xs)
  | update (x : Instance) : HandsBuilt t size (.update x) (update t x)
  | updateWhere (x : Instance) (c : Option Condition) :
      HandsBuilt t size (.updateWhere x c) (updateWhere t x c)
  | updateSet (as : List Assignment) (c : Option Condition) :
      HandsBuilt t size (.updateSet as c) (updateSet t as c)
  | updateFields (x : Instance) (names : List String) (c : Option Condition) :
      HandsBuilt t size (.updateFields x names c) (updateFields t x names c)
  | updateIgnoring (x : Instance) (ignored : List String) (c : Option Condition) :
      HandsBuilt t size (.updateIgnoring x ignored c) (updateIgnoring t x ignored c)
  | updateBatch (xs : List Instance) : HandsBuilt t size (.updateBatch xs size) (updateBatch t xs)
  | delete (x : Instance) : HandsBuilt t size (.delete x) (delete t x)
  | deleteWhere (c : Option Condition) : HandsBuilt t size (.deleteWhere c) (deleteWhere t c)
  | deleteBatch (xs : List Instance) : HandsBuilt t size (.deleteBatch xs size) (deleteBatch t xs)
  | selectWhere (c : Option Condition) (order : Option (List SortKey)) :
      HandsBuilt t size (.select c order) (selectWhere t c order)
  | first (c : Option Condition) (order : Option (List SortKey)) :
      HandsBuilt t size (.select c none) (first t c order)
  | selectFields (c : Option Condition) (p : Projection) (target : ReadType) :
      HandsBuilt t size (.selectProjection c p .rows) (selectFields t c p target)
  | selectDynamic (c : Option Condition) (p : Projection) (k : SelectKind) :
      HandsBuilt t size (.selectProjection c p k) (selectDynamic t c p k)
  | selectAggregate (c : Option Condition) (p : Projection) (k : SelectKind) (target : ReadType) :
      HandsBuilt t size (.selectProjection c p k) (selectAggregate t c p k target)
  | selectPage (c : Option Condition) (order : Option (List SortKey)) (index pageSize : Int) :
      HandsBuilt t size (.select c none) (selectPage t c order index pageSize)
  | count (c : Option Condition) : HandsBuilt t size (.count c) (count t c)
  | hasRows (c : Option Condition) : HandsBuilt t size (.count c) (hasRows t c)

/-- The operations on plain SQL, each with the statement that it is given. -/
inductive HandsPlain : Statement → {α : Type} → Operation σ α → Prop
  | executeSql (q : Statement) : HandsPlain q (executeSql q)
  | queryRows (q : Statement) : HandsPlain q (queryRows q)
  | queryInstances (t : EntityType) (q : Statement) : HandsPlain q (queryInstances t q)
  | queryScalar (q : Statement) (target : ReadType) : HandsPlain q (queryScalar q target)
  | queryPage (q : Statement) (order : Option String) (index size : Int) :
      HandsPlain q (queryPage q order index size)

/-- The statements that an operation builds for an engine. -/
def BuiltBy (d : Dialect) (t : EntityType) (b : Build) (s : Statement) : Prop :=
  ∃ ss, t.Answers (b.statements d t) (.ok ss) ∧ s ∈ ss

/-- Asking for a reader keeps a catalog serving the type. -/
theorem serves_ofColumns (t : EntityType) (columns : List String) (c : Catalog) (hc : c.Serves t) :
    ((Reader.ofColumns t columns).runFrom c).2.Serves t := by
  obtain ⟨r, hr⟩ : ∃ r, t.Answers (Reader.ofColumns t columns) r := by
    cases hm : Metadata.ofMapping t.mapping with
    | ok m => exact ⟨_, Reader.ofColumns_answers hm columns⟩
    | error e =>
      exact ⟨_, EntityType.answers_bind (g := fun _ => .error e) (EntityType.metadata_answers t)
        (by simp [hm])⟩
  exact (hr c hc).2 t (fun _ => rfl) hc

section Built

variable {b : Build} {s : Statement}

/-- A built statement is handed over as it is prepared. -/
theorem HandedFor.whole (h : given s) : HandedFor g.dialect given (prepare g.dialect s) :=
  ⟨s, s, h, .whole, rfl⟩

/-- An operation that builds one statement hands over what follows. -/
private theorem hands_of_statement (b : Build) {f : Dialect → CatalogM Statement}
    {k : Statement → Operation (σ × List CallRecord) α}
    (hf : ∀ d, b.statements d t = do return [← f d])
    (hk : ∀ q, BuiltBy g.dialect t b q → (k q).Hands g o (·.Serves t) P R) :
    (build f >>= k).Hands g o (·.Serves t) P R :=
  (offline_statement b hf).hands.bind fun q hq => hk q ⟨[q], hq, List.mem_singleton_self q⟩

/-- An operation on several instances hands over the statements of its batch. -/
private theorem hands_of_batch (operation : String) (b : Nat → Build) :
    (batchSize >>= fun size => build (fun d => (b size).statements d t) >>=
      runBatch operation t.name : Operation (σ × List CallRecord) Nat).Hands g o (·.Serves t)
        (HandedFor g.dialect (BuiltBy g.dialect t (b o.batchSize))) fun _ => True := by
  refine Hands.bind (R := (· = o.batchSize)) (Offline.hands fun _ hst => ⟨hst, rfl, ?_⟩)
    fun size hsize => ?_
  · rintro _ ⟨⟩
    rfl
  · subst hsize
    exact (offline_statements (b o.batchSize)).hands.bind fun qs hqs =>
      hands_runBatch _ _ fun q hq => .whole ⟨qs, hqs, hq⟩

/-- Inserting an instance hands over its insertion. -/
private theorem hands_insert (x : Instance) :
    (insert t x).Hands g o (·.Serves t)
      (HandedFor g.dialect (BuiltBy g.dialect t (.insert x))) fun _ => True := by
  refine (offline_ask (EntityType.metadata_answers t)).hands.bind fun m _ => ?_
  refine hands_of_statement (.insert x) (fun _ => rfl) fun q hq => ?_
  split
  · exact (hands_scalarValue _ _ (.whole hq)).bind fun _ _ => hands_pure trivial
  · exact (hands_execute _ _ (.whole hq)).bind fun _ _ => hands_pure trivial

/-- Writing the generated key back hands nothing more over. -/
private theorem hands_insertAssign (x : Instance) :
    (insertAssign t x).Hands g o (·.Serves t)
      (HandedFor g.dialect (BuiltBy g.dialect t (.insert x))) fun _ => True := by
  refine (hands_insert x).bind fun inserted _ => ?_
  refine (offline_ask (EntityType.metadata_answers t)).hands.bind fun m _ => ?_
  split
  · split
    · exact hands_pure trivial
    · exact (offline_ask (EntityType.accessor_answers t _)).hands.bind fun _ _ =>
        (hands_lift _).bind fun _ _ => hands_pure trivial
  · exact hands_pure trivial

/-- Reading a page of a query hands over queries for a page of it. -/
private theorem hands_selectPage (c : Option Condition) (order : Option (List SortKey))
    (index size : Int) : (selectPage t c order index size).Hands g o (·.Serves t)
      (HandedFor g.dialect (BuiltBy g.dialect t (.select c none))) fun _ => True := by
  refine (offline_selectOrdered c order).hands.bind fun query hquery => ?_
  have hbuilt : BuiltBy g.dialect t (.select c none) query.1 :=
    ⟨[query.1], hquery, List.mem_singleton_self _⟩
  refine (hands_window _ _ index size ⟨query.1, _, hbuilt, .count, rfl⟩).bind fun w _ => ?_
  split
  · exact hands_pure trivial
  · refine (hands_pageRows query.1 query.2 w).bind fun q hq => ?_
    subst hq
    exact (hands_instances (serves_ofColumns t) _ ⟨query.1, _, hbuilt, .rows query.2 w, rfl⟩).bind
      fun _ _ => hands_pure trivial

/-- The operations on an entity type hand over what they have built. -/
theorem HandsBuilt.hands {x : Operation (σ × List CallRecord) α}
    (h : HandsBuilt t o.batchSize b x) : x.Hands g o (·.Serves t)
      (HandedFor g.dialect (BuiltBy g.dialect t b)) fun _ => True := by
  cases h with
  | insert x => exact hands_insert x
  | insertAssign x => exact hands_insertAssign x
  | insertBatch xs => exact hands_of_batch "insert_batch" (.insertBatch xs)
  | updateBatch xs => exact hands_of_batch "update_batch" (.updateBatch xs)
  | deleteBatch xs => exact hands_of_batch "delete_batch" (.deleteBatch xs)
  | update | updateWhere | updateSet | updateFields | updateIgnoring | delete | deleteWhere =>
    exact hands_of_statement _ (fun _ => rfl) fun q hq => hands_execute _ _ (.whole hq)
  | selectWhere c order =>
    exact hands_of_statement (.select c order) (fun _ => rfl) fun q hq =>
      hands_instances (serves_ofColumns t) _ (.whole hq)
  | first c order =>
    refine (offline_selectOrdered c order).hands.bind fun query hquery => ?_
    refine (hands_pageRows query.1 query.2 _).bind fun q hq => ?_
    subst hq
    have hbuilt : BuiltBy g.dialect t (.select c none) query.1 :=
      ⟨[query.1], hquery, List.mem_singleton_self _⟩
    exact (hands_instances (serves_ofColumns t) _ ⟨query.1, _, hbuilt, .rows query.2 _, rfl⟩).bind
      fun _ _ => hands_pure trivial
  | selectFields c p target =>
    exact hands_of_statement (.selectProjection c p .rows) (fun _ => rfl) fun q hq =>
      (hands_rows _ _ (.whole hq)).bind fun result _ => hands_mapM_lift _ result.2
  | selectDynamic c p k =>
    exact hands_of_statement (.selectProjection c p k) (fun _ => rfl) fun q hq =>
      (hands_rows _ _ (.whole hq)).bind fun _ _ => hands_pure trivial
  | selectAggregate c p k target =>
    exact hands_of_statement (.selectProjection c p k) (fun _ => rfl) fun q hq =>
      (hands_scalarValue _ _ (.whole hq)).bind fun _ _ => hands_lift _
  | selectPage c order index size => exact hands_selectPage c order index size
  | count c =>
    exact hands_of_statement (.count c) (fun _ => rfl) fun q hq =>
      (hands_scalarValue _ _ (.whole hq)).bind fun _ _ => hands_lift _
  | hasRows c =>
    exact hands_of_statement (.count c) (fun _ => rfl) fun q hq =>
      (hands_scalarValue _ _ (.whole hq)).bind fun _ _ =>
        (hands_lift _).bind fun _ _ => hands_pure trivial

/-- The operations on plain SQL hand over what they are given, whatever the catalog is. -/
theorem HandsPlain.hands {x : Operation (σ × List CallRecord) α} (h : HandsPlain s x) :
    x.Hands g o (fun _ => True) (HandedFor g.dialect (· = s)) fun _ => True := by
  have hwhole : HandedFor g.dialect (· = s) (prepare g.dialect s) := .whole rfl
  cases h with
  | executeSql => exact hands_execute _ _ hwhole
  | queryRows => exact (hands_rows _ _ hwhole).bind fun _ _ => hands_pure trivial
  | queryInstances => exact hands_instances (fun _ _ _ => trivial) _ hwhole
  | queryScalar => exact (hands_scalarValue _ _ hwhole).bind fun _ _ => hands_lift _
  | queryPage _ order index size =>
    refine (hands_window _ _ index size ⟨s, _, rfl, .count, rfl⟩).bind fun w _ => ?_
    split
    · exact hands_pure trivial
    · refine (hands_pageRows s order w).bind fun q hq => ?_
      subst hq
      exact (hands_rows _ _ ⟨s, _, rfl, .rows order w, rfl⟩).bind fun _ _ => hands_pure trivial

end Built

/-- Parameters are final once they are bound. What an operation on an entity type hands over is a
statement that it has built, or a query for a page of one, and preparing it changes nothing: it has
just the parameters that were built. What an operation on plain SQL hands over has the parameters of
the SQL but for truth values on an engine without them, which become numbers; it is prepared for
good, as is everything that was prepared. Expressions that are translated by themselves have
parameters that are final as well. No statement hands a truth value to an engine that has none. -/
theorem parameters_final_once_built (g : Gateway σ) (o : Options) (st : SessionState σ) :
    (∀ {α : Type} (t : EntityType) (b : Build) (x : Operation (σ × List CallRecord) α),
      st.catalog.Serves t → HandsBuilt t o.batchSize b x → ∀ q ∈ x.handed g o st,
        (∃ s s', BuiltBy g.dialect t b s ∧ s.PageOf g.dialect s' ∧
          q = prepare g.dialect s' ∧ prepare g.dialect s' = s' ∧ q.parameters = s.parameters) ∧
        q.Encoded g.dialect) ∧
    (∀ {α : Type} (s : Statement) (x : Operation (σ × List CallRecord) α),
      HandsPlain s x → ∀ q ∈ x.handed g o st,
        (∃ s', s.PageOf g.dialect s' ∧ q = prepare g.dialect s') ∧
        List.Forall₂ (Parameter.Passes g.dialect) s.parameters q.parameters ∧
        q.Encoded g.dialect) ∧
    (∀ s, prepare g.dialect (prepare g.dialect s) = prepare g.dialect s) ∧
    ∀ (w : Surroundings) (reserved : List String) (es : List Expression) (text : String),
      w.dialect = g.dialect →
        prepare g.dialect ⟨text, (w.after (Binder.avoiding reserved) es).parameters⟩ =
          ⟨text, (w.after (Binder.avoiding reserved) es).parameters⟩ := by
  refine ⟨fun t b x hst hx q hq => ?_, fun s x hx q hq => ?_, prepare_prepare g.dialect,
    fun w reserved es text hdialect => ?_⟩
  · obtain ⟨s, s', hs, hpage, rfl⟩ := hx.hands.handed hst q hq
    obtain ⟨ss, hss, hmem⟩ := hs
    have hbound : s'.IsBound g.dialect := by
      intro p hp
      rw [hpage.parameters_eq] at hp
      exact Build.isBound_of_answers hss s hmem p hp
    have hsame := prepare_eq_of_isBound hbound
    refine ⟨⟨s, s', ⟨ss, hss, hmem⟩, hpage, rfl, hsame, ?_⟩, encoded_prepare g.dialect s'⟩
    rw [hsame, hpage.parameters_eq]
  · obtain ⟨_, s', rfl, hpage, rfl⟩ := hx.hands.handed trivial q hq
    refine ⟨⟨s', hpage, rfl⟩, ?_, encoded_prepare g.dialect s'⟩
    rw [← hpage.parameters_eq]
    exact passes_prepare g.dialect s'
  · rw [← hdialect]
    exact prepare_eq_of_isBound (w.isBound_after reserved es)

end Session

/-- An entity type for examples: its member holds truth values. -/
def EntityType.tasks : EntityType :=
  ⟨"Task", ⟨"Task", "TASKS", [⟨"done", "DONE", .column, .required .bool⟩]⟩⟩

open Session in
/-- On SQLite a task that is done is inserted with the number one, which is declared as a number and
final. A truth value of plain SQL becomes the number as well, but keeps its declaration. -/
theorem Session.parameters_final_once_built_tasks :
    Catalog.empty.Serves .tasks ∧
      HandsBuilt .tasks Options.default.batchSize (.insert ⟨[.bool true]⟩)
        (insert .tasks ⟨[.bool true]⟩ : Operation (Script × List CallRecord) Inserted) ∧
      (insert .tasks ⟨[.bool true]⟩).handed (Script.gateway .sqlite) .default
          ⟨Script.empty, .empty⟩ =
        [⟨"INSERT INTO TASKS (DONE) VALUES (@done)", [⟨"done", .int32 1, some .int32⟩]⟩] ∧
      prepare .sqlite ⟨"INSERT INTO TASKS (DONE) VALUES (@done)",
          [⟨"done", .int32 1, some .int32⟩]⟩ =
        ⟨"INSERT INTO TASKS (DONE) VALUES (@done)", [⟨"done", .int32 1, some .int32⟩]⟩ ∧
      (executeSql ⟨"UPDATE TASKS SET DONE = @done", [⟨"done", .bool true, some .boolean⟩]⟩).handed
          (Script.gateway .sqlite) .default ⟨Script.empty, .empty⟩ =
        [⟨"UPDATE TASKS SET DONE = @done", [⟨"done", .int32 1, some .boolean⟩]⟩] ∧
      Statement.Encoded .sqlite
        ⟨"UPDATE TASKS SET DONE = @done", [⟨"done", .int32 1, some .boolean⟩]⟩ := by
  obtain ⟨hbuilt, hplain, -⟩ := parameters_final_once_built (Script.gateway .sqlite) .default
    ⟨Script.empty, .empty⟩
  have hserves := Catalog.serves_empty .tasks
  have hinsert : HandsBuilt .tasks Options.default.batchSize (.insert ⟨[.bool true]⟩)
      (insert .tasks ⟨[.bool true]⟩ : Operation (Script × List CallRecord) Inserted) :=
    .insert ⟨[.bool true]⟩
  have hinserted : (insert .tasks ⟨[.bool true]⟩).handed (Script.gateway .sqlite) .default
      ⟨Script.empty, .empty⟩ =
        [⟨"INSERT INTO TASKS (DONE) VALUES (@done)", [⟨"done", .int32 1, some .int32⟩]⟩] := rfl
  have hupdated : (executeSql ⟨"UPDATE TASKS SET DONE = @done",
      [⟨"done", .bool true, some .boolean⟩]⟩).handed (Script.gateway .sqlite) .default
        ⟨Script.empty, .empty⟩ =
          [⟨"UPDATE TASKS SET DONE = @done", [⟨"done", .int32 1, some .boolean⟩]⟩] := rfl
  refine ⟨hserves, hinsert, hinserted, ?_, hupdated, ?_⟩
  · obtain ⟨⟨_, s', -, -, hprepared, -, -⟩, -⟩ := hbuilt .tasks _ _ hserves hinsert
      ⟨"INSERT INTO TASKS (DONE) VALUES (@done)", [⟨"done", .int32 1, some .int32⟩]⟩
      (hinserted ▸ List.mem_singleton_self _)
    exact (congrArg (prepare .sqlite) hprepared).trans
      ((prepare_prepare .sqlite s').trans hprepared.symm)
  · obtain ⟨-, -, hencoded⟩ := hplain _ _ (.executeSql _)
      ⟨"UPDATE TASKS SET DONE = @done", [⟨"done", .int32 1, some .boolean⟩]⟩
      (hupdated ▸ List.mem_singleton_self _)
    exact hencoded

end EntitySql
