import EntitySql.Proofs.Result.Columns
import EntitySql.Proofs.Session.Runs
import EntitySql.Proofs.Statement.Located

/-!
# Faults before any call

What is wrong with a mapping, a missing key, a missing condition and an expression
without text can all be told without the database. Almost every operation tells them
before it calls the gateway for the first time. Reading plain SQL as instances does not:
it asks for the metadata of an invalid type only after the query.
-/

namespace EntitySql

/-- Whether a fault can be told without the database. -/
def Fault.isStatic : Fault → Bool
  | .mapping .. => true
  | .keyRequired .. => true
  | .conditionRequired .. => true
  | .expression .. => true
  | _ => false

variable {σ α β : Type} {s : Session σ} {t : EntityType}

namespace Operation

/-- What holds of every run of an operation from a state whose catalog serves an entity type: of the
connection before it, its result and the connection after it. The catalog goes on serving the
type. -/
def Ends (s : Session σ) (t : EntityType) (post : σ → Except Fault α → σ → Prop)
    (x : Operation σ α) : Prop :=
  ∀ st, st.catalog.Serves t → (x.runFrom s st).2.catalog.Serves t ∧
    post st.connection (x.runFrom s st).1 (x.runFrom s st).2.connection

/-- The operation makes no call, and its result is one of some. -/
def Offline (s : Session σ) (t : EntityType) (R : α → Prop) : Operation σ α → Prop :=
  Ends s t fun before r after => after = before ∧ ∀ a, r = .ok a → R a

/-- The operation tells static faults before it makes a call, and its result is one of some. -/
def Early (s : Session σ) (t : EntityType) (R : α → Prop) : Operation σ α → Prop :=
  Ends s t fun before r after =>
    (∀ e, r = .error e → e.isStatic = true → after = before) ∧ ∀ a, r = .ok a → R a

/-- The operation has no static faults, and its result is one of some. -/
def Late (s : Session σ) (t : EntityType) (R : α → Prop) : Operation σ α → Prop :=
  Ends s t fun _ r _ => (∀ e, r = .error e → e.isStatic = false) ∧ ∀ a, r = .ok a → R a

/-- What holds of two operations in a row follows from what holds of each. -/
theorem Ends.bind {post : σ → Except Fault α → σ → Prop} {post' : σ → Except Fault β → σ → Prop}
    {x : Operation σ α} {f : α → Operation σ β} (hx : x.Ends s t post)
    (herror : ∀ before e after, post before (.error e) after → post' before (.error e) after)
    (hok : ∀ before a between, post before (.ok a) between →
      (f a).Ends s t fun start r after => start = between → post' before r after) :
    (x >>= f).Ends s t post' := by
  intro st hst
  obtain ⟨hserves, hpost⟩ := hx st hst
  rcases hrun : x.runFrom s st with ⟨e | a, st'⟩
  · rw [hrun] at hserves hpost
    rw [runFrom_bind_error hrun]
    exact ⟨hserves, herror _ _ _ hpost⟩
  · rw [hrun] at hserves hpost
    rw [runFrom_bind_ok hrun]
    obtain ⟨hserves', hpost'⟩ := hok _ _ _ hpost st' hserves
    exact ⟨hserves', hpost' rfl⟩

/-- What holds of every run may be weakened. -/
theorem Ends.mono {post post' : σ → Except Fault α → σ → Prop} {x : Operation σ α}
    (hx : x.Ends s t post) (h : ∀ before r after, post before r after → post' before r after) :
    x.Ends s t post' := fun st hst => ⟨(hx st hst).1, h _ _ _ (hx st hst).2⟩

variable {R : α → Prop} {R' : β → Prop} {x : Operation σ α} {f : α → Operation σ β}

/-- Without static faults, all of them come before any call. -/
theorem Late.early (hx : x.Late s t R) : x.Early s t R := by
  refine hx.mono fun before r after h => ⟨fun e he hstatic => ?_, h.2⟩
  rw [h.1 e he] at hstatic
  cases hstatic

/-- After an operation without a call, static faults still come before any call. -/
theorem Offline.bind_early (hx : x.Offline s t R) (hf : ∀ a, R a → (f a).Early s t R') :
    (x >>= f).Early s t R' := by
  refine Ends.bind hx (fun before e after h => ⟨fun _ _ _ => h.1, nofun⟩)
    fun before a between h => ?_
  obtain ⟨rfl, hR⟩ := h
  exact (hf a (hR a rfl)).mono fun start r after h hstart => hstart ▸ h

/-- Static faults that come before any call do so whatever follows without static faults. -/
theorem Early.bind_late (hx : x.Early s t R) (hf : ∀ a, R a → (f a).Late s t R') :
    (x >>= f).Early s t R' := by
  refine Ends.bind hx (fun before e after h => ⟨?_, nofun⟩) fun before a between h => ?_
  · rintro _ ⟨⟩
    exact h.1 e rfl
  · refine (hf a (h.2 a rfl)).mono fun start r after hlate _ => ⟨fun e he hstatic => ?_, hlate.2⟩
    rw [hlate.1 e he] at hstatic
    cases hstatic

/-- Two operations without static faults. -/
theorem Late.bind (hx : x.Late s t R) (hf : ∀ a, R a → (f a).Late s t R') :
    (x >>= f).Late s t R' := by
  refine Ends.bind hx (fun before e after h => ⟨?_, nofun⟩) fun before a between h => ?_
  · rintro _ ⟨⟩
    exact h.1 e rfl
  · exact (hf a (h.2 a rfl)).mono fun start r after h _ => h

/-- What is known of a result may be weakened. -/
theorem Offline.weaken {R' : α → Prop} (hx : x.Offline s t R) (h : ∀ a, R a → R' a) :
    x.Offline s t R' :=
  Ends.mono hx fun _ _ _ hpost => ⟨hpost.1, fun a ha => h a (hpost.2 a ha)⟩

/-- What is known of a result may be weakened. -/
theorem Late.weaken {R' : α → Prop} (hx : x.Late s t R) (h : ∀ a, R a → R' a) : x.Late s t R' :=
  Ends.mono hx fun _ _ _ hpost => ⟨hpost.1, fun a ha => h a (hpost.2 a ha)⟩

/-- What is known of a result may be forgotten. -/
theorem Late.forget (hx : x.Late s t R) : x.Late s t fun _ => True :=
  hx.weaken fun _ _ => trivial

/-- A result without a call. -/
theorem late_pure {a : α} (h : R a) : (pure a : Operation σ α).Late s t R :=
  fun _ hst => ⟨hst, nofun, fun a' ha => by cases ha; exact h⟩

/-- A fault that is not static. -/
theorem late_throw {e : Fault} (h : e.isStatic = false) : (throw e : Operation σ α).Late s t R :=
  fun _ hst => ⟨hst, fun e' he => by cases he; exact h, nofun⟩

/-- A result that is found without a call, or a fault that is not static. -/
theorem late_lift {r : Except Fault α} (h : ∀ e, r = .error e → e.isStatic = false) :
    (liftM r : Operation σ α).Late s t fun a => r = .ok a :=
  fun _ hst => ⟨hst, h, fun _ ha => ha⟩

/-- The session itself. -/
theorem late_read : (read : Operation σ (Session σ)).Late s t (· = s) :=
  fun _ hst => ⟨hst, nofun, fun a ha => by cases ha; rfl⟩

/-- Asking a catalog that serves a type. -/
theorem offline_ask {q : CatalogM α} {r : Except Fault α} (h : t.Answers q r) :
    (Session.ask q : Operation σ α).Offline s t fun a => r = .ok a := by
  intro st hst
  obtain ⟨hresult, hserves⟩ := h st.catalog hst
  rw [runFrom_ask]
  exact ⟨hserves t (fun _ => rfl) hst, rfl, fun a ha => hresult ▸ ha⟩

/-- Building for the engine of the session. -/
theorem offline_build {f : Dialect → CatalogM α} {r : Except Fault α}
    (h : t.Answers (f s.gateway.dialect) r) :
    (Session.build f : Operation σ α).Offline s t fun a => r = .ok a := by
  intro st hst
  rw [runFrom_build]
  exact offline_ask h st hst

/-- Asking a catalog that serves a type for something that is found. -/
theorem late_ask {q : CatalogM α} {a : α} (h : t.Answers q (.ok a)) :
    (Session.ask q : Operation σ α).Late s t (· = a) := by
  intro st hst
  obtain ⟨hresult, hserves⟩ := h st.catalog hst
  rw [runFrom_ask, hresult]
  exact ⟨hserves t (fun _ => rfl) hst, nofun, fun a' ha => by cases ha; rfl⟩

/-- A call of the gateway fails with the fault of the gateway only. -/
theorem late_call (operation entity : String) (c : Gateway σ → Call σ α) :
    (Session.call operation entity c).Late s t fun _ => True := by
  intro st hst
  refine ⟨?_, fun e he => ?_, fun _ _ => trivial⟩
  · rw [runFrom_call]
    exact hst
  · obtain ⟨message, -, rfl⟩ := runFrom_call_eq_error_iff.mp he
    rfl

/-- An attempt has no fault of its own. -/
theorem Late.attempt (hx : x.Late s t R) : (Session.attempt x).Late s t fun r =>
    (∀ e, r = .error e → e.isStatic = false) ∧ ∀ a, r = .ok a → R a := by
  intro st hst
  obtain ⟨hserves, hfaults, hR⟩ := hx st hst
  rw [runFrom_attempt]
  refine ⟨hserves, nofun, fun r hr => ?_⟩
  cases hr
  exact ⟨hfaults, hR⟩

/-- An operation whose result is dropped. -/
theorem Late.discard (hx : x.Late s t R) : (discard x).Late s t fun _ => True := by
  intro st hst
  obtain ⟨hserves, hfaults, -⟩ := hx st hst
  rw [runFrom_discard]
  exact ⟨hserves, fun e he => hfaults e (map_eq_error_iff.mp he), fun _ _ => trivial⟩

/-- The same step for each of several items. -/
theorem Late.mapM {γ : Type} {g : γ → Operation σ α} (h : ∀ c, (g c).Late s t fun _ => True)
    (cs : List γ) : (cs.mapM g).Late s t fun _ => True := by
  induction cs with
  | nil => exact late_pure trivial
  | cons c cs ih =>
    rw [List.mapM_cons]
    exact (h c).bind fun a _ => ih.bind fun as _ => late_pure trivial

end Operation

/-- That a value is no scalar of a type is no static fault. -/
theorem ScalarType.isStatic_of_read {target : ScalarType} {v : Value} {e : Fault}
    (h : target.read v = .error e) : e.isStatic = false := by
  unfold read at h
  split at h <;> split at h <;> cases h <;> rfl

/-- That a value cannot be read is no static fault. -/
theorem ReadType.isStatic_of_read {target : ReadType} {v : Value} {e : Fault}
    (h : target.read v = .error e) : e.isStatic = false := by
  unfold read at h
  split at h
  · exact ScalarType.isStatic_of_read h
  · cases h
  · exact ScalarType.isStatic_of_read (map_eq_error_iff.mp h)

/-- That a value does not fit a member is no static fault. -/
theorem Accessor.isStatic_of_set {a : Accessor} {x : Instance} {v : Value} {e : Fault}
    (h : a.set x v = .error e) : e.isStatic = false :=
  ReadType.isStatic_of_read (map_eq_error_iff.mp (map_eq_error_iff.mp h))

/-- That the values of a row do not fit an instance is no static fault. -/
theorem isStatic_of_fill {x : Instance} {pairs : List (Option Accessor × Value)} {e : Fault}
    (h : fill x pairs = .error e) : e.isStatic = false := by
  induction pairs generalizing x with
  | nil => cases h
  | cons pair rest ih =>
    obtain ⟨slot, v⟩ := pair
    cases slot with
    | none => exact ih h
    | some a =>
      unfold fill at h
      split at h
      · exact ih h
      · split at h
        · exact ih h
        · rename_i hset
          cases h
          exact Accessor.isStatic_of_set hset

/-- What has one result in a list has one by itself. -/
theorem EntityType.exists_answers_of_list {q : CatalogM α} {r : Except Fault (List α)}
    (h : t.Answers (do return [← q]) r) : ∃ r', t.Answers q r' ∧ r = r'.map fun a => [a] := by
  have hlist (c : Catalog) : (do return [← q] : CatalogM (List α)).runFrom c =
      ((q.runFrom c).1.map fun a => [a], (q.runFrom c).2) := by
    rw [CatalogM.runFrom_bind]
    rcases q.runFrom c with ⟨e | a, c'⟩ <;> rfl
  have hinjective {r₁ r₂ : Except Fault α}
      (h : (r₁.map fun a => [a]) = r₂.map fun a => [a]) : r₁ = r₂ := by
    cases r₁ <;> cases r₂ <;> simp_all [Except.map]
  have hempty := (h .empty (Catalog.serves_empty t)).1
  rw [hlist] at hempty
  refine ⟨(q.runFrom .empty).1, fun c hc => ?_, hempty.symm⟩
  obtain ⟨hresult, hserves⟩ := h c hc
  rw [hlist] at hresult hserves
  exact ⟨hinjective (hresult.trans hempty.symm), hserves⟩

namespace Session

open Operation

/-- Building the statements of a batch makes no call, and gives what they are. -/
theorem offline_statements (b : Build) :
    (build fun d => b.statements d t).Offline s t fun qs =>
      t.Answers (b.statements s.gateway.dialect t) (.ok qs) := by
  obtain ⟨r, hr, -⟩ := b.exists_answers s.gateway.dialect t
  exact (offline_build hr).weaken fun qs hqs => hr.congr hqs

/-- Building the statement of an operation makes no call, and gives what it is. -/
theorem offline_statement (b : Build) {f : Dialect → CatalogM Statement}
    (hf : ∀ d, b.statements d t = do return [← f d]) :
    (build f).Offline s t fun q => t.Answers (b.statements s.gateway.dialect t) (.ok [q]) := by
  obtain ⟨r, hr, -⟩ := b.exists_answers s.gateway.dialect t
  rw [hf] at hr ⊢
  obtain ⟨r', hr', rfl⟩ := EntityType.exists_answers_of_list hr
  exact (offline_build hr').weaken fun q hq => hr.congr (by rw [hq]; rfl)

/-- Building a query and its order makes no call, and gives what the query is. -/
theorem offline_selectOrdered (c : Option Condition) (order : Option (List SortKey)) :
    (selectOrdered t c order).Offline s t fun query =>
      t.Answers ((Build.select c none).statements s.gateway.dialect t) (.ok [query.1]) := by
  obtain ⟨r, hr, hvalid⟩ := (Build.select c none).exists_answers s.gateway.dialect t
  obtain ⟨r', hr', rfl⟩ := EntityType.exists_answers_of_list hr
  cases r' with
  | error e =>
    refine (offline_build (EntityType.answers_bind (g := fun _ => .error e) hr' nofun)).weaken ?_
    nofun
  | ok q =>
    obtain ⟨m, hm⟩ := hvalid [q] rfl
    have horder := Build.answers_orderText? hm (d := s.gateway.dialect) order
    refine (offline_build (EntityType.answers_bind hr' fun inner _ => EntityType.answers_bind horder
      fun keys _ => EntityType.answers_pure (inner, keys))).weaken fun query hquery => hr.congr ?_
    obtain ⟨inner, hinner, hquery⟩ := bind_eq_ok_iff.mp hquery
    obtain ⟨keys, -, hquery⟩ := bind_eq_ok_iff.mp hquery
    cases hinner
    cases hquery
    rfl

/-- Running a statement. -/
theorem late_execute (operation entity : String) (q : Statement) :
    (execute operation entity q).Late s t fun _ => True :=
  late_read.bind fun _ _ => late_call operation entity _

/-- Running a query for one value. -/
theorem late_scalarValue (operation entity : String) (q : Statement) :
    (scalarValue operation entity q).Late s t fun _ => True :=
  late_read.bind fun _ _ => late_call operation entity _

/-- Running a query for its rows. -/
theorem late_rows (operation entity : String) (q : Statement) :
    (rows operation entity q).Late s t fun _ => True := by
  refine late_read.bind fun _ _ => (late_call operation entity _).bind fun result _ => ?_
  split
  · exact late_pure trivial
  · exact late_throw rfl

/-- Reading rows as instances of a valid type. -/
theorem late_instances {m : Metadata} (hm : Metadata.ofMapping t.mapping = .ok m)
    (operation : String) (q : Statement) :
    (instances operation t q).Late s t fun _ => True := by
  refine (late_rows operation t.name q).bind fun result _ => ?_
  refine (late_ask (Reader.ofColumns_answers hm result.1)).bind fun reader _ => ?_
  exact Late.mapM (fun row => (late_lift fun e he => isStatic_of_fill he).forget) result.2

/-- Whether a transaction is open. -/
theorem late_inTransaction : (inTransaction : Operation σ Bool).Late s t fun _ => True :=
  fun _ hst => ⟨hst, nofun, fun _ _ => trivial⟩

/-- Opening a transaction. -/
theorem late_start (isolation : Option Isolation) :
    (start isolation : Operation σ Unit).Late s t fun _ => True := by
  intro st hst
  rw [runFrom_start]
  split
  · exact late_throw (s := s) rfl st hst
  · exact late_call _ _ _ st hst

/-- Keeping the changes of a transaction. -/
theorem late_commit : (commit : Operation σ Unit).Late s t fun _ => True := by
  intro st hst
  rw [runFrom_commit]
  split
  · exact late_call _ _ _ st hst
  · exact late_throw (s := s) rfl st hst

/-- Dropping the changes of a transaction. -/
theorem late_rollback : (rollback : Operation σ Unit).Late s t fun _ => True := by
  intro st hst
  rw [runFrom_rollback]
  split
  · exact late_call _ _ _ st hst
  · exact late_throw (s := s) rfl st hst

/-- Running statements one after the other. -/
theorem late_executeAll (operation entity : String) (qs : List Statement) :
    (executeAll operation entity qs).Late s t fun _ => True := by
  induction qs with
  | nil => exact late_pure trivial
  | cons q qs ih =>
    exact (late_execute operation entity q).bind fun _ _ => ih.bind fun _ _ => late_pure trivial

/-- Running the statements of a batch. -/
theorem late_runBatch (operation entity : String) (qs : List Statement) :
    (runBatch operation entity qs).Late s t fun _ => True := by
  refine late_read.bind fun _ _ => late_inTransaction.bind fun isOpen _ => ?_
  dsimp only
  split
  · refine (late_start none).bind fun _ _ => ?_
    refine (late_executeAll operation entity qs).attempt.bind fun r hr => ?_
    cases r with
    | ok written => exact late_commit.bind fun _ _ => late_pure trivial
    | error e =>
      exact late_rollback.attempt.discard.bind fun _ _ => late_throw (hr.1 e rfl)
  · exact late_executeAll operation entity qs

/-- Counting the rows of a query. -/
theorem late_countOf (v : Option Value) :
    (liftM (countOf v) : Operation σ Nat).Late s t fun _ => True :=
  (late_lift fun _ he => ReadType.isStatic_of_read (map_eq_error_iff.mp he)).forget

/-- Reading a value that may be missing. -/
theorem late_readMissing (target : ReadType) (v : Option Value) :
    (liftM (target.readMissing v) : Operation σ target.Carrier).Late s t fun _ => True :=
  (late_lift fun _ he => ReadType.isStatic_of_read he).forget

/-- Finding a page among the rows of a query. -/
theorem late_window (operation entity : String) (inner : Statement) (index size : Int) :
    (window operation entity inner index size).Late s t fun _ => True :=
  (late_scalarValue operation entity inner.pageCount).bind fun v _ => (late_countOf v).bind
    fun _ _ => late_read.bind fun _ _ => late_pure trivial

/-- Restricting a query to a page. -/
theorem late_pageRows (inner : Statement) (order : Option String) (w : Window) :
    (pageRows inner order w).Late s t fun _ => True :=
  late_read.bind fun _ _ => late_pure trivial

/-- The size of a batch. -/
theorem offline_batchSize : (batchSize : Operation σ Nat).Offline s t fun _ => True :=
  fun _ hst => ⟨hst, rfl, fun _ _ => trivial⟩

/-- The operations of a session on an entity type and on plain SQL, except for reading plain SQL as
instances. -/
inductive Offers (t : EntityType) : {α : Type} → Operation σ α → Prop
  | insert (x : Instance) : Offers t (insert t x)
  | insertAssign (x : Instance) : Offers t (insertAssign t x)
  | insertBatch (xs : List Instance) : Offers t (insertBatch t xs)
  | update (x : Instance) : Offers t (update t x)
  | updateWhere (x : Instance) (c : Option Condition) : Offers t (updateWhere t x c)
  | updateSet (as : List Assignment) (c : Option Condition) : Offers t (updateSet t as c)
  | updateFields (x : Instance) (names : List String) (c : Option Condition) :
      Offers t (updateFields t x names c)
  | updateIgnoring (x : Instance) (ignored : List String) (c : Option Condition) :
      Offers t (updateIgnoring t x ignored c)
  | updateBatch (xs : List Instance) : Offers t (updateBatch t xs)
  | delete (x : Instance) : Offers t (delete t x)
  | deleteWhere (c : Option Condition) : Offers t (deleteWhere t c)
  | deleteBatch (xs : List Instance) : Offers t (deleteBatch t xs)
  | selectWhere (c : Option Condition) (order : Option (List SortKey)) :
      Offers t (selectWhere t c order)
  | first (c : Option Condition) (order : Option (List SortKey)) : Offers t (first t c order)
  | selectFields (c : Option Condition) (p : Projection) (target : ReadType) :
      Offers t (selectFields t c p target)
  | selectDynamic (c : Option Condition) (p : Projection) (k : SelectKind) :
      Offers t (selectDynamic t c p k)
  | selectAggregate (c : Option Condition) (p : Projection) (k : SelectKind) (target : ReadType) :
      Offers t (selectAggregate t c p k target)
  | selectPage (c : Option Condition) (order : Option (List SortKey)) (index size : Int) :
      Offers t (selectPage t c order index size)
  | count (c : Option Condition) : Offers t (count t c)
  | hasRows (c : Option Condition) : Offers t (hasRows t c)
  | executeSql (q : Statement) : Offers t (executeSql q)
  | queryRows (q : Statement) : Offers t (queryRows q)
  | queryScalar (q : Statement) (target : ReadType) : Offers t (queryScalar q target)
  | queryPage (q : Statement) (order : Option String) (index size : Int) :
      Offers t (queryPage q order index size)

/-- Inserting an instance; it fails on an invalid type. -/
theorem early_insert (x : Instance) :
    (insert t x : Operation σ Inserted).Early s t fun _ =>
      ∃ m, Metadata.ofMapping t.mapping = .ok m := by
  refine (offline_ask (EntityType.metadata_answers t)).bind_early fun m hm => ?_
  refine (offline_statement (.insert x) fun _ => rfl).bind_early fun q _ => Late.early ?_
  split
  · exact (late_scalarValue _ _ q).bind fun _ _ => late_pure ⟨m, hm⟩
  · exact (late_execute _ _ q).bind fun _ _ => late_pure ⟨m, hm⟩

/-- Inserting an instance and writing the generated key back. -/
theorem early_insertAssign (x : Instance) :
    (insertAssign t x : Operation σ (Inserted × Instance)).Early s t fun _ => True := by
  refine (early_insert x).bind_late fun inserted hvalid => ?_
  obtain ⟨m, hm⟩ := hvalid
  have hmetadata := EntityType.metadata_answers t
  rw [hm] at hmetadata
  refine (late_ask hmetadata).bind fun m' hm' => ?_
  subst hm'
  split
  · rename_i key member hkey
    split
    · exact late_pure trivial
    · have hmember : member ∈ t.mapping.members :=
        Metadata.mem_mapping_of_mem hm (List.mem_of_find?_eq_some hkey)
      obtain ⟨a, ha⟩ := EntityType.exists_accessor? hmember
      have haccessor := EntityType.accessor_answers t member.name
      rw [Mapping.accessor, ha] at haccessor
      refine (late_ask haccessor).bind fun a' _ => ?_
      exact (late_lift fun _ he => Accessor.isStatic_of_set he).bind fun _ _ => late_pure trivial
  · exact late_pure trivial

/-- Reading pages of instances. -/
theorem early_selectPage (c : Option Condition) (order : Option (List SortKey)) (index size : Int) :
    (selectPage t c order index size : Operation σ (Page Instance)).Early s t fun _ => True := by
  refine (offline_selectOrdered c order).bind_early fun query hquery => Late.early ?_
  obtain ⟨m, hm⟩ := Build.exists_metadata_of_answers hquery
  refine (late_window _ _ query.1 index size).bind fun w _ => ?_
  split
  · exact late_pure trivial
  · exact (late_pageRows query.1 query.2 w).bind fun q _ =>
      (late_instances hm _ q).bind fun _ _ => late_pure trivial

/-- Reading pages of rows. -/
theorem late_queryPage (q : Statement) (order : Option String) (index size : Int) :
    (queryPage q order index size : Operation σ (Page Row)).Late s t fun _ => True := by
  refine (late_window _ _ q index size).bind fun w _ => ?_
  split
  · exact late_pure trivial
  · exact (late_pageRows q order w).bind fun q _ =>
      (late_rows _ _ q).bind fun _ _ => late_pure trivial

/-- An operation that builds one statement tells static faults before any call, if it has none
afterwards. -/
private theorem early_of_statement (b : Build) {f : Dialect → CatalogM Statement}
    {g : Statement → Operation σ α} (hf : ∀ d, b.statements d t = do return [← f d])
    (hg : ∀ m q, Metadata.ofMapping t.mapping = .ok m → (g q).Late s t fun _ => True) :
    (build f >>= g).Early s t fun _ => True := by
  refine (offline_statement b hf).bind_early fun q hq => ?_
  obtain ⟨m, hm⟩ := Build.exists_metadata_of_answers hq
  exact (hg m q hm).early

/-- An operation on several instances tells static faults before any call. -/
private theorem early_of_batch (operation : String) (b : Nat → Build) :
    (batchSize >>= fun size => build (fun d => (b size).statements d t) >>=
      runBatch operation t.name : Operation σ Nat).Early s t fun _ => True :=
  offline_batchSize.bind_early fun size _ =>
    (offline_statements (b size)).bind_early fun qs _ => (late_runBatch _ _ qs).early

/-- The operations tell static faults before any call. -/
theorem Offers.early {x : Operation σ α} (h : Offers t x) : x.Early s t fun _ => True := by
  cases h with
  | insert x => exact Ends.mono (early_insert x) fun _ _ _ h => ⟨h.1, fun _ _ => trivial⟩
  | insertAssign x => exact early_insertAssign x
  | insertBatch xs => exact early_of_batch "insert_batch" (.insertBatch xs)
  | update x => exact early_of_statement (.update x) (fun _ => rfl) fun _ q _ => late_execute _ _ q
  | updateWhere x c =>
    exact early_of_statement (.updateWhere x c) (fun _ => rfl) fun _ q _ => late_execute _ _ q
  | updateSet as c =>
    exact early_of_statement (.updateSet as c) (fun _ => rfl) fun _ q _ => late_execute _ _ q
  | updateFields x names c =>
    exact early_of_statement (.updateFields x names c) (fun _ => rfl) fun _ q _ =>
      late_execute _ _ q
  | updateIgnoring x ignored c =>
    exact early_of_statement (.updateIgnoring x ignored c) (fun _ => rfl) fun _ q _ =>
      late_execute _ _ q
  | updateBatch xs => exact early_of_batch "update_batch" (.updateBatch xs)
  | delete x => exact early_of_statement (.delete x) (fun _ => rfl) fun _ q _ => late_execute _ _ q
  | deleteWhere c =>
    exact early_of_statement (.deleteWhere c) (fun _ => rfl) fun _ q _ => late_execute _ _ q
  | deleteBatch xs => exact early_of_batch "delete_batch" (.deleteBatch xs)
  | selectWhere c order =>
    exact early_of_statement (.select c order) (fun _ => rfl) fun _ q hm => late_instances hm _ q
  | first c order =>
    refine (offline_selectOrdered c order).bind_early fun query hquery => Late.early ?_
    obtain ⟨m, hm⟩ := Build.exists_metadata_of_answers hquery
    exact (late_pageRows query.1 query.2 _).bind fun q _ =>
      (late_instances hm _ q).bind fun _ _ => late_pure trivial
  | selectFields c p target =>
    refine early_of_statement (.selectProjection c p .rows) (fun _ => rfl) fun _ q _ => ?_
    refine (late_rows _ _ q).bind fun result _ => ?_
    exact Late.mapM (fun row => (late_lift fun _ he => ReadType.isStatic_of_read he).forget)
      result.2
  | selectDynamic c p k =>
    exact early_of_statement (.selectProjection c p k) (fun _ => rfl) fun _ q _ =>
      (late_rows _ _ q).bind fun _ _ => late_pure trivial
  | selectAggregate c p k target =>
    exact early_of_statement (.selectProjection c p k) (fun _ => rfl) fun _ q _ =>
      (late_scalarValue _ _ q).bind fun v _ => late_readMissing target v
  | selectPage c order index size => exact early_selectPage c order index size
  | count c =>
    exact early_of_statement (.count c) (fun _ => rfl) fun _ q _ =>
      (late_scalarValue _ _ q).bind fun v _ => late_countOf v
  | hasRows c =>
    exact early_of_statement (.count c) (fun _ => rfl) fun _ q _ =>
      (late_scalarValue _ _ q).bind fun v _ => (late_countOf v).bind fun _ _ => late_pure trivial
  | executeSql q => exact (late_execute _ _ q).early
  | queryRows q => exact ((late_rows _ _ q).bind fun _ _ => late_pure trivial).early
  | queryScalar q target =>
    exact ((late_scalarValue _ _ q).bind fun v _ => late_readMissing target v).early
  | queryPage q order index size => exact (late_queryPage q order index size).early

/-- A query for rows is one call, which fails as the gateway does. -/
theorem runFrom_rows (operation entity : String) (q : Statement) (st : SessionState σ) :
    ∃ r, (rows operation entity q).runFrom s st = (r, { st with
        connection := ((s.gateway.query (prepare s.gateway.dialect q)
          s.options.timeout).run.run st.connection).2 }) ∧
      ∀ e, r = .error e → ∃ message, e = .dataAccess operation entity message := by
  have hcall : (call operation entity fun g =>
      g.query (prepare g.dialect q) s.options.timeout).runFrom s st = _ :=
    runFrom_call operation entity _
  unfold rows
  rw [runFrom_bind_ok runFrom_read]
  cases hresult : ((s.gateway.query (prepare s.gateway.dialect q) s.options.timeout).run.run
      st.connection).1 with
  | error message =>
    rw [hresult] at hcall
    exact ⟨_, runFrom_bind_error hcall, fun e he => ⟨message, by cases he; rfl⟩⟩
  | ok result =>
    rw [hresult] at hcall
    rw [runFrom_bind_ok hcall]
    cases hread : result.read with
    | ok rs => exact ⟨_, rfl, nofun⟩
    | error message => exact ⟨_, rfl, fun e he => ⟨message, by cases he; rfl⟩⟩

/-- Reading plain SQL as instances of an invalid type makes its query first, and then tells the
fault of the mapping, unless the query fails. -/
theorem runFrom_queryInstances {e : Fault} (he : Metadata.ofMapping t.mapping = .error e)
    (q : Statement) {st : SessionState σ} (hst : st.catalog.Serves t) :
    ((queryInstances t q).runFrom s st).2.connection =
        ((s.gateway.query (prepare s.gateway.dialect q)
          s.options.timeout).run.run st.connection).2 ∧
      (((queryInstances t q).runFrom s st).1 = .error e ∨
        ∃ message, ((queryInstances t q).runFrom s st).1 =
          .error (.dataAccess "query_entities" t.name message)) := by
  obtain ⟨r, hrows, hfault⟩ := runFrom_rows (s := s) "query_entities" t.name q st
  unfold queryInstances instances
  cases r with
  | error e' =>
    obtain ⟨message, rfl⟩ := hfault e' rfl
    rw [runFrom_bind_error hrows]
    exact ⟨rfl, Or.inr ⟨message, rfl⟩⟩
  | ok result =>
    rw [runFrom_bind_ok hrows]
    have hreader : t.Answers (Reader.ofColumns t result.1) (.error e) :=
      (EntityType.answers_bind (g := fun _ => .error e) (EntityType.metadata_answers t)
        (by simp [he])).congr (he ▸ rfl)
    have hask (connection : σ) : (ask (Reader.ofColumns t result.1)).runFrom s
        ⟨connection, st.catalog⟩ = (.error e, ⟨connection,
          ((Reader.ofColumns t result.1).runFrom st.catalog).2⟩) := by
      rw [runFrom_ask, (hreader st.catalog hst).1]
    dsimp only
    rw [runFrom_bind_error (hask _)]
    exact ⟨rfl, Or.inl rfl⟩

/-- A static fault comes before any call of the gateway, whatever the gateway does: of all
operations but reading plain SQL as instances. This one has no static fault on a valid type; on an
invalid one it makes its query all the same, and tells the fault of the mapping when the query does
not fail. -/
theorem static_faults_before_calls (g : Gateway σ) (o : Options)
    {st : SessionState (σ × List CallRecord)} (hst : st.catalog.Serves t) :
    (∀ {α : Type} (x : Operation (σ × List CallRecord) α) (e : Fault), Offers t x →
      (x.runFrom ⟨g.recorded, o⟩ st).1 = .error e → e.isStatic = true →
        (x.runFrom ⟨g.recorded, o⟩ st).2.connection = st.connection) ∧
    ∀ q : Statement,
      (∀ m e, Metadata.ofMapping t.mapping = .ok m →
        ((queryInstances t q).runFrom ⟨g.recorded, o⟩ st).1 = .error e → e.isStatic = false) ∧
      ∀ e, Metadata.ofMapping t.mapping = .error e →
        ((queryInstances t q).runFrom ⟨g.recorded, o⟩ st).2.connection.2 =
            st.connection.2 ++ [.query (prepare g.dialect q) o.timeout] ∧
          (((queryInstances t q).runFrom ⟨g.recorded, o⟩ st).1 = .error e ∨
            ∃ message, ((queryInstances t q).runFrom ⟨g.recorded, o⟩ st).1 =
              .error (.dataAccess "query_entities" t.name message)) := by
  refine ⟨fun x e hx he hstatic => ?_, fun q => ⟨fun m e hm he => ?_, fun e he => ?_⟩⟩
  · exact (hx.early st hst).2.1 e he hstatic
  · exact (late_instances hm "query_entities" q st hst).2.1 e he
  · obtain ⟨hconnection, hresult⟩ := runFrom_queryInstances (s := ⟨g.recorded, o⟩) he q hst
    refine ⟨?_, hresult⟩
    rw [hconnection, Gateway.recorded, Call.run_recorded]

/-- Counting the rows of a type without a table fails before any call. -/
theorem static_faults_before_calls_tableless :
    Catalog.empty.Serves .tableless ∧
      ((count .tableless none).runFrom ⟨(Script.gateway .sqlite).recorded, .default⟩
        ⟨(Script.empty, []), .empty⟩).1 = .error (.mapping "Note" .blankTable) ∧
      ((count .tableless none).runFrom ⟨(Script.gateway .sqlite).recorded, .default⟩
        ⟨(Script.empty, []), .empty⟩).2.connection = (Script.empty, []) := by
  have hresult : ((count .tableless none).runFrom ⟨(Script.gateway .sqlite).recorded, .default⟩
      ⟨(Script.empty, []), .empty⟩).1 = .error (.mapping "Note" .blankTable) := by rfl
  exact ⟨Catalog.serves_empty _, hresult, (static_faults_before_calls (Script.gateway .sqlite)
    .default (Catalog.serves_empty _)).1 _ _ (.count none) hresult rfl⟩

/-- Reading plain SQL as instances of a type without a table fails for the table, but only after the
query. -/
theorem queried_before_blank_table :
    ¬∀ (t : EntityType) (q : Statement) (e : Fault),
      ((queryInstances t q).runFrom ⟨(Script.gateway .sqlite).recorded, .default⟩
        ⟨(Script.empty, []), .empty⟩).1 = .error e → e.isStatic = true →
      ((queryInstances t q).runFrom ⟨(Script.gateway .sqlite).recorded, .default⟩
        ⟨(Script.empty, []), .empty⟩).2.connection.2 = [] := by
  intro h
  have hfault : ((queryInstances .tableless ⟨"SELECT 1", []⟩).runFrom
      ⟨(Script.gateway .sqlite).recorded, .default⟩ ⟨(Script.empty, []), .empty⟩).1 =
        .error (.mapping "Note" .blankTable) := by rfl
  have hcalls : ((queryInstances .tableless ⟨"SELECT 1", []⟩).runFrom
      ⟨(Script.gateway .sqlite).recorded, .default⟩ ⟨(Script.empty, []), .empty⟩).2.connection.2 =
        [.query ⟨"SELECT 1", []⟩ none] := by rfl
  have hnone := h .tableless ⟨"SELECT 1", []⟩ _ hfault rfl
  rw [hcalls] at hnone
  cases hnone

end Session

end EntitySql
