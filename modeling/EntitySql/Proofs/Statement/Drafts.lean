import EntitySql.Proofs.Entity.Transparency
import EntitySql.Proofs.Fallible
import EntitySql.Statement.Build

/-!
# Builds without a catalog

The statements of an operation are the written forms of drafts, and the drafts follow
from the mapping and the arguments alone. A catalog that serves the entity type only
saves looking at the mapping again.
-/

namespace EntitySql

/-- The draft of an item at a place of a batch. -/
def draftAt {α : Type} (draft : String → α → Except Fault Draft) (item : α × Nat) :
    Except Fault Draft :=
  draft (batchSuffix item.2) item.1

/-- The drafts of a batch, one for each chunk. -/
def draftBatch {α : Type} (d : Dialect) (size : Nat) (draft : String → α → Except Fault Draft)
    (items : List α) : Except Fault (List Draft) :=
  (chunks size items.zipIdx).mapM fun chunk => do
    let drafts ← chunk.mapM (draftAt draft)
    return Draft.join d.terminator drafts

/-- Writing the drafts of a batch gives its statements. -/
theorem batch_eq_map_draftBatch {α : Type} (d : Dialect) (size : Nat)
    (draft : String → α → Except Fault Draft) (items : List α) :
    batch d size draft items = (draftBatch d size draft items).map (·.map (Draft.statement d)) := by
  refine mapM_map_eq (fun chunk => ?_) _
  show (chunk.mapM (draftAt draft) >>= fun drafts =>
    pure ((Draft.join d.terminator drafts).statement d)) = _
  cases chunk.mapM (draftAt draft) <;> rfl

namespace Build

/-- The draft of an operation that is no batch. -/
def single (draft : Except Fault Draft) : Except Fault (List Draft) :=
  draft.map fun x => [x]

/-- The update of the rows of a condition by some members of an instance. -/
def draftMatching (d : Dialect) (t : EntityType) (m : Metadata) (operation : String)
    (keep : Member → Bool) (x : Instance) (condition : Option Condition) : Except Fault Draft := do
  let c ← requireCondition m operation condition
  let assignments ← assignmentsDraft d m "" (t.fields x (m.nonKeyMembers.filter keep))
  (updateAll m assignments).filtered d m c

/-- The update of the rows of a condition by listed members of an instance. -/
def draftListed (d : Dialect) (t : EntityType) (m : Metadata) (x : Instance) (names : List String)
    (condition : Option Condition) : Except Fault Draft := do
  let c ← requireCondition m "update_fields" condition
  if names.isEmpty then throw (.expression .noFields)
  match names.find? fun n => (m.member? n).isNone with
  | some n => throw (.expression (.unknownMember n m.entity))
  | none =>
    let listed := m.columnMembers.filter fun f => isListed names f.name
    if listed.isEmpty then throw (.expression .onlyComputedFields)
    (updateAll m (listedDraft d (t.fields x listed))).filtered d m c

/-- The update of the rows of a condition by expressions. -/
def draftSet (d : Dialect) (m : Metadata) (assignments : List Assignment)
    (condition : Option Condition) : Except Fault Draft := do
  let c ← requireCondition m "update_set" condition
  match ((⟨m, d, ""⟩ : Surroundings).bindAssignments assignments).runFrom (Binder.avoiding []) with
  | (.error e, _) => throw e
  | (.ok bound, b) => (updateAll m ⟨BoundAssignment.list bound, b.parameters⟩).filtered d m c

/-- The sort keys of an order, if there is one. -/
def orderKeys? (d : Dialect) (m : Metadata) : Option (List SortKey) → Except Fault (Option String)
  | none => .ok none
  | some order => ((⟨m, d, ""⟩ : Surroundings).orderText order).map some

/-- The query for all columns of the rows of a condition, in an order. -/
def draftSelect (d : Dialect) (m : Metadata) (condition : Option Condition)
    (order : Option (List SortKey)) : Except Fault Draft := do
  let draft ← (selectAll m m.selectFields).filteredBy d m condition
  let keys ← orderKeys? d m order
  return draft.thenText (d.orderClause keys)

/-- The drafts of an operation on an entity type with given metadata. -/
def drafts (d : Dialect) (t : EntityType) (m : Metadata) : Build → Except Fault (List Draft)
  | .insert x => single do
    let draft ← insertDraft d m "" (t.fields x m.insertableMembers)
    return draft.thenText (identityText d m)
  | .insertBatch xs size =>
    draftBatch d size (fun suffix x => insertDraft d m suffix (t.fields x m.insertableMembers)) xs
  | .update x => single do
    m.requireKeys "update"
    updateDraft d m "" (t.fields x m.nonKeyMembers) (t.fields x m.keyMembers)
  | .updateBatch xs size => do
    m.requireKeys "update_batch"
    draftBatch d size
      (fun suffix x =>
        updateDraft d m suffix (t.fields x m.nonKeyMembers) (t.fields x m.keyMembers)) xs
  | .updateWhere x condition =>
    single (draftMatching d t m "update_where" (fun _ => true) x condition)
  | .updateIgnoring x ignored condition =>
    single (draftMatching d t m "update_ignoring" (fun f => !isListed ignored f.name) x condition)
  | .updateFields x names condition => single (draftListed d t m x names condition)
  | .updateSet assignments condition => single (draftSet d m assignments condition)
  | .delete x => single do
    m.requireKeys "delete"
    deleteDraft d m "" (t.fields x m.keyMembers)
  | .deleteBatch xs size => do
    m.requireKeys "delete_batch"
    draftBatch d size (fun suffix x => deleteDraft d m suffix (t.fields x m.keyMembers)) xs
  | .deleteWhere condition => single do
    let c ← requireCondition m "delete_where" condition
    (deleteAll m).filtered d m c
  | .select condition order => single (draftSelect d m condition order)
  | .selectProjection condition p k => single do
    let text ← (⟨m, d, ""⟩ : Surroundings).projectionText p
    let columns ← k.columns p text
    (selectAll m columns).filteredBy d m condition
  | .count condition => single ((selectAll m "COUNT(1) CT").filteredBy d m condition)

end Build

namespace EntityType

variable {d : Dialect} {t : EntityType}

/-- Writing a draft that is found without the catalog. -/
private theorem answers_statement (e : Except Fault Draft) :
    t.Answers (liftM e >>= fun draft => pure (draft.statement d)) (e.map (Draft.statement d)) := by
  refine (answers_bind (answers_lift e) fun draft _ => answers_pure _).congr ?_
  cases e <;> rfl

/-- What is done with a result that is found without the catalog. -/
private theorem answers_step {α β γ : Type} {e : Except Fault α} {f : α → CatalogM β}
    {g : α → Except Fault γ} {write : γ → β}
    (h : ∀ a, e = .ok a → t.Answers (f a) ((g a).map write)) :
    t.Answers (liftM e >>= f) ((e >>= g).map write) := by
  refine (answers_bind (answers_lift e) h).congr ?_
  cases e <;> rfl

/-- A statement by itself is a batch of one. -/
private theorem answers_single {x : CatalogM Statement} {e : Except Fault Draft}
    (h : t.Answers x (e.map (Draft.statement d))) :
    t.Answers (do return [← x]) ((Build.single e).map (·.map (Draft.statement d))) := by
  refine (answers_bind h fun s _ => answers_pure [s]).congr ?_
  cases e <;> rfl

end EntityType

namespace Build

open EntityType

variable {d : Dialect} {t : EntityType} {m : Metadata}

private theorem mem_of_filter {p : Member → Bool} {ms : List Member}
    (h : ∀ f ∈ ms, f ∈ t.mapping.members) (f : Member) (hf : f ∈ ms.filter p) :
    f ∈ t.mapping.members :=
  h f (List.mem_filter.mp hf).1

private theorem answers_matching (hm : Metadata.ofMapping t.mapping = .ok m) (operation : String)
    (keep : Member → Bool) (x : Instance) (condition : Option Condition) :
    t.Answers (Statement.updateMatching d t operation keep x condition)
      ((draftMatching d t m operation keep x condition).map (Draft.statement d)) := by
  have hall : ∀ f ∈ m.members, f ∈ t.mapping.members := fun _ => Metadata.mem_mapping_of_mem hm
  refine answers_metadata_bind hm (answers_step fun c _ => ?_)
  refine answers_fields_bind (mem_of_filter (mem_of_filter (mem_of_filter hall))) fun as has => ?_
  rw [has]
  exact answers_step fun assignments _ => answers_statement _

private theorem answers_listed (hm : Metadata.ofMapping t.mapping = .ok m) (x : Instance)
    (names : List String) (condition : Option Condition) :
    t.Answers (Statement.updateFields d t x names condition)
      ((draftListed d t m x names condition).map (Draft.statement d)) := by
  have hall : ∀ f ∈ m.members, f ∈ t.mapping.members := fun _ => Metadata.mem_mapping_of_mem hm
  refine answers_metadata_bind hm (answers_step fun c _ => ?_)
  cases names.isEmpty with
  | true => exact answers_lift _
  | false =>
    cases hunknown : names.find? fun n => (m.member? n).isNone with
    | some n => exact answers_lift _
    | none =>
      refine answers_fields_bind (mem_of_filter (mem_of_filter hall)) fun as has => ?_
      have hempty :
          as.isEmpty = (m.columnMembers.filter fun f => isListed names f.name).isEmpty := by
        have hlength := congrArg List.length (has x)
        simp only [readFields, fields, List.length_map] at hlength
        rw [Bool.eq_iff_iff, List.isEmpty_iff_length_eq_zero, List.isEmpty_iff_length_eq_zero,
          hlength]
      rw [hempty, has]
      cases hlisted : (m.columnMembers.filter fun f => isListed names f.name).isEmpty with
      | true =>
        simp only [hlisted, if_true]
        exact answers_lift _
      | false =>
        simp only [hlisted, Bool.false_eq_true, if_false]
        exact answers_statement _

private theorem answers_set (hm : Metadata.ofMapping t.mapping = .ok m)
    (assignments : List Assignment) (condition : Option Condition) :
    t.Answers (Statement.updateSet d t assignments condition)
      ((draftSet d m assignments condition).map (Draft.statement d)) := by
  refine answers_metadata_bind hm (answers_step fun c _ => ?_)
  dsimp only
  rcases ((⟨m, d, ""⟩ : Surroundings).bindAssignments assignments).runFrom
    (Binder.avoiding []) with ⟨e | bound, b⟩
  · exact answers_lift _
  · exact answers_statement _

/-- The sort keys of an order follow from the mapping. -/
theorem answers_orderText? (hm : Metadata.ofMapping t.mapping = .ok m)
    (order : Option (List SortKey)) :
    t.Answers (Statement.orderText? d t order) (orderKeys? d m order) := by
  cases order with
  | none => exact answers_pure none
  | some order =>
    refine (answers_bind (r := (⟨m, d, ""⟩ : Surroundings).orderText order)
      (answers_metadata_bind hm (answers_lift _)) fun keys _ => answers_pure (some keys)).congr ?_
    show ((⟨m, d, ""⟩ : Surroundings).orderText order >>= fun keys => .ok (some keys)) =
      ((⟨m, d, ""⟩ : Surroundings).orderText order).map some
    cases (⟨m, d, ""⟩ : Surroundings).orderText order <;> rfl

/-- The sort keys that are found through a catalog are those of the mapping. -/
theorem orderKeys?_of_run (hm : Metadata.ofMapping t.mapping = .ok m) {c c' : Catalog}
    {order : Option (List SortKey)} {keys : Option String} (hc : c.Serves t)
    (h : (Statement.orderText? d t order).runFrom c = (.ok keys, c')) :
    orderKeys? d m order = .ok keys := by
  have hresult := (answers_orderText? (d := d) hm order c hc).1
  rw [h] at hresult
  exact hresult.symm

/-- A query for all columns follows from the mapping. -/
theorem answers_select (hm : Metadata.ofMapping t.mapping = .ok m)
    (condition : Option Condition) (order : Option (List SortKey)) :
    t.Answers (Statement.select d t condition order)
      ((draftSelect d m condition order).map (Draft.statement d)) := by
  refine answers_metadata_bind hm (answers_step fun draft _ => ?_)
  refine (answers_bind (answers_orderText? hm order) fun keys _ => answers_pure _).congr ?_
  cases orderKeys? d m order <;> rfl

private theorem answers_batch {α : Type} (draft : String → α → Except Fault Draft) (size : Nat)
    (items : List α) :
    t.Answers (liftM (batch d size draft items))
      ((draftBatch d size draft items).map (·.map (Draft.statement d))) :=
  (answers_lift _).congr (batch_eq_map_draftBatch d size draft items)

/-- The statements of an operation on a valid type are the written forms of its drafts. -/
theorem statements_answers (hm : Metadata.ofMapping t.mapping = .ok m) (b : Build) :
    t.Answers (b.statements d t) ((b.drafts d t m).map (·.map (Draft.statement d))) := by
  have hall : ∀ f ∈ m.members, f ∈ t.mapping.members := fun _ => Metadata.mem_mapping_of_mem hm
  cases b with
  | insert x =>
    refine answers_single (answers_metadata_bind hm ?_)
    refine answers_fields_bind (mem_of_filter (mem_of_filter hall)) fun as has => ?_
    rw [has]
    exact answers_step fun draft _ => answers_pure _
  | insertBatch xs size =>
    refine answers_metadata_bind hm ?_
    refine answers_fields_bind (mem_of_filter (mem_of_filter hall)) fun as has => ?_
    simp only [has]
    exact answers_batch _ size xs
  | update x =>
    refine answers_single (answers_metadata_bind hm (answers_step fun _ _ => ?_))
    refine answers_fields_bind (mem_of_filter (mem_of_filter hall)) fun as has => ?_
    refine answers_fields_bind (mem_of_filter hall) fun ks hks => ?_
    rw [has, hks]
    exact answers_statement _
  | updateBatch xs size =>
    refine answers_metadata_bind hm (answers_step fun _ _ => ?_)
    refine answers_fields_bind (mem_of_filter (mem_of_filter hall)) fun as has => ?_
    refine answers_fields_bind (mem_of_filter hall) fun ks hks => ?_
    simp only [has, hks]
    exact answers_batch _ size xs
  | updateWhere x condition => exact answers_single (answers_matching hm _ _ x condition)
  | updateIgnoring x ignored condition =>
    exact answers_single (answers_matching hm _ _ x condition)
  | updateFields x names condition => exact answers_single (answers_listed hm x names condition)
  | updateSet assignments condition => exact answers_single (answers_set hm assignments condition)
  | delete x =>
    refine answers_single (answers_metadata_bind hm (answers_step fun _ _ => ?_))
    refine answers_fields_bind (mem_of_filter hall) fun ks hks => ?_
    rw [hks]
    exact answers_statement _
  | deleteBatch xs size =>
    refine answers_metadata_bind hm (answers_step fun _ _ => ?_)
    refine answers_fields_bind (mem_of_filter hall) fun ks hks => ?_
    simp only [hks]
    exact answers_batch _ size xs
  | deleteWhere condition =>
    exact answers_single (answers_metadata_bind hm (answers_step fun c _ => answers_statement _))
  | select condition order => exact answers_single (answers_select hm condition order)
  | selectProjection condition p k =>
    refine answers_single (answers_metadata_bind hm (answers_step fun text _ => ?_))
    exact answers_step fun columns _ => answers_statement _
  | count condition => exact answers_single (answers_metadata_bind hm (answers_statement _))

/-- Operations on a type with an invalid mapping fail as its validation does. -/
theorem statements_answers_error {e : Fault} (he : Metadata.ofMapping t.mapping = .error e)
    (b : Build) : t.Answers (b.statements d t) (.error e) := by
  have hfail {α : Type} (f : Metadata → CatalogM α) : t.Answers (t.metadata >>= f) (.error e) :=
    (answers_bind (g := fun _ => .error e) (metadata_answers t) (by simp [he])).congr (he ▸ rfl)
  have hsingle {x : CatalogM Statement} (h : t.Answers x (.error e)) :
      t.Answers (do return [← x]) (.error e) :=
    answers_bind (g := fun _ => .error e) h (by simp)
  cases b with
  | insertBatch | updateBatch | deleteBatch => exact hfail _
  | _ => exact hsingle (hfail _)

/-- An operation has one and the same result from all catalogs that serve its type, and none
without a fault on an invalid type. -/
theorem exists_answers (d : Dialect) (t : EntityType) (b : Build) :
    ∃ r, t.Answers (b.statements d t) r ∧
      ∀ ss, r = .ok ss → ∃ m, Metadata.ofMapping t.mapping = .ok m := by
  cases hm : Metadata.ofMapping t.mapping with
  | error e => exact ⟨_, statements_answers_error hm b, nofun⟩
  | ok m => exact ⟨_, statements_answers hm b, fun _ _ => ⟨m, rfl⟩⟩

/-- A type on which an operation has statements is valid. -/
theorem exists_metadata_of_answers {b : Build} {ss : List Statement}
    (h : t.Answers (b.statements d t) (.ok ss)) : ∃ m, Metadata.ofMapping t.mapping = .ok m := by
  obtain ⟨r, hr, hvalid⟩ := b.exists_answers d t
  exact hvalid ss (hr.iff_eq.mp h)

/-- The statements of a successful operation are the written forms of its drafts. -/
theorem statements_eq_ok {b : Build} {c c' : Catalog} {ss : List Statement} (hc : c.Serves t)
    (h : (b.statements d t).runFrom c = (.ok ss, c')) :
    ∃ m ds, Metadata.ofMapping t.mapping = .ok m ∧ b.drafts d t m = .ok ds ∧
      ss = ds.map (Draft.statement d) := by
  cases hm : Metadata.ofMapping t.mapping with
  | error e =>
    have hresult := (statements_answers_error (d := d) hm b c hc).1
    rw [h] at hresult
    cases hresult
  | ok m =>
    have hresult := (statements_answers (d := d) hm b c hc).1
    rw [h] at hresult
    obtain ⟨ds, hds, hss⟩ := map_eq_ok_iff.mp hresult.symm
    exact ⟨m, ds, rfl, hds, hss.symm⟩

end Build

/-- The catalogs that come about by operations on entity types of a family, and by asking for their
metadata and accessors. -/
inductive Catalog.Reached (types : EntityType → Prop) : Catalog → Prop
  | empty : Reached types Catalog.empty
  | statements {c : Catalog} {t : EntityType} (hc : Reached types c) (ht : types t) (d : Dialect)
      (b : Build) : Reached types ((b.statements d t).runFrom c).2
  | metadata {c : Catalog} {t : EntityType} (hc : Reached types c) (ht : types t) :
      Reached types (t.metadata.runFrom c).2
  | accessor {c : Catalog} {t : EntityType} (hc : Reached types c) (ht : types t)
      (member : String) : Reached types ((t.accessor member).runFrom c).2

/-- Such a catalog serves every type of the family, when no two of them have one id. -/
theorem Catalog.Reached.serves {types : EntityType → Prop} {c : Catalog}
    (hids : ∀ t u, types t → types u → t.id = u.id → t = u) (h : Reached types c)
    {u : EntityType} (hu : types u) : c.Serves u := by
  induction h generalizing u with
  | empty => exact serves_empty u
  | @statements c t _ ht d b ih =>
    cases hm : Metadata.ofMapping t.mapping with
    | error e => exact (Build.statements_answers_error hm b c (ih ht)).2 u (hids u t hu ht) (ih hu)
    | ok m => exact (Build.statements_answers hm b c (ih ht)).2 u (hids u t hu ht) (ih hu)
  | @metadata c t _ ht ih => exact (t.metadata_answers c (ih ht)).2 u (hids u t hu ht) (ih hu)
  | @accessor c t _ ht member ih =>
    exact (t.accessor_answers member c (ih ht)).2 u (hids u t hu ht) (ih hu)

end EntitySql
