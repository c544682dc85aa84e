import EntitySql.Proofs.Query.Phrases
import EntitySql.Proofs.Statement.Names
import EntitySql.Proofs.Statement.Rows

/-!
# Located rows

No update and no deletion reaches past the rows that it is for. A change of the rows of
instances compares every key with the value of the instance, which is never null, and a
change without instances ends with its condition. Without a key, or without a condition,
nothing is written.
-/

namespace EntitySql

/-- A change of all rows of a table, before it is restricted: a deletion, or an update by
assignments whose placeholders are its parameters in order. -/
def RowOperation.Sweeps (m : Metadata) (x : Draft) : RowOperation → Prop
  | .insert => False
  | .update => ∃ a : Draft, a.phrase.slots = a.parameters.map (·.name) ∧ x = updateAll m a
  | .delete => x = deleteAll m

/-- The statement of a change of all rows that a condition restricts: the condition at the end of
the text, and its parameters after those before. -/
def Draft.restrictedTo (d : Dialect) (sweep : Draft) (condition : String) (ps : List Parameter) :
    Statement :=
  ⟨sweep.phrase.render d.marker ++ " WHERE " ++ condition, sweep.parameters ++ ps⟩

/-- Several statements in one, with a text between each two. -/
def Statement.join (separator : String) (ss : List Statement) : Statement :=
  ⟨separator.intercalate (ss.map (·.text)), ss.flatMap (·.parameters)⟩

/-- The text that compares the column of each field with the placeholder for its value. -/
def Field.comparisons (d : Dialect) (suffix : String) (fs : List Field) : String :=
  " AND ".intercalate (fs.map fun f => f.1.column ++ "=" ++ d.marker ++ f.parameterName suffix)

/-- A change of the row of an instance: every key, in the order of their declaration, is compared
with the value that the instance has in it, and none of these values is null. -/
structure Statement.ChangesRow (d : Dialect) (t : EntityType) (m : Metadata) (k : RowOperation)
    (suffix : String) (x : Instance) (s : Statement) : Prop where
  known : ∀ f ∈ t.fields x m.keyMembers, f.2.isNull = false
  restricted : ∃ sweep, k.Sweeps m sweep ∧
    s = sweep.restrictedTo d (Field.comparisons d suffix (t.fields x m.keyMembers))
      ((t.fields x m.keyMembers).map (Field.parameter d suffix))

namespace Build

/-- The instances of a batch, each with what stands behind the names of its parameters. -/
def places (xs : List Instance) : List (Instance × String) :=
  xs.zipIdx.map fun item => (item.1, batchSuffix item.2)

/-- An operation on the rows of instances, which it locates by their keys, with its name. -/
inductive ByKey : Build → RowOperation → String → List (Instance × String) → Prop
  | update (x : Instance) : ByKey (.update x) .update "update" [(x, "")]
  | updateBatch (xs : List Instance) (size : Nat) :
      ByKey (.updateBatch xs size) .update "update_batch" (places xs)
  | delete (x : Instance) : ByKey (.delete x) .delete "delete" [(x, "")]
  | deleteBatch (xs : List Instance) (size : Nat) :
      ByKey (.deleteBatch xs size) .delete "delete_batch" (places xs)

/-- An operation on the rows of a condition, which it does not run without, with its name. -/
inductive ByCondition : Build → RowOperation → String → Option Condition → Prop
  | updateWhere (x : Instance) (c : Option Condition) :
      ByCondition (.updateWhere x c) .update "update_where" c
  | updateIgnoring (x : Instance) (ignored : List String) (c : Option Condition) :
      ByCondition (.updateIgnoring x ignored c) .update "update_ignoring" c
  | updateFields (x : Instance) (names : List String) (c : Option Condition) :
      ByCondition (.updateFields x names c) .update "update_fields" c
  | updateSet (assignments : List Assignment) (c : Option Condition) :
      ByCondition (.updateSet assignments c) .update "update_set" c
  | deleteWhere (c : Option Condition) : ByCondition (.deleteWhere c) .delete "delete_where" c

end Build

/-- The statements for the rows of instances: the changes of their rows in order, joined in
groups. -/
def KeyedRows (d : Dialect) (t : EntityType) (m : Metadata) (k : RowOperation)
    (items : List (Instance × String)) (ss : List Statement) : Prop :=
  m.keyMembers ≠ [] ∧ ∃ groups : List (List Statement),
    List.Forall₂ (fun item part => part.ChangesRow d t m k item.2 item.1) items groups.flatten ∧
      ss = groups.map (Statement.join d.terminator)

/-- The statements for the rows of a condition: one, which ends with the bound form of the
condition. -/
def ConditionedRows (d : Dialect) (m : Metadata) (k : RowOperation) (c : Condition)
    (ss : List Statement) : Prop :=
  ∃ sweep bound b, k.Sweeps m sweep ∧
    ((⟨m, d, ""⟩ : Surroundings).bindCondition c).runFrom
      (Binder.avoiding (sweep.parameters.map (·.name))) = (.ok bound, b) ∧
    ss = [sweep.restrictedTo d (bound.phrase.render d.marker) b.parameters]

variable {d : Dialect} {t : EntityType} {m : Metadata} {k : RowOperation} {suffix : String}

/-- The text of the assignment of a field. -/
theorem Field.render_assignment (f : Field) : Phrase.render d.marker (f.assignment suffix) =
    f.1.column ++ "=" ++ d.marker ++ f.parameterName suffix := by
  simp [Phrase.render, Field.assignment, Piece.render, String.append_assoc]

/-- The text of a comparison of keys. -/
theorem Field.render_comparisons (fs : List Field) :
    (Phrase.join " AND " (fs.map (Field.assignment suffix))).render d.marker =
      Field.comparisons d suffix fs := by
  rw [Phrase.render_join, List.map_map]
  exact congrArg " AND ".intercalate (List.map_congr_left fun f _ => f.render_assignment)

/-- The statement of joined drafts joins their statements. -/
theorem Draft.statement_join (separator : String) (xs : List Draft) :
    (Draft.join separator xs).statement d =
      Statement.join separator (xs.map (Draft.statement d)) := by
  simp [Draft.statement, Draft.join, Statement.join, Phrase.render_join, List.flatMap_map,
    Function.comp_def]

/-- The statement of a draft that ends with a condition. -/
theorem Draft.statement_eq_restrictedTo {x y : Draft} {condition : Phrase} {ps : List Parameter}
    (hphrase : y.phrase = x.phrase ++ .text " WHERE " :: condition)
    (hparameters : y.parameters = x.parameters ++ ps) :
    y.statement d = x.restrictedTo d (condition.render d.marker) ps := by
  rw [Draft.statement, Draft.restrictedTo, hphrase, hparameters, Phrase.render_append,
    Phrase.render_cons, Piece.render, String.append_assoc]

/-- A row that is drafted for an update or a deletion is the row of its instance. -/
theorem RowOperation.changesRow_of_draft {x : Instance} {y : Draft} (hk : k ≠ .insert)
    (h : k.draft d t m suffix x = .ok y) : (y.statement d).ChangesRow d t m k suffix x := by
  cases k with
  | insert => exact absurd rfl hk
  | update =>
    obtain ⟨assignments, condition, ha, hc, hphrase, hparameters⟩ := updateDraft_eq_ok h
    obtain ⟨-, ha, ha'⟩ := assignmentsDraft_eq_ok ha
    obtain ⟨hknown, hc, hc'⟩ := keyClause_eq_ok hc
    refine ⟨hknown, ?_⟩
    rw [hc'] at hparameters
    rw [← Field.render_comparisons, ← hc]
    refine ⟨_, ⟨assignments, ?_, rfl⟩, Draft.statement_eq_restrictedTo hphrase hparameters⟩
    rw [ha, ha', Field.slots_assignments, Field.names_parameters]
  | delete =>
    obtain ⟨condition, hc, hphrase, hparameters⟩ := deleteDraft_eq_ok h
    obtain ⟨hknown, hc, hc'⟩ := keyClause_eq_ok hc
    refine ⟨hknown, ?_⟩
    rw [hc'] at hparameters
    rw [← Field.render_comparisons, ← hc]
    exact ⟨deleteAll m, rfl, Draft.statement_eq_restrictedTo hphrase hparameters⟩

namespace Build

variable {b : Build} {name : String} {ds : List Draft}

/-- No operation on the rows of instances inserts. -/
theorem ByKey.ne_insert {items : List (Instance × String)} (h : b.ByKey k name items) :
    k ≠ .insert := by
  cases h <;> decide

/-- Without a key, no operation on the rows of instances drafts anything. -/
theorem ByKey.drafts_of_keyless {items : List (Instance × String)} (h : b.ByKey k name items)
    (hnone : m.keyMembers = []) : b.drafts d t m = .error (.keyRequired m.entity name) := by
  cases h <;>
    simp only [drafts, single, Metadata.requireKeys_of_keyless hnone] <;> rfl

/-- The drafts of an operation on the rows of instances are their rows in order, in groups. -/
theorem ByKey.drafts_eq_ok {items : List (Instance × String)} (h : b.ByKey k name items)
    (hds : b.drafts d t m = .ok ds) :
    m.keyMembers ≠ [] ∧ ∃ groups : List (List Draft),
      List.Forall₂ (fun item y => k.draft d t m item.2 item.1 = .ok y) items groups.flatten ∧
        ds = groups.map (Draft.join d.terminator) := by
  have hkeys : m.keyMembers ≠ [] := by
    intro hnone
    rw [h.drafts_of_keyless hnone] at hds
    cases hds
  refine ⟨hkeys, ?_⟩
  have hone {e : Except Fault Draft} {x : Instance} (he : e = k.draft d t m "" x)
      (hsingle : single (m.requireKeys name >>= fun _ => e) = .ok ds) :
      ∃ groups : List (List Draft),
        List.Forall₂ (fun item y => k.draft d t m item.2 item.1 = .ok y) [(x, "")] groups.flatten ∧
          ds = groups.map (Draft.join d.terminator) := by
    rw [Metadata.requireKeys_of_keys hkeys] at hsingle
    obtain ⟨y, hy, rfl⟩ := map_eq_ok_iff.mp hsingle
    refine ⟨[[y]], .cons (he ▸ hy) .nil, ?_⟩
    simp [Draft.join, Phrase.join]
  have hmany {xs : List Instance} {size : Nat} {draft : String → Instance → Except Fault Draft}
      (he : draft = k.draft d t m)
      (hbatch : (m.requireKeys name >>= fun _ => draftBatch d size draft xs) = .ok ds) :
      ∃ groups : List (List Draft),
        List.Forall₂ (fun item y => k.draft d t m item.2 item.1 = .ok y) (places xs)
          groups.flatten ∧ ds = groups.map (Draft.join d.terminator) := by
    rw [Metadata.requireKeys_of_keys hkeys] at hbatch
    obtain ⟨groups, hrows, hjoin⟩ := draftBatch_eq_ok hbatch
    refine ⟨groups, List.forall₂_map_left_iff.mpr (hrows.imp fun item y hy => ?_), hjoin⟩
    rw [← he]
    exact hy
  cases h with
  | update x => exact hone rfl hds
  | updateBatch xs size => exact hmany rfl hds
  | delete x => exact hone rfl hds
  | deleteBatch xs size => exact hmany rfl hds

/-- Without a condition, no operation on the rows of a condition drafts anything. -/
theorem ByCondition.drafts_of_none (h : b.ByCondition k name none) :
    b.drafts d t m = .error (.conditionRequired m.entity name) := by
  cases h <;> rfl

/-- The draft of an operation on the rows of a condition is a change of all rows, restricted. -/
theorem ByCondition.drafts_eq_ok {c : Option Condition} (h : b.ByCondition k name c)
    (hds : b.drafts d t m = .ok ds) :
    ∃ c' sweep y, c = some c' ∧ k.Sweeps m sweep ∧ sweep.filtered d m c' = .ok y ∧ ds = [y] := by
  cases h with
  | updateWhere x | updateIgnoring x ignored =>
    obtain ⟨y, hy, rfl⟩ := map_eq_ok_iff.mp hds
    obtain ⟨c', assignments, hc, ha, hfiltered⟩ := draftMatching_eq_ok hy
    obtain ⟨-, hphrase, hparameters⟩ := assignmentsDraft_eq_ok ha
    refine ⟨c', _, y, hc, ⟨assignments, ?_, rfl⟩, hfiltered, rfl⟩
    rw [hphrase, hparameters, Field.slots_assignments, Field.names_parameters]
  | updateFields x names =>
    obtain ⟨y, hy, rfl⟩ := map_eq_ok_iff.mp hds
    obtain ⟨c', hc, -, hfiltered⟩ := draftListed_eq_ok hy
    exact ⟨c', _, y, hc, ⟨_, slots_listedDraft d _, rfl⟩, hfiltered, rfl⟩
  | updateSet assignments =>
    obtain ⟨y, hy, rfl⟩ := map_eq_ok_iff.mp hds
    obtain ⟨c', bound, binder, hc, hset, hfiltered⟩ := draftSet_eq_ok hy
    refine ⟨c', _, y, hc, ⟨_, ?_, rfl⟩, hfiltered, rfl⟩
    obtain ⟨ps, hgrows, hbinds⟩ := (⟨m, d, ""⟩ : Surroundings).bindAssignments_adds assignments
      (Binder.avoiding [])
    rw [hset] at hgrows hbinds
    have hparameters : binder.parameters = ps := hgrows.parameters_eq
    rw [hparameters]
    exact (hbinds bound rfl).2.slots_list
  | deleteWhere =>
    obtain ⟨y, hy, rfl⟩ := map_eq_ok_iff.mp hds
    obtain ⟨c', hc, hfiltered⟩ := bind_eq_ok_iff.mp hy
    exact ⟨c', _, y, requireCondition_eq_ok_iff.mp hc, rfl, hfiltered, rfl⟩

/-- The statements of an operation on the rows of instances are changes of these rows. -/
theorem ByKey.keyedRows {items : List (Instance × String)} (h : b.ByKey k name items)
    (hds : b.drafts d t m = .ok ds) : KeyedRows d t m k items (ds.map (Draft.statement d)) := by
  obtain ⟨hkeys, groups, hrows, rfl⟩ := h.drafts_eq_ok hds
  refine ⟨hkeys, groups.map (·.map (Draft.statement d)), ?_, ?_⟩
  · rw [← List.map_flatten, List.forall₂_map_right_iff]
    exact hrows.imp fun _ _ hrow => RowOperation.changesRow_of_draft h.ne_insert hrow
  · rw [List.map_map, List.map_map]
    exact List.map_congr_left fun g _ => Draft.statement_join d.terminator g

/-- An operation on the rows of instances fails when one of them has a key without a value. -/
theorem ByKey.exists_error_of_null {items : List (Instance × String)} {item : Instance × String}
    {f : Field} (h : b.ByKey k name items) (hitem : item ∈ items)
    (hf : f ∈ t.fields item.1 m.keyMembers) (hnull : f.2.isNull = true) :
    ∃ e, b.drafts d t m = .error e := by
  cases hds : b.drafts d t m with
  | error e => exact ⟨e, rfl⟩
  | ok ds =>
    obtain ⟨-, groups, hrows, -⟩ := h.keyedRows hds
    have hknown := ((List.forall₂_and_left _ _).mp
      (hrows.imp fun _ _ hpart => ⟨hpart.known, hpart⟩)).1 item hitem f hf
    rw [hknown] at hnull
    cases hnull

/-- The statement of an operation on the rows of a condition ends with this condition. -/
theorem ByCondition.conditionedRows {c : Option Condition} (h : b.ByCondition k name c)
    (hds : b.drafts d t m = .ok ds) :
    ∃ c', c = some c' ∧ ConditionedRows d m k c' (ds.map (Draft.statement d)) := by
  obtain ⟨c', sweep, y, hc, hsweep, hfiltered, rfl⟩ := h.drafts_eq_ok hds
  refine ⟨c', hc, sweep, ?_⟩
  unfold Draft.filtered at hfiltered
  dsimp only at hfiltered
  split at hfiltered
  · cases hfiltered
  · rename_i bound binder hrun
    cases hfiltered
    exact ⟨bound, binder, hsweep, hrun,
      congrArg (fun s => [s]) (Draft.statement_eq_restrictedTo rfl rfl)⟩

end Build

/-- No update and no deletion reaches past its rows. On an invalid type nothing is built. On a valid
one, what is built for instances locates each of them by all its keys, none of which is null; it is
refused on a type without a key, for whatever instances. What is built for a condition ends with
this condition; it is refused without one, whatever else it is given. No two parameters of a
statement have one name, so that each placeholder stands for the value that is listed for it. -/
theorem changes_keep_to_their_rows (d : Dialect) (t : EntityType) (b : Build) :
    ∃ r, t.Answers (b.statements d t) r ∧
      (∀ e, Metadata.ofMapping t.mapping = .error e → r = .error e) ∧
      (∀ ss, r = .ok ss → ∀ s ∈ ss, (s.parameters.map (·.name)).Nodup) ∧
      ∀ m, Metadata.ofMapping t.mapping = .ok m →
        (∀ k name items, b.ByKey k name items →
          (m.keyMembers = [] → r = .error (.keyRequired m.entity name)) ∧
          (∀ item ∈ items, ∀ f ∈ t.fields item.1 m.keyMembers, f.2.isNull = true →
            ∃ e, r = .error e) ∧
          ∀ ss, r = .ok ss → KeyedRows d t m k items ss) ∧
        ∀ k name c, b.ByCondition k name c →
          (c = none → r = .error (.conditionRequired m.entity name)) ∧
          ∀ ss, r = .ok ss → ∃ c', c = some c' ∧ ConditionedRows d m k c' ss := by
  cases hm : Metadata.ofMapping t.mapping with
  | error e =>
    refine ⟨.error e, Build.statements_answers_error hm b, ?_, ?_, ?_⟩
    · rintro _ ⟨⟩
      rfl
    · rintro _ ⟨⟩
    · rintro _ ⟨⟩
  | ok m =>
    refine ⟨_, Build.statements_answers hm b, ?_, ?_, ?_⟩
    · rintro _ ⟨⟩
    · intro ss hss s hs
      obtain ⟨ds, hds, rfl⟩ := map_eq_ok_iff.mp hss
      obtain ⟨y, hy, rfl⟩ := List.mem_map.mp hs
      have hfolded := (List.nodup_flatMap.mp ((Build.built_of_drafts hds).nodup_names hm)).1 y hy
      exact nodup_names_of_folded hfolded
    · rintro _ ⟨⟩
      constructor
      · intro k name items h
        refine ⟨fun hnone => ?_, fun item hitem f hf hnull => ?_, fun ss hss => ?_⟩
        · rw [h.drafts_of_keyless hnone]
          rfl
        · obtain ⟨e, hfails⟩ := h.exists_error_of_null hitem hf hnull
          exact ⟨e, by rw [hfails]; rfl⟩
        · obtain ⟨ds, hds, rfl⟩ := map_eq_ok_iff.mp hss
          exact h.keyedRows hds
      · intro k name c h
        constructor
        · rintro rfl
          rw [h.drafts_of_none]
          rfl
        · intro ss hss
          obtain ⟨ds, hds, rfl⟩ := map_eq_ok_iff.mp hss
          exact h.conditionedRows hds

/-- An entity type for examples: it has neither a key nor a table. -/
def EntityType.tableless : EntityType :=
  ⟨"Note", ⟨"Note", " ", [⟨"text", "text", .column, .required .string⟩]⟩⟩

/-- A type without a key is not refused for this alone: when its table is blank, that comes first,
even for no instances. -/
theorem blank_table_before_missing_key :
    ¬∀ (d : Dialect) (t : EntityType) (xs : List Instance) (size : Nat),
      (∀ f ∈ t.mapping.members, f.kind.isKey = false) →
        t.Answers ((Build.updateBatch xs size).statements d t)
          (.error (.keyRequired t.mapping.entity "update_batch")) := by
  intro h
  have hkey := (h .sqlite .tableless [] 1 (by decide) .empty (Catalog.serves_empty _)).1
  have hinvalid : Metadata.ofMapping EntityType.tableless.mapping =
      .error (.mapping "Note" .blankTable) := by decide
  have htable := (Build.statements_answers_error (d := .sqlite) hinvalid
    (.updateBatch [] 1) .empty (Catalog.serves_empty _)).1
  rw [hkey] at htable
  cases htable

end EntitySql
