import EntitySql.Proofs.Query.Phrases
import EntitySql.Proofs.Statement.Batches

/-!
# Forms of drafts

The phrase and the parameters of each kind of draft that is built without a fault, and
the few ways in which the drafts of every operation are put together from such kinds.
-/

namespace EntitySql

variable {d : Dialect} {m : Metadata} {suffix : String} {fs keys : List Field} {x y : Draft}

/-- Assignments hold one placeholder for each field. -/
theorem Field.slots_assignments (separator suffix : String) (fs : List Field) :
    (Phrase.join separator (fs.map (Field.assignment suffix))).slots =
      fs.map (Field.parameterName suffix) := by
  rw [Phrase.slots_join, List.flatMap_map]
  exact List.map_eq_flatMap.symm

/-- Assignments of listed fields hold one placeholder for each field that has a value. -/
theorem slots_listedDraft (d : Dialect) (fs : List Field) :
    (listedDraft d fs).phrase.slots = (listedDraft d fs).parameters.map (·.name) := by
  show (Phrase.join ", " (fs.map nullableAssignment)).slots =
    ((Field.present fs).map (Field.parameter d "")).map (·.name)
  rw [Phrase.slots_join, List.flatMap_map, Field.names_parameters]
  induction fs with
  | nil => rfl
  | cons f fs ih =>
    rw [List.flatMap_cons, ih]
    cases hnull : f.2.isNull <;>
      simp [Field.present, nullableAssignment, hnull, Field.assignment]

/-- An insertion writes the columns and the placeholders of the fields that have a value. -/
theorem insertDraft_eq_ok (h : insertDraft d m suffix fs = .ok x) :
    Field.present fs ≠ [] ∧
      x.phrase =
        .text ("INSERT INTO " ++ m.table ++ " (" ++
          ", ".intercalate ((Field.present fs).map (·.1.column)) ++ ") VALUES (") ::
          (Phrase.join ", " ((Field.present fs).map fun f => [.slot (f.parameterName suffix)]) ++
            [.text ")"]) ∧
      x.parameters = (Field.present fs).map (Field.parameter d suffix) := by
  unfold insertDraft at h
  dsimp only at h
  split at h
  · cases h
  · rename_i hne
    cases h
    exact ⟨fun hnil => hne (by simp [hnil]), rfl, rfl⟩

/-- The condition on a key compares every key with its value. -/
theorem keyClause_eq_ok (h : keyClause d m suffix keys = .ok x) :
    (∀ f ∈ keys, f.2.isNull = false) ∧
      x.phrase = Phrase.join " AND " (keys.map (Field.assignment suffix)) ∧
      x.parameters = keys.map (Field.parameter d suffix) := by
  unfold keyClause at h
  split at h
  · cases h
  · rename_i hnone
    cases h
    exact ⟨fun f hf => by simpa using List.find?_eq_none.mp hnone f hf, rfl, rfl⟩

/-- Assignments are those of the fields that have a value. -/
theorem assignmentsDraft_eq_ok (h : assignmentsDraft d m suffix fs = .ok x) :
    Field.present fs ≠ [] ∧
      x.phrase = Phrase.join ", " ((Field.present fs).map (Field.assignment suffix)) ∧
      x.parameters = (Field.present fs).map (Field.parameter d suffix) := by
  unfold assignmentsDraft at h
  dsimp only at h
  split at h
  · cases h
  · rename_i hne
    cases h
    exact ⟨fun hnil => hne (by simp [hnil]), rfl, rfl⟩

/-- An update of one row is its assignments and then the condition on its key. -/
theorem updateDraft_eq_ok (h : updateDraft d m suffix fs keys = .ok x) :
    ∃ assignments condition, assignmentsDraft d m suffix fs = .ok assignments ∧
      keyClause d m suffix keys = .ok condition ∧
      x.phrase = (updateAll m assignments).phrase ++ .text " WHERE " :: condition.phrase ∧
      x.parameters = assignments.parameters ++ condition.parameters := by
  obtain ⟨assignments, ha, hrest⟩ := bind_eq_ok_iff.mp h
  obtain ⟨condition, hc, hx⟩ := bind_eq_ok_iff.mp hrest
  cases hx
  refine ⟨assignments, condition, ha, hc, rfl, ?_⟩
  simp [Draft.join, updateAll]

/-- A deletion of one row is restricted to its key. -/
theorem deleteDraft_eq_ok (h : deleteDraft d m suffix keys = .ok x) :
    ∃ condition, keyClause d m suffix keys = .ok condition ∧
      x.phrase = (deleteAll m).phrase ++ .text " WHERE " :: condition.phrase ∧
      x.parameters = condition.parameters := by
  obtain ⟨condition, hc, hx⟩ := bind_eq_ok_iff.mp h
  cases hx
  refine ⟨condition, hc, rfl, ?_⟩
  simp [Draft.join, deleteAll]

/-- A restricted draft ends with the bound form of its condition, whose parameters come last and
avoid the names before them. -/
theorem filtered_eq_ok {c : Condition} (h : x.filtered d m c = .ok y) :
    ∃ ps bound b, (⟨m, d, ""⟩ : Surroundings).Grows
        (Binder.avoiding (x.parameters.map (·.name))) ps b ∧
      (⟨m, d, ""⟩ : Surroundings).Binds c ps bound ∧
      y.phrase = x.phrase ++ .text " WHERE " :: bound.phrase ∧
      y.parameters = x.parameters ++ ps := by
  unfold Draft.filtered at h
  obtain ⟨ps, hgrows, hbinds⟩ := (⟨m, d, ""⟩ : Surroundings).bindCondition_adds c
    (Binder.avoiding (x.parameters.map (·.name)))
  dsimp only at h
  rcases hrun : ((⟨m, d, ""⟩ : Surroundings).bindCondition c).runFrom
    (Binder.avoiding (x.parameters.map (·.name))) with ⟨e | bound, b⟩
  · rw [hrun] at h
    cases h
  · rw [hrun] at h hgrows hbinds
    cases h
    refine ⟨ps, bound, b, hgrows, hbinds bound rfl, rfl, ?_⟩
    show x.parameters ++ b.parameters = x.parameters ++ ps
    rw [hgrows.parameters_eq]
    rfl

/-- A draft that may be restricted stays as it is without a condition. -/
theorem filteredBy_eq_ok {c : Option Condition} (h : x.filteredBy d m c = .ok y) :
    y = x ∨ ∃ c', c = some c' ∧ x.filtered d m c' = .ok y := by
  cases c with
  | none => exact Or.inl (Except.ok.inj h).symm
  | some c => exact Or.inr ⟨c, rfl, h⟩

/-- Text behind a draft holds no placeholder. -/
theorem Draft.slots_thenText (x : Draft) (s : String) :
    (x.thenText s).phrase.slots = x.phrase.slots := by
  rw [Draft.thenText, Phrase.slots_append]
  exact List.append_nil _

/-- The placeholders of joined drafts are the parameters of all in order. -/
theorem Draft.slots_join {separator : String} {xs : List Draft}
    (h : ∀ x ∈ xs, x.phrase.slots = x.parameters.map (·.name)) :
    (Draft.join separator xs).phrase.slots =
      (Draft.join separator xs).parameters.map (·.name) := by
  show Phrase.slots (Phrase.join separator (xs.map (·.phrase))) =
    (xs.flatMap (·.parameters)).map (·.name)
  rw [Phrase.slots_join, List.flatMap_map, List.map_flatMap]
  exact List.flatMap_congr h

/-- A condition adds its placeholders and its parameters at the end. -/
theorem Draft.slots_of_filteredBy {c : Option Condition}
    (hx : x.phrase.slots = x.parameters.map (·.name)) (h : x.filteredBy d m c = .ok y) :
    y.phrase.slots = y.parameters.map (·.name) := by
  rcases filteredBy_eq_ok h with rfl | ⟨c, rfl, h⟩
  · exact hx
  · obtain ⟨ps, bound, b, -, hbinds, hphrase, hparameters⟩ := filtered_eq_ok h
    rw [hphrase, hparameters, Phrase.slots_append, Phrase.slots_text, hbinds.slots_phrase, hx,
      List.map_append]

/-- The draft for the row of one instance, the names of whose parameters end in a suffix. -/
inductive RowDraft (d : Dialect) (t : EntityType) (m : Metadata) (suffix : String) : Draft → Prop
  | insert {x : Instance} {y : Draft}
      (h : insertDraft d m suffix (t.fields x m.insertableMembers) = .ok y) :
      RowDraft d t m suffix y
  | update {x : Instance} {y : Draft}
      (h : updateDraft d m suffix (t.fields x m.nonKeyMembers) (t.fields x m.keyMembers) = .ok y) :
      RowDraft d t m suffix y
  | delete {x : Instance} {y : Draft}
      (h : deleteDraft d m suffix (t.fields x m.keyMembers) = .ok y) :
      RowDraft d t m suffix y

/-- A draft for all rows, which a condition may then restrict. -/
inductive OpenDraft (d : Dialect) (t : EntityType) (m : Metadata) : Draft → Prop
  | delete : OpenDraft d t m (deleteAll m)
  | select : OpenDraft d t m (selectAll m m.selectFields)
  | project {p : Projection} {k : SelectKind} {text columns : String}
      (htext : (⟨m, d, ""⟩ : Surroundings).projectionText p = .ok text)
      (hcolumns : k.columns p text = .ok columns) : OpenDraft d t m (selectAll m columns)
  | count : OpenDraft d t m (selectAll m "COUNT(1) CT")
  | assign {x : Instance} {ms : List Member} {y : Draft} (hsub : ms.Sublist m.members)
      (h : assignmentsDraft d m "" (t.fields x ms) = .ok y) : OpenDraft d t m (updateAll m y)
  | list {x : Instance} {ms : List Member} (hsub : ms.Sublist m.members) :
      OpenDraft d t m (updateAll m (listedDraft d (t.fields x ms)))
  | set {assignments : List Assignment} {bound : List BoundAssignment} {b : Binder}
      (h : ((⟨m, d, ""⟩ : Surroundings).bindAssignments assignments).runFrom (Binder.avoiding []) =
        (.ok bound, b)) :
      OpenDraft d t m (updateAll m ⟨BoundAssignment.list bound, b.parameters⟩)

/-- The drafts of an operation: one row, the rows of a batch in groups, or a draft for all rows and
what restricts and orders it. -/
inductive BuiltDrafts (d : Dialect) (t : EntityType) (m : Metadata) : List Draft → Prop
  | row {y : Draft} (h : RowDraft d t m "" y) : BuiltDrafts d t m [y]
  | insertion {y : Draft} (h : RowDraft d t m "" y) :
      BuiltDrafts d t m [y.thenText (identityText d m)]
  | batch {groups : List (List Draft)}
      (h : ∀ i (hi : i < groups.flatten.length),
        RowDraft d t m (batchSuffix i) (groups.flatten.get ⟨i, hi⟩)) :
      BuiltDrafts d t m (groups.map (Draft.join d.terminator))
  | restricted {x y : Draft} {c : Option Condition} (hx : OpenDraft d t m x)
      (h : x.filteredBy d m c = .ok y) : BuiltDrafts d t m [y]
  | ordered {x y : Draft} {c : Option Condition} {order : Option (List SortKey)}
      {keys : Option String} (hx : OpenDraft d t m x) (h : x.filteredBy d m c = .ok y)
      (horder : Build.orderKeys? d m order = .ok keys) :
      BuiltDrafts d t m [y.thenText (d.orderClause keys)]

variable {t : EntityType} {ds : List Draft}

/-- A batch whose items are drafted as rows consists of rows, each with its place in the batch. -/
theorem BuiltDrafts.of_draftBatch {α : Type} {size : Nat} {draft : String → α → Except Fault Draft}
    {items : List α} (hrow : ∀ suffix item y, draft suffix item = .ok y → RowDraft d t m suffix y)
    (h : draftBatch d size draft items = .ok ds) : BuiltDrafts d t m ds := by
  obtain ⟨groups, hparts, rfl⟩ := draftBatch_eq_ok h
  refine .batch fun i hi => ?_
  have hitem : i < items.zipIdx.length := by rwa [hparts.length_eq]
  have hdraft := (List.forall₂_iff_get.mp hparts).2 i hitem hi
  refine hrow _ (items.zipIdx.get ⟨i, hitem⟩).1 _ ?_
  rw [← hdraft]
  simp [draftAt]

namespace Build

variable {b : Build}

private theorem single_eq_ok {e : Except Fault Draft} (h : single e = .ok ds) :
    ∃ y, e = .ok y ∧ ds = [y] := by
  obtain ⟨y, hy, rfl⟩ := map_eq_ok_iff.mp h
  exact ⟨y, hy, rfl⟩

/-- The condition that an operation asks for is the one that it is given. -/
theorem requireCondition_eq_ok_iff {operation : String} {c : Option Condition} {c' : Condition} :
    requireCondition m operation c = .ok c' ↔ c = some c' := by
  cases c <;> simp [requireCondition]

/-- The update of the rows of a condition by some members has a condition that restricts it. -/
theorem draftMatching_eq_ok {operation : String} {keep : Member → Bool} {x : Instance}
    {c : Option Condition} (h : draftMatching d t m operation keep x c = .ok y) :
    ∃ c' assignments, c = some c' ∧
      assignmentsDraft d m "" (t.fields x (m.nonKeyMembers.filter keep)) = .ok assignments ∧
      (updateAll m assignments).filtered d m c' = .ok y := by
  obtain ⟨c', hc, h⟩ := bind_eq_ok_iff.mp h
  obtain ⟨assignments, ha, h⟩ := bind_eq_ok_iff.mp h
  exact ⟨c', assignments, requireCondition_eq_ok_iff.mp hc, ha, h⟩

/-- The update of the rows of a condition by listed members has a condition that restricts it, and
some of the listed members are persisted. -/
theorem draftListed_eq_ok {x : Instance} {names : List String} {c : Option Condition}
    (h : draftListed d t m x names c = .ok y) :
    ∃ c', c = some c' ∧ (m.columnMembers.filter fun f => isListed names f.name) ≠ [] ∧
      (updateAll m (listedDraft d (t.fields x
        (m.columnMembers.filter fun f => isListed names f.name)))).filtered d m c' = .ok y := by
  obtain ⟨c', hc, h⟩ := bind_eq_ok_iff.mp h
  refine ⟨c', requireCondition_eq_ok_iff.mp hc, ?_⟩
  cases hempty : names.isEmpty with
  | true =>
    rw [hempty] at h
    cases h
  | false =>
    rw [hempty] at h
    cases hunknown : names.find? fun n => (m.member? n).isNone with
    | some n =>
      rw [hunknown] at h
      cases h
    | none =>
      rw [hunknown] at h
      cases hlisted : (m.columnMembers.filter fun f => isListed names f.name).isEmpty with
      | true =>
        simp only [hlisted] at h
        cases h
      | false =>
        simp only [hlisted] at h
        exact ⟨List.isEmpty_eq_false_iff.mp hlisted, h⟩

/-- The update of the rows of a condition by expressions has a condition that restricts it. -/
theorem draftSet_eq_ok {assignments : List Assignment} {c : Option Condition}
    (h : draftSet d m assignments c = .ok y) :
    ∃ c' bound b, c = some c' ∧
      ((⟨m, d, ""⟩ : Surroundings).bindAssignments assignments).runFrom (Binder.avoiding []) =
        (.ok bound, b) ∧
      (updateAll m ⟨BoundAssignment.list bound, b.parameters⟩).filtered d m c' = .ok y := by
  obtain ⟨c', hc, h⟩ := bind_eq_ok_iff.mp h
  split at h
  · cases h
  · rename_i hset
    exact ⟨c', _, _, requireCondition_eq_ok_iff.mp hc, hset, h⟩

private theorem built_of_matching {operation : String} {keep : Member → Bool} {x : Instance}
    {c : Option Condition} (h : draftMatching d t m operation keep x c = .ok y) :
    BuiltDrafts d t m [y] := by
  obtain ⟨c, assignments, -, ha, h⟩ := draftMatching_eq_ok h
  have hsub : (m.nonKeyMembers.filter keep).Sublist m.members :=
    List.filter_sublist.trans (List.filter_sublist.trans List.filter_sublist)
  exact .restricted (c := some c) (.assign hsub ha) h

private theorem built_of_listed {x : Instance} {names : List String} {c : Option Condition}
    (h : draftListed d t m x names c = .ok y) : BuiltDrafts d t m [y] := by
  obtain ⟨c, -, -, h⟩ := draftListed_eq_ok h
  exact .restricted (c := some c) (.list (List.filter_sublist.trans List.filter_sublist)) h

private theorem built_of_set {assignments : List Assignment} {c : Option Condition}
    (h : draftSet d m assignments c = .ok y) : BuiltDrafts d t m [y] := by
  obtain ⟨c, bound, b, -, hset, h⟩ := draftSet_eq_ok h
  exact .restricted (c := some c) (.set hset) h

/-- The drafts of every operation are put together in one of the few ways. -/
theorem built_of_drafts (h : b.drafts d t m = .ok ds) : BuiltDrafts d t m ds := by
  cases b with
  | insert x =>
    obtain ⟨y, hy, rfl⟩ := single_eq_ok h
    obtain ⟨row, hrow, hy⟩ := bind_eq_ok_iff.mp hy
    cases hy
    exact .insertion (.insert hrow)
  | insertBatch xs size =>
    unfold drafts at h
    refine .of_draftBatch ?_ h
    exact fun _ _ _ hrow => .insert hrow
  | update x =>
    obtain ⟨y, hy, rfl⟩ := single_eq_ok h
    obtain ⟨_, _, hrow⟩ := bind_eq_ok_iff.mp hy
    exact .row (.update hrow)
  | updateBatch xs size =>
    obtain ⟨_, _, h⟩ := bind_eq_ok_iff.mp h
    refine .of_draftBatch ?_ h
    exact fun _ _ _ hrow => .update hrow
  | updateWhere x c | updateIgnoring x ignored c =>
    obtain ⟨y, hy, rfl⟩ := single_eq_ok h
    exact built_of_matching hy
  | updateFields x names c =>
    obtain ⟨y, hy, rfl⟩ := single_eq_ok h
    exact built_of_listed hy
  | updateSet assignments c =>
    obtain ⟨y, hy, rfl⟩ := single_eq_ok h
    exact built_of_set hy
  | delete x =>
    obtain ⟨y, hy, rfl⟩ := single_eq_ok h
    obtain ⟨_, _, hrow⟩ := bind_eq_ok_iff.mp hy
    exact .row (.delete hrow)
  | deleteBatch xs size =>
    obtain ⟨_, _, h⟩ := bind_eq_ok_iff.mp h
    refine .of_draftBatch ?_ h
    exact fun _ _ _ hrow => .delete hrow
  | deleteWhere c =>
    obtain ⟨y, hy, rfl⟩ := single_eq_ok h
    obtain ⟨c, _, hy⟩ := bind_eq_ok_iff.mp hy
    exact .restricted (c := some c) .delete hy
  | select c order =>
    obtain ⟨y, hy, rfl⟩ := single_eq_ok h
    obtain ⟨draft, hdraft, hy⟩ := bind_eq_ok_iff.mp hy
    obtain ⟨keys, hkeys, hy⟩ := bind_eq_ok_iff.mp hy
    cases hy
    exact .ordered .select hdraft hkeys
  | selectProjection c p k =>
    obtain ⟨y, hy, rfl⟩ := single_eq_ok h
    obtain ⟨text, htext, hy⟩ := bind_eq_ok_iff.mp hy
    obtain ⟨columns, hcolumns, hy⟩ := bind_eq_ok_iff.mp hy
    exact .restricted (.project htext hcolumns) hy
  | count c =>
    obtain ⟨y, hy, rfl⟩ := single_eq_ok h
    exact .restricted .count hy

end Build

/-- The statements for an entity type: those of an operation, and the queries for the number of
rows and for a page of the rows of one. The sort keys of a page are those of an order, or none. -/
inductive Statement.Built (d : Dialect) (t : EntityType) : Statement → Prop
  | operation {c c' : Catalog} {b : Build} {ss : List Statement} {s : Statement} (hc : c.Serves t)
      (h : (b.statements d t).runFrom c = (.ok ss, c')) (hs : s ∈ ss) : Built d t s
  | pageCount {s : Statement} (hs : Built d t s) : Built d t s.pageCount
  | pageRows {c c' : Catalog} {order : Option (List SortKey)} {keys : Option String}
      {s : Statement} (hs : Built d t s) (hc : c.Serves t)
      (h : (orderText? d t order).runFrom c = (.ok keys, c')) (w : Window) :
      Built d t (s.pageRows d keys w)

/-- An entity type for examples: one member is named as the parameter of another could be. -/
def EntityType.parts : EntityType :=
  ⟨"Part", ⟨"Part", "PARTS", [⟨"id", "ID", .key, .required .int64⟩,
    ⟨"size", "SIZE", .column, .optional .int64⟩, ⟨"size_1", "WIDTH", .column, .optional .int64⟩]⟩⟩

end EntitySql
