import EntitySql.Proofs.Statement.Forms

/-!
# One row and many rows

An insertion, an update and a deletion exist for one instance and for a list of them.
A batch writes for each instance what the operation on that instance alone writes, with
the place in the list behind the name of every parameter. Where the batch is cut into
statements changes neither this nor the fault of a batch that cannot be written.
-/

namespace EntitySql

/-- A piece with a text behind the name of its parameter. -/
def Piece.suffixed (suffix : String) : Piece → Piece
  | .text s => .text s
  | .slot name => .slot (name ++ suffix)

/-- A draft with a text behind the name of each parameter. -/
def Draft.suffixed (suffix : String) (x : Draft) : Draft :=
  ⟨x.phrase.map (Piece.suffixed suffix),
    x.parameters.map fun p => { p with name := p.name ++ suffix }⟩

/-- What can be done with the row of one instance, and with the rows of several. -/
inductive RowOperation where
  | insert
  | update
  | delete
  deriving DecidableEq, Repr

namespace RowOperation

/-- The operation on one instance. -/
def one : RowOperation → Instance → Build
  | .insert, x => .insert x
  | .update, x => .update x
  | .delete, x => .delete x

/-- The operation on several instances, in statements for at most `size` of them. -/
def many : RowOperation → List Instance → Nat → Build
  | .insert, xs, size => .insertBatch xs size
  | .update, xs, size => .updateBatch xs size
  | .delete, xs, size => .deleteBatch xs size

/-- The name of the operation on several instances in faults. -/
def batchName : RowOperation → String
  | .insert => "insert_batch"
  | .update => "update_batch"
  | .delete => "delete_batch"

/-- What is written after the row of a single instance: an insertion asks for the generated key. -/
def tail (k : RowOperation) (d : Dialect) (m : Metadata) : String :=
  match k with
  | .insert => identityText d m
  | .update => ""
  | .delete => ""

/-- Whether an entity type has the key that the operation needs; an insertion needs none. -/
def HasKeys (k : RowOperation) (m : Metadata) : Prop :=
  k = .insert ∨ m.keyMembers ≠ []

/-- The draft for the row of an instance. -/
def draft (k : RowOperation) (d : Dialect) (t : EntityType) (m : Metadata) (suffix : String)
    (x : Instance) : Except Fault Draft :=
  match k with
  | .insert => insertDraft d m suffix (t.fields x m.insertableMembers)
  | .update => updateDraft d m suffix (t.fields x m.nonKeyMembers) (t.fields x m.keyMembers)
  | .delete => deleteDraft d m suffix (t.fields x m.keyMembers)

end RowOperation

section Suffixes

variable {d : Dialect} {m : Metadata} {suffix : String} {fs keys : List Field}

/-- A text behind the names does not change how phrases are joined. -/
theorem Phrase.map_suffixed_join (separator : String) (ps : List Phrase) :
    (Phrase.join separator ps).map (Piece.suffixed suffix) =
      Phrase.join separator (ps.map (·.map (Piece.suffixed suffix))) := by
  induction ps with
  | nil => rfl
  | cons p ps ih =>
    cases ps with
    | nil => rfl
    | cons q ps => simpa [Phrase.join, Piece.suffixed] using ih

/-- A text behind the names does not change how drafts are joined. -/
theorem Draft.suffixed_join (separator : String) (xs : List Draft) :
    (Draft.join separator xs).suffixed suffix =
      Draft.join separator (xs.map (·.suffixed suffix)) := by
  simp [Draft.suffixed, Draft.join, Phrase.map_suffixed_join, List.map_flatMap, List.flatMap_map,
    Function.comp_def]

/-- The parameter of a field has its suffix behind the name of the member. -/
theorem Field.suffixed_parameter (f : Field) :
    { f.parameter d "" with name := (f.parameter d "").name ++ suffix } = f.parameter d suffix := by
  simp [Field.parameter, Parameter.bound, Field.parameterName]

/-- The assignment of a field has its suffix behind the name of the member. -/
theorem Field.suffixed_assignment (f : Field) :
    (f.assignment "").map (Piece.suffixed suffix) = f.assignment suffix := by
  simp [Field.assignment, Piece.suffixed, Field.parameterName]

private theorem map_parameter_suffixed :
    ((fs.map (Field.parameter d "")).map fun p => { p with name := p.name ++ suffix }) =
      fs.map (Field.parameter d suffix) := by
  rw [List.map_map]
  exact List.map_congr_left fun f _ => f.suffixed_parameter

private theorem join_assignment_suffixed (separator : String) :
    (Phrase.join separator (fs.map (Field.assignment ""))).map (Piece.suffixed suffix) =
      Phrase.join separator (fs.map (Field.assignment suffix)) := by
  rw [Phrase.map_suffixed_join, List.map_map]
  congr 1
  exact List.map_congr_left fun f _ => f.suffixed_assignment

/-- An insertion with a suffix is the insertion without one, and the suffix put in afterwards. -/
theorem insertDraft_suffix (d : Dialect) (m : Metadata) (suffix : String) (fs : List Field) :
    insertDraft d m suffix fs = (insertDraft d m "" fs).map (Draft.suffixed suffix) := by
  unfold insertDraft
  dsimp only
  split
  · rfl
  · have hslots : (Phrase.join ", " ((Field.present fs).map fun f =>
          [Piece.slot (f.parameterName "")])).map (Piece.suffixed suffix) =
        Phrase.join ", " ((Field.present fs).map fun f => [.slot (f.parameterName suffix)]) := by
      rw [Phrase.map_suffixed_join, List.map_map]
      simp [Function.comp_def, Piece.suffixed, Field.parameterName]
    simp only [Except.map, Draft.suffixed, map_parameter_suffixed, List.map_cons, List.map_append,
      hslots, Piece.suffixed, List.map_nil]

/-- The condition on a key with a suffix. -/
theorem keyClause_suffix (d : Dialect) (m : Metadata) (suffix : String) (keys : List Field) :
    keyClause d m suffix keys = (keyClause d m "" keys).map (Draft.suffixed suffix) := by
  unfold keyClause
  cases keys.find? (·.2.isNull) with
  | some f => rfl
  | none =>
    simp only [Except.map, Draft.suffixed, map_parameter_suffixed, join_assignment_suffixed]

/-- Assignments with a suffix. -/
theorem assignmentsDraft_suffix (d : Dialect) (m : Metadata) (suffix : String) (fs : List Field) :
    assignmentsDraft d m suffix fs = (assignmentsDraft d m "" fs).map (Draft.suffixed suffix) := by
  unfold assignmentsDraft
  dsimp only
  split
  · rfl
  · simp only [Except.map, Draft.suffixed, map_parameter_suffixed, join_assignment_suffixed]

/-- An update with a suffix. -/
theorem updateDraft_suffix (d : Dialect) (m : Metadata) (suffix : String) (fs keys : List Field) :
    updateDraft d m suffix fs keys = (updateDraft d m "" fs keys).map (Draft.suffixed suffix) := by
  unfold updateDraft
  rw [assignmentsDraft_suffix, keyClause_suffix]
  cases assignmentsDraft d m "" fs with
  | error e => rfl
  | ok assignments =>
    cases keyClause d m "" keys with
    | error e => rfl
    | ok condition =>
      show Except.ok (Draft.join " WHERE "
          [updateAll m (assignments.suffixed suffix), condition.suffixed suffix]) =
        Except.ok ((Draft.join " WHERE " [updateAll m assignments, condition]).suffixed suffix)
      rw [Draft.suffixed_join]
      rfl

/-- A deletion with a suffix. -/
theorem deleteDraft_suffix (d : Dialect) (m : Metadata) (suffix : String) (keys : List Field) :
    deleteDraft d m suffix keys = (deleteDraft d m "" keys).map (Draft.suffixed suffix) := by
  unfold deleteDraft
  rw [keyClause_suffix]
  cases keyClause d m "" keys with
  | error e => rfl
  | ok condition =>
    show Except.ok (Draft.join " WHERE " [deleteAll m, condition.suffixed suffix]) =
      Except.ok ((Draft.join " WHERE " [deleteAll m, condition]).suffixed suffix)
    rw [Draft.suffixed_join]
    rfl

/-- The draft for a row with a suffix is the one without, and the suffix put in afterwards. -/
theorem RowOperation.draft_suffix (k : RowOperation) (d : Dialect) (t : EntityType) (m : Metadata)
    (suffix : String) (x : Instance) :
    k.draft d t m suffix x = (k.draft d t m "" x).map (Draft.suffixed suffix) := by
  cases k with
  | insert => exact insertDraft_suffix d m suffix _
  | update => exact updateDraft_suffix d m suffix _ _
  | delete => exact deleteDraft_suffix d m suffix _

end Suffixes

namespace Metadata

variable {m : Metadata}

/-- With a key, an operation that needs one goes on. -/
theorem requireKeys_of_keys {operation : String} (h : m.keyMembers ≠ []) :
    m.requireKeys operation = .ok () := by
  have hkeys : m.hasKeys = true := by
    unfold Metadata.hasKeys
    rw [List.isEmpty_eq_false_iff.mpr h]
    rfl
  rw [Metadata.requireKeys, if_pos hkeys]

/-- Without a key, an operation that needs one fails. -/
theorem requireKeys_of_keyless {operation : String} (h : m.keyMembers = []) :
    m.requireKeys operation = .error (.keyRequired m.entity operation) := by
  have hkeys : ¬m.hasKeys = true := by simp [Metadata.hasKeys, h]
  rw [Metadata.requireKeys, if_neg hkeys]

end Metadata

namespace RowOperation

variable {k : RowOperation} {d : Dialect} {t : EntityType} {m : Metadata}

/-- The operation on one instance drafts its row and what is written after it. -/
theorem drafts_one (hkeys : k.HasKeys m) (x : Instance) :
    ((k.one x).drafts d t m).map (·.map (Draft.statement d)) =
      (k.draft d t m "" x).map fun y => [(y.thenText (k.tail d m)).statement d] := by
  have hnothing (y : Draft) : (y.thenText "").statement d = y.statement d := by
    simp [Draft.thenText, Draft.statement, Phrase.render, Piece.render, String.join_append]
  cases k with
  | insert =>
    show ((insertDraft d m "" _ >>= fun y => .ok (y.thenText (identityText d m))).map
      fun y => [y]).map _ = (insertDraft d m "" _).map _
    cases insertDraft d m "" (t.fields x m.insertableMembers) <;> rfl
  | update =>
    have hsome : m.keyMembers ≠ [] := hkeys.resolve_left (by decide)
    show (((m.requireKeys "update" >>= fun _ => updateDraft d m "" _ _).map fun y => [y]).map _) =
      (updateDraft d m "" _ _).map _
    rw [Metadata.requireKeys_of_keys hsome]
    show ((updateDraft d m "" _ _).map fun y => [y]).map _ = (updateDraft d m "" _ _).map _
    cases updateDraft d m "" (t.fields x m.nonKeyMembers) (t.fields x m.keyMembers) with
    | error e => rfl
    | ok y => exact congrArg (fun s => Except.ok [s]) (hnothing y).symm
  | delete =>
    have hsome : m.keyMembers ≠ [] := hkeys.resolve_left (by decide)
    show (((m.requireKeys "delete" >>= fun _ => deleteDraft d m "" _).map fun y => [y]).map _) =
      (deleteDraft d m "" _).map _
    rw [Metadata.requireKeys_of_keys hsome]
    show ((deleteDraft d m "" _).map fun y => [y]).map _ = (deleteDraft d m "" _).map _
    cases deleteDraft d m "" (t.fields x m.keyMembers) with
    | error e => rfl
    | ok y => exact congrArg (fun s => Except.ok [s]) (hnothing y).symm

/-- The operation on several instances drafts their rows and joins them chunk by chunk. -/
theorem drafts_many (hkeys : k.HasKeys m) (xs : List Instance) (size : Nat) :
    (k.many xs size).drafts d t m =
      (xs.zipIdx.mapM (draftAt (k.draft d t m))).map fun rows =>
        (chunks size rows).map (Draft.join d.terminator) := by
  have hbatch : (k.many xs size).drafts d t m = draftBatch d size (k.draft d t m) xs := by
    cases k with
    | insert => rfl
    | update =>
      have hsome : m.keyMembers ≠ [] := hkeys.resolve_left (by decide)
      show (m.requireKeys "update_batch" >>= fun _ => draftBatch d size _ xs) = _
      rw [Metadata.requireKeys_of_keys hsome]
      rfl
    | delete =>
      have hsome : m.keyMembers ≠ [] := hkeys.resolve_left (by decide)
      show (m.requireKeys "delete_batch" >>= fun _ => draftBatch d size _ xs) = _
      rw [Metadata.requireKeys_of_keys hsome]
      rfl
  rw [hbatch]
  exact mapM_chunks (Draft.join d.terminator) size xs.zipIdx

/-- Without the key that it needs, the operation on several instances does not run. -/
theorem drafts_many_of_keyless (hkeys : ¬k.HasKeys m) (xs : List Instance) (size : Nat) :
    (k.many xs size).drafts d t m = .error (.keyRequired m.entity k.batchName) := by
  have hnone : m.keyMembers = [] := by
    by_contra h
    exact hkeys (Or.inr h)
  cases k with
  | insert => exact absurd (Or.inl rfl) hkeys
  | update =>
    show (m.requireKeys "update_batch" >>= fun _ => draftBatch d size _ xs) = _
    rw [Metadata.requireKeys_of_keyless hnone]
    rfl
  | delete =>
    show (m.requireKeys "delete_batch" >>= fun _ => draftBatch d size _ xs) = _
    rw [Metadata.requireKeys_of_keyless hnone]
    rfl

/-- The fault of an operation on several instances: that of the mapping, or else that of the missing
key, or else that of the operation on the first instance that it fails on. -/
inductive FirstFault (k : RowOperation) (d : Dialect) (t : EntityType) (xs : List Instance) :
    Fault → Prop
  | mapping {e : Fault} (h : Metadata.ofMapping t.mapping = .error e) : FirstFault k d t xs e
  | keys {m : Metadata} (hm : Metadata.ofMapping t.mapping = .ok m) (hkeys : ¬k.HasKeys m) :
      FirstFault k d t xs (.keyRequired m.entity k.batchName)
  | item {m : Metadata} {i : Nat} {x : Instance} {e : Fault}
      (hm : Metadata.ofMapping t.mapping = .ok m) (hkeys : k.HasKeys m) (hx : xs[i]? = some x)
      (hbefore : ∀ j < i, ∀ y, xs[j]? = some y → ∃ s,
        t.Answers ((k.one y).statements d t) (.ok [s]))
      (h : t.Answers ((k.one x).statements d t) (.error e)) : FirstFault k d t xs e

/-- The rows of an operation on several instances: for each instance in order what the operation on
it alone writes, without what follows the row, and with the place in the list behind the name of
every parameter and in every placeholder. -/
def Rows (k : RowOperation) (d : Dialect) (t : EntityType) (m : Metadata) (xs : List Instance)
    (rows : List Draft) : Prop :=
  List.Forall₂ (fun item row => ∃ y : Draft,
    t.Answers ((k.one item.1).statements d t) (.ok [(y.thenText (k.tail d m)).statement d]) ∧
      y.phrase.slots = y.parameters.map (·.name) ∧
      row = y.suffixed (batchSuffix item.2)) xs.zipIdx rows

/-- The placeholders of the draft for a row are its parameters in order. -/
theorem slots_draft {suffix : String} {x : Instance} {y : Draft}
    (h : k.draft d t m suffix x = .ok y) : y.phrase.slots = y.parameters.map (·.name) := by
  cases k with
  | insert =>
    obtain ⟨-, hphrase, hparameters⟩ := insertDraft_eq_ok h
    have hslots (fs : List Field) : (fs.map fun f => [Piece.slot (f.parameterName suffix)]) =
        (fs.map (Field.parameterName suffix)).map fun name => [.slot name] := by simp
    rw [hphrase, hparameters, Phrase.slots_text, Phrase.slots_append, hslots,
      Phrase.slots_join_slots, Field.names_parameters]
    exact List.append_nil _
  | update =>
    obtain ⟨assignments, condition, ha, hc, hphrase, hparameters⟩ := updateDraft_eq_ok h
    obtain ⟨-, ha, ha'⟩ := assignmentsDraft_eq_ok ha
    obtain ⟨-, hc, hc'⟩ := keyClause_eq_ok hc
    have hhead : (updateAll m assignments).phrase.slots = assignments.phrase.slots := by
      exact Phrase.slots_text _ _
    rw [hphrase, hparameters, Phrase.slots_append, Phrase.slots_text, hhead, ha, ha', hc, hc',
      Field.slots_assignments, Field.slots_assignments, List.map_append, Field.names_parameters,
      Field.names_parameters]
  | delete =>
    obtain ⟨condition, hc, hphrase, hparameters⟩ := deleteDraft_eq_ok h
    obtain ⟨-, hc, hc'⟩ := keyClause_eq_ok hc
    have hhead : (deleteAll m).phrase.slots = [] := rfl
    rw [hphrase, hparameters, Phrase.slots_append, Phrase.slots_text, hhead, hc, hc',
      Field.slots_assignments, Field.names_parameters]
    rfl

/-- On a valid type with the key that it needs, the operation on one instance answers with its row
and what is written after it. -/
theorem answers_one (hm : Metadata.ofMapping t.mapping = .ok m) (hkeys : k.HasKeys m)
    (x : Instance) :
    t.Answers ((k.one x).statements d t)
      ((k.draft d t m "" x).map fun y => [(y.thenText (k.tail d m)).statement d]) :=
  (Build.statements_answers hm (k.one x)).congr (drafts_one hkeys x)

/-- When each row is drafted, the operation on several instances gives their rows, cut anywhere. -/
theorem answers_many_of_ok (hm : Metadata.ofMapping t.mapping = .ok m) (hkeys : k.HasKeys m)
    {xs : List Instance} {rows : List Draft}
    (h : xs.zipIdx.mapM (draftAt (k.draft d t m)) = .ok rows) (size : Nat) :
    t.Answers ((k.many xs size).statements d t)
      (.ok ((chunks size rows).map fun part => (Draft.join d.terminator part).statement d)) := by
  refine (Build.statements_answers hm (k.many xs size)).congr ?_
  rw [drafts_many hkeys, h]
  simp only [Except.map, List.map_map, Function.comp_def]

/-- When a row is not drafted, the operation on several instances fails, cut anywhere. -/
theorem answers_many_of_error (hm : Metadata.ofMapping t.mapping = .ok m) (hkeys : k.HasKeys m)
    {xs : List Instance} {e : Fault}
    (h : xs.zipIdx.mapM (draftAt (k.draft d t m)) = .error e) (size : Nat) :
    t.Answers ((k.many xs size).statements d t) (.error e) := by
  refine (Build.statements_answers hm (k.many xs size)).congr ?_
  rw [drafts_many hkeys, h]
  rfl

/-- The drafts of all rows are the rows of the operation. -/
theorem rows_of_mapM (hm : Metadata.ofMapping t.mapping = .ok m) (hkeys : k.HasKeys m)
    {xs : List Instance} {rows : List Draft}
    (h : xs.zipIdx.mapM (draftAt (k.draft d t m)) = .ok rows) : k.Rows d t m xs rows := by
  refine (mapM_eq_ok_iff.mp h).imp fun item row hrow => ?_
  have hdraft : k.draft d t m (batchSuffix item.2) item.1 = .ok row := hrow
  rw [draft_suffix] at hdraft
  obtain ⟨y, hy, rfl⟩ := map_eq_ok_iff.mp hdraft
  have hone := answers_one (d := d) hm hkeys item.1
  rw [hy] at hone
  exact ⟨y, hone, slots_draft hy, rfl⟩

/-- The first draft that fails gives the fault of the operation. -/
theorem firstFault_of_mapM (hm : Metadata.ofMapping t.mapping = .ok m) (hkeys : k.HasKeys m)
    {xs : List Instance} {e : Fault}
    (h : xs.zipIdx.mapM (draftAt (k.draft d t m)) = .error e) : k.FirstFault d t xs e := by
  obtain ⟨i, ⟨x, place⟩, hitem, hfault, hbefore⟩ := mapM_eq_error_iff.mp h
  rw [List.getElem?_zipIdx] at hitem
  obtain ⟨_, hx, heq⟩ := Option.map_eq_some_iff.mp hitem
  cases heq
  refine .item hm hkeys hx (fun j hj y hy => ?_) ?_
  · have hplace : xs.zipIdx[j]? = some (y, j) := by simp [List.getElem?_zipIdx, hy]
    obtain ⟨row, hrow⟩ := hbefore j hj (y, j) hplace
    have hdraft : k.draft d t m (batchSuffix j) y = .ok row := hrow
    rw [draft_suffix] at hdraft
    obtain ⟨z, hz, -⟩ := map_eq_ok_iff.mp hdraft
    have hone := answers_one (d := d) hm hkeys y
    rw [hz] at hone
    exact ⟨_, hone⟩
  · have hdraft : k.draft d t m (batchSuffix (0 + i)) x = .error e := hfault
    rw [draft_suffix] at hdraft
    have hone := answers_one (d := d) hm hkeys x
    cases hz : k.draft d t m "" x with
    | ok z =>
      rw [hz] at hdraft
      cases hdraft
    | error e' =>
      rw [hz] at hdraft hone
      cases hdraft
      exact hone

end RowOperation

/-- The size of its statements does not change what a batch does. With two sizes an operation on
several instances either fails with one fault, the first there is, or it succeeds: then the
statements of either size are the rows of the instances in order, each what the operation on the
instance alone writes, cut into as few groups of at most that size as can hold them. The texts of
all statements joined are the same, and so are all parameters. -/
theorem batch_independent_of_size (k : RowOperation) (d : Dialect) (t : EntityType)
    (xs : List Instance) (size₁ size₂ : Nat) :
    (∃ e, k.FirstFault d t xs e ∧
      t.Answers ((k.many xs size₁).statements d t) (.error e) ∧
      t.Answers ((k.many xs size₂).statements d t) (.error e)) ∨
    ∃ m rows ss₁ ss₂, Metadata.ofMapping t.mapping = .ok m ∧ k.HasKeys m ∧ k.Rows d t m xs rows ∧
      t.Answers ((k.many xs size₁).statements d t) (.ok ss₁) ∧
      t.Answers ((k.many xs size₂).statements d t) (.ok ss₂) ∧
      Cut d size₁ rows ss₁ ∧ Cut d size₂ rows ss₂ ∧
      d.terminator.intercalate (ss₁.map (·.text)) = d.terminator.intercalate (ss₂.map (·.text)) ∧
      ss₁.flatMap (·.parameters) = ss₂.flatMap (·.parameters) := by
  cases hm : Metadata.ofMapping t.mapping with
  | error e =>
    have hfails (size : Nat) := Build.statements_answers_error (d := d) hm (k.many xs size)
    exact Or.inl ⟨e, .mapping hm, hfails size₁, hfails size₂⟩
  | ok m =>
    by_cases hkeys : k.HasKeys m
    · cases hrows : xs.zipIdx.mapM (draftAt (k.draft d t m)) with
      | error e =>
        have hfails := RowOperation.answers_many_of_error hm hkeys hrows
        exact Or.inl ⟨e, RowOperation.firstFault_of_mapM hm hkeys hrows, hfails size₁, hfails size₂⟩
      | ok rows =>
        have hall := RowOperation.answers_many_of_ok hm hkeys hrows
        have hcut₁ := cut_chunks d size₁ rows
        have hcut₂ := cut_chunks d size₂ rows
        refine Or.inr ⟨m, rows, _, _, rfl, hkeys, RowOperation.rows_of_mapM hm hkeys hrows,
          hall size₁, hall size₂, hcut₁, hcut₂, ?_, ?_⟩
        · rw [hcut₁.text_eq, hcut₂.text_eq]
        · rw [hcut₁.parameters_eq, hcut₂.parameters_eq]
    · have hfails (size : Nat) : t.Answers ((k.many xs size).statements d t)
          (.error (.keyRequired m.entity k.batchName)) := by
        refine (Build.statements_answers hm (k.many xs size)).congr ?_
        rw [RowOperation.drafts_many_of_keyless hkeys]
        rfl
      exact Or.inl ⟨_, .keys hm hkeys, hfails size₁, hfails size₂⟩

end EntitySql
