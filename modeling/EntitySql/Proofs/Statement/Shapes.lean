import EntitySql.Proofs.Query.Shapes
import EntitySql.Proofs.Statement.Forms

/-!
# Values and the text of statements

Two operations have one shape when they differ in values only, nulls standing against
nulls. Such operations have statements of one text with parameters of the same names, so
no value has a way into the text of a statement.
-/

namespace EntitySql

/-- What can be seen of a statement without the values: its text and the names of its parameters. -/
def Statement.outline (s : Statement) : String × List String :=
  (s.text, s.parameters.map (·.name))

/-- Two instances that are null in the same members. -/
def EntityType.SameNulls (t : EntityType) (x y : Instance) : Prop :=
  ∀ m ∈ t.mapping.members, (t.value x m.name).isNull = (t.value y m.name).isNull

/-- Two operations of one shape: the same operation with the same names and sizes, on instances that
are null in the same members and with expressions of one shape. -/
inductive Build.SameShape (t : EntityType) : Build → Build → Prop
  | insert {x y : Instance} (h : t.SameNulls x y) : SameShape t (.insert x) (.insert y)
  | insertBatch {xs ys : List Instance} (h : List.Forall₂ t.SameNulls xs ys) (size : Nat) :
      SameShape t (.insertBatch xs size) (.insertBatch ys size)
  | update {x y : Instance} (h : t.SameNulls x y) : SameShape t (.update x) (.update y)
  | updateBatch {xs ys : List Instance} (h : List.Forall₂ t.SameNulls xs ys) (size : Nat) :
      SameShape t (.updateBatch xs size) (.updateBatch ys size)
  | updateWhere {x y : Instance} {c c' : Option Condition} (h : t.SameNulls x y)
      (hc : Option.Rel Condition.SameShape c c') :
      SameShape t (.updateWhere x c) (.updateWhere y c')
  | updateIgnoring {x y : Instance} {c c' : Option Condition} (h : t.SameNulls x y)
      (ignored : List String) (hc : Option.Rel Condition.SameShape c c') :
      SameShape t (.updateIgnoring x ignored c) (.updateIgnoring y ignored c')
  | updateFields {x y : Instance} {c c' : Option Condition} (h : t.SameNulls x y)
      (names : List String) (hc : Option.Rel Condition.SameShape c c') :
      SameShape t (.updateFields x names c) (.updateFields y names c')
  | updateSet {as as' : List Assignment} {c c' : Option Condition}
      (h : List.Forall₂ Assignment.SameShape as as') (hc : Option.Rel Condition.SameShape c c') :
      SameShape t (.updateSet as c) (.updateSet as' c')
  | delete {x y : Instance} (h : t.SameNulls x y) : SameShape t (.delete x) (.delete y)
  | deleteBatch {xs ys : List Instance} (h : List.Forall₂ t.SameNulls xs ys) (size : Nat) :
      SameShape t (.deleteBatch xs size) (.deleteBatch ys size)
  | deleteWhere {c c' : Option Condition} (hc : Option.Rel Condition.SameShape c c') :
      SameShape t (.deleteWhere c) (.deleteWhere c')
  | select {c c' : Option Condition} (hc : Option.Rel Condition.SameShape c c')
      (order : Option (List SortKey)) : SameShape t (.select c order) (.select c' order)
  | selectProjection {c c' : Option Condition} (hc : Option.Rel Condition.SameShape c c')
      (p : Projection) (k : SelectKind) :
      SameShape t (.selectProjection c p k) (.selectProjection c' p k)
  | count {c c' : Option Condition} (hc : Option.Rel Condition.SameShape c c') :
      SameShape t (.count c) (.count c')

/-- Two drafts of one phrase whose parameters have the same names. -/
structure Draft.Alike (x y : Draft) : Prop where
  phrase_eq : x.phrase = y.phrase
  names_eq : x.parameters.map (·.name) = y.parameters.map (·.name)

namespace Draft

variable {d : Dialect} {m : Metadata} {x y : Draft}

/-- A draft is alike to itself. -/
theorem Alike.refl (x : Draft) : x.Alike x :=
  ⟨rfl, rfl⟩

/-- Text after drafts keeps them alike. -/
theorem Alike.thenText (h : x.Alike y) (s : String) : (x.thenText s).Alike (y.thenText s) :=
  ⟨by simp only [Draft.thenText, h.phrase_eq], h.names_eq⟩

/-- Updates by assignments that are alike are alike. -/
theorem Alike.updateAll (h : x.Alike y) : (updateAll m x).Alike (updateAll m y) :=
  ⟨by simp only [EntitySql.updateAll, h.phrase_eq], h.names_eq⟩

/-- Drafts that are alike one by one are alike when they are joined. -/
theorem alike_join {xs ys : List Draft} (separator : String) (h : List.Forall₂ Alike xs ys) :
    (join separator xs).Alike (join separator ys) := by
  have hphrases : xs.map (·.phrase) = ys.map (·.phrase) := by
    induction h with
    | nil => rfl
    | cons hhead _ ih => rw [List.map_cons, List.map_cons, ih, hhead.phrase_eq]
  have hnames : (xs.flatMap (·.parameters)).map (·.name) =
      (ys.flatMap (·.parameters)).map (·.name) := by
    clear hphrases
    induction h with
    | nil => rfl
    | cons hhead _ ih =>
      rw [List.flatMap_cons, List.flatMap_cons, List.map_append, List.map_append, ih,
        hhead.names_eq]
  exact ⟨by simp only [join, hphrases], hnames⟩

/-- Drafts that are alike stay so, or both fail, when conditions of one shape restrict them. -/
theorem Alike.filtered {c c' : Condition} (h : x.Alike y) (hc : c.SameShape c') :
    Agree Alike (x.filtered d m c) (y.filtered d m c') := by
  have hbinds := (⟨m, d, ""⟩ : Surroundings).bindCondition_alike hc _ _
    (Binder.Alike.refl (Binder.avoiding (x.parameters.map (·.name))))
  unfold Draft.filtered
  rw [← h.names_eq]
  dsimp only
  rcases hrun : ((⟨m, d, ""⟩ : Surroundings).bindCondition c).runFrom
    (Binder.avoiding (x.parameters.map (·.name))) with ⟨r, b⟩
  rcases hrun' : ((⟨m, d, ""⟩ : Surroundings).bindCondition c').runFrom
    (Binder.avoiding (x.parameters.map (·.name))) with ⟨r', b'⟩
  rw [hrun, hrun'] at hbinds ⊢
  obtain ⟨hresult, hbinder⟩ := hbinds
  cases hresult with
  | error e e' => exact .error e e'
  | ok heq =>
    subst heq
    refine .ok ⟨by simp only [h.phrase_eq], ?_⟩
    rw [List.map_append, List.map_append, h.names_eq, hbinder.names_eq]

/-- The same with conditions that may be missing. -/
theorem Alike.filteredBy {c c' : Option Condition} (h : x.Alike y)
    (hc : Option.Rel Condition.SameShape c c') :
    Agree Alike (x.filteredBy d m c) (y.filteredBy d m c') := by
  cases hc with
  | some hc => exact h.filtered hc
  | none => exact .ok h

end Draft

namespace Field

variable {d : Dialect} {m : Metadata} {suffix : String} {fs gs : List Field}

/-- The members of fields, and which of them have no value. -/
def marks (fs : List Field) : List (Member × Bool) :=
  fs.map fun f => (f.1, f.2.isNull)

/-- What depends on members only is the same for fields of the same members. -/
private theorem map_eq_of_members {β : Type} (g : Member → β)
    (h : fs.map (·.1) = gs.map (·.1)) : fs.map (fun f => g f.1) = gs.map fun f => g f.1 := by
  simpa [Function.comp_def] using congrArg (List.map g) h

private theorem members_eq (h : marks fs = marks gs) : fs.map (·.1) = gs.map (·.1) := by
  simpa [marks, Function.comp_def] using congrArg (List.map (·.1)) h

private theorem present_eq (h : marks fs = marks gs) :
    (present fs).map (·.1) = (present gs).map (·.1) := by
  have hpresent (fs : List Field) :
      (present fs).map (·.1) = ((marks fs).filter (!·.2)).map (·.1) := by
    simp [present, marks, List.filter_map, Function.comp_def]
  rw [hpresent, hpresent, h]

private theorem isEmpty_eq (h : fs.map (·.1) = gs.map (·.1)) : fs.isEmpty = gs.isEmpty := by
  have hlength : fs.length = gs.length := by simpa using congrArg List.length h
  rw [Bool.eq_iff_iff, List.isEmpty_iff_length_eq_zero, List.isEmpty_iff_length_eq_zero, hlength]

private theorem assignments_alike (separator : String) (h : fs.map (·.1) = gs.map (·.1)) :
    Draft.Alike ⟨Phrase.join separator (fs.map (assignment suffix)), fs.map (parameter d suffix)⟩
      ⟨Phrase.join separator (gs.map (assignment suffix)), gs.map (parameter d suffix)⟩ := by
  constructor
  · exact congrArg (Phrase.join separator) (map_eq_of_members (fun m : Member =>
      [Piece.text (m.column ++ "="), .slot (m.name ++ suffix)]) h)
  · rw [names_parameters, names_parameters]
    exact map_eq_of_members (·.name ++ suffix) h

/-- Insertions of fields with the same marks are alike. -/
theorem insertDraft_alike (h : marks fs = marks gs) :
    Agree Draft.Alike (insertDraft d m suffix fs) (insertDraft d m suffix gs) := by
  have hpresent := present_eq h
  unfold insertDraft
  dsimp only
  rw [isEmpty_eq hpresent]
  cases (present gs).isEmpty with
  | true => exact .error _ _
  | false =>
    have hcolumns := map_eq_of_members (·.column) hpresent
    have hslots := map_eq_of_members (fun f : Member => [Piece.slot (f.name ++ suffix)]) hpresent
    refine .ok ⟨?_, ?_⟩
    · simp only [parameterName, hcolumns, hslots]
    · rw [names_parameters, names_parameters]
      exact map_eq_of_members (·.name ++ suffix) hpresent

/-- Conditions on keys with the same marks are alike. -/
theorem keyClause_alike (h : marks fs = marks gs) :
    Agree Draft.Alike (keyClause d m suffix fs) (keyClause d m suffix gs) := by
  have hmissing : (fs.find? (·.2.isNull)).isSome = (gs.find? (·.2.isNull)).isSome := by
    have hfind (fs : List Field) :
        (fs.find? (·.2.isNull)).isSome = ((marks fs).find? (·.2)).isSome := by
      simp only [marks, List.find?_map, Option.isSome_map, Function.comp_def]
    rw [hfind, hfind, h]
  unfold keyClause
  cases hf : fs.find? (·.2.isNull) <;> cases hg : gs.find? (·.2.isNull)
  case none.none => exact .ok (assignments_alike " AND " (members_eq h))
  case some.some => exact .error _ _
  all_goals
    rw [hf, hg] at hmissing
    cases hmissing

/-- Assignments of fields with the same marks are alike. -/
theorem assignmentsDraft_alike (h : marks fs = marks gs) :
    Agree Draft.Alike (assignmentsDraft d m suffix fs) (assignmentsDraft d m suffix gs) := by
  have hpresent := present_eq h
  unfold assignmentsDraft
  dsimp only
  rw [isEmpty_eq hpresent]
  cases (present gs).isEmpty with
  | true => exact .error _ _
  | false => exact .ok (assignments_alike ", " hpresent)

/-- Assignments of fields with the same marks, null included, are alike. -/
theorem listedDraft_alike (h : marks fs = marks gs) :
    (listedDraft d fs).Alike (listedDraft d gs) := by
  constructor
  · have hassignments (fs : List Field) : fs.map nullableAssignment =
        (marks fs).map fun f => if f.2 then [Piece.text (f.1.column ++ "=NULL")]
          else [.text (f.1.column ++ "="), .slot (f.1.name ++ "")] := by
      simp [marks, nullableAssignment, assignment, parameterName]
    simp only [listedDraft, hassignments, h]
  · show ((present fs).map (parameter d "")).map (·.name) =
      ((present gs).map (parameter d "")).map (·.name)
    rw [names_parameters, names_parameters]
    exact map_eq_of_members (·.name ++ "") (present_eq h)

/-- Updates of rows with the same marks are alike. -/
theorem updateDraft_alike {keys keys' : List Field} (h : marks fs = marks gs)
    (hkeys : marks keys = marks keys') :
    Agree Draft.Alike (updateDraft d m suffix fs keys) (updateDraft d m suffix gs keys') := by
  refine Agree.bind (assignmentsDraft_alike h) fun x y hxy => ?_
  refine Agree.bind (keyClause_alike hkeys) fun x' y' hxy' => ?_
  exact .ok (Draft.alike_join " WHERE " (.cons hxy.updateAll (.cons hxy' .nil)))

/-- Deletions of rows with the same marks are alike. -/
theorem deleteDraft_alike (h : marks fs = marks gs) :
    Agree Draft.Alike (deleteDraft d m suffix fs) (deleteDraft d m suffix gs) := by
  refine Agree.bind (keyClause_alike h) fun x y hxy => ?_
  exact .ok (Draft.alike_join " WHERE " (.cons (.refl _) (.cons hxy .nil)))

end Field

section

variable {α : Type} {related : α → α → Prop}

/-- Items related one by one are related in the chunks of their lists. -/
theorem forall₂_chunks (size : Nat) {xs ys : List α} (h : List.Forall₂ related xs ys) :
    List.Forall₂ (List.Forall₂ related) (chunks size xs) (chunks size ys) := by
  fun_induction chunks size xs generalizing ys with
  | case1 xs hempty =>
    rw [List.isEmpty_iff.mp hempty] at h
    cases h
    rw [chunks]
    exact .nil
  | case2 xs hempty ih =>
    have hys : ¬ys.isEmpty := by
      rwa [List.isEmpty_iff_length_eq_zero, ← h.length_eq, ← List.isEmpty_iff_length_eq_zero]
    have hchunks : chunks size ys =
        ys.take (max size 1) :: chunks size (ys.drop (max size 1)) := by rw [chunks, if_neg hys]
    rw [hchunks]
    exact .cons (List.forall₂_take _ h) (ih (List.forall₂_drop _ h))

/-- Items related one by one are related together with their places. -/
theorem forall₂_zipIdx {xs ys : List α} (h : List.Forall₂ related xs ys) (k : Nat) :
    List.Forall₂ (fun p q => related p.1 q.1 ∧ p.2 = q.2) (xs.zipIdx k) (ys.zipIdx k) := by
  induction h generalizing k with
  | nil => exact .nil
  | cons hhead _ ih => exact .cons ⟨hhead, rfl⟩ (ih (k + 1))

/-- Batches of related items are alike when the drafts of related items are. -/
theorem draftBatch_alike {d : Dialect} {size : Nat} {draft : String → α → Except Fault Draft}
    {xs ys : List α} (h : List.Forall₂ related xs ys)
    (hdraft : ∀ suffix x y, related x y → Agree Draft.Alike (draft suffix x) (draft suffix y)) :
    Agree (List.Forall₂ Draft.Alike) (draftBatch d size draft xs) (draftBatch d size draft ys) := by
  refine Agree.mapM (forall₂_chunks size (forall₂_zipIdx h 0)) fun chunk chunk' hchunk => ?_
  have hparts : Agree (List.Forall₂ Draft.Alike)
      (chunk.mapM (draftAt draft)) (chunk'.mapM (draftAt draft)) := by
    refine Agree.mapM hchunk ?_
    rintro ⟨x, i⟩ ⟨y, _⟩ ⟨hxy, rfl⟩
    exact hdraft _ x y hxy
  exact Agree.bind hparts fun ds ds' hds => .ok (Draft.alike_join _ hds)

end

namespace Build

variable {d : Dialect} {t : EntityType} {m : Metadata} {x y : Instance} {c c' : Option Condition}

private theorem marks_eq (hm : Metadata.ofMapping t.mapping = .ok m) (h : t.SameNulls x y)
    {ms : List Member} (hsub : ms.Sublist m.members) :
    Field.marks (t.fields x ms) = Field.marks (t.fields y ms) := by
  simp only [Field.marks, EntityType.fields, List.map_map, Function.comp_def]
  refine List.map_congr_left fun f hf => ?_
  rw [h f (Metadata.mem_mapping_of_mem hm (hsub.subset hf))]

private theorem single_alike {e e' : Except Fault Draft} (h : Agree Draft.Alike e e') :
    Agree (List.Forall₂ Draft.Alike) (single e) (single e') :=
  h.map fun _ _ hxy => .cons hxy .nil

private theorem requireCondition_alike (operation : String)
    (hc : Option.Rel Condition.SameShape c c') :
    Agree Condition.SameShape (requireCondition m operation c)
      (requireCondition m operation c') := by
  cases hc with
  | some hc => exact .ok hc
  | none => exact .error _ _

private theorem draftMatching_alike (hm : Metadata.ofMapping t.mapping = .ok m)
    (h : t.SameNulls x y) (operation : String) (keep : Member → Bool)
    (hc : Option.Rel Condition.SameShape c c') :
    Agree Draft.Alike (draftMatching d t m operation keep x c)
      (draftMatching d t m operation keep y c') := by
  have hsub : (m.nonKeyMembers.filter keep).Sublist m.members :=
    List.filter_sublist.trans (List.filter_sublist.trans List.filter_sublist)
  refine Agree.bind (requireCondition_alike operation hc) fun c c' hc => ?_
  refine Agree.bind (Field.assignmentsDraft_alike (marks_eq hm h hsub)) fun x y hxy => ?_
  exact hxy.updateAll.filtered hc

private theorem draftListed_alike (hm : Metadata.ofMapping t.mapping = .ok m)
    (h : t.SameNulls x y) (names : List String) (hc : Option.Rel Condition.SameShape c c') :
    Agree Draft.Alike (draftListed d t m x names c) (draftListed d t m y names c') := by
  refine Agree.bind (requireCondition_alike "update_fields" hc) fun c c' hc => ?_
  cases names.isEmpty with
  | true => exact .error _ _
  | false =>
    cases names.find? fun n => (m.member? n).isNone with
    | some n => exact .error _ _
    | none =>
      have hsub : (m.columnMembers.filter fun f => isListed names f.name).Sublist m.members :=
        List.filter_sublist.trans List.filter_sublist
      cases hlisted : (m.columnMembers.filter fun f => isListed names f.name).isEmpty with
      | true =>
        simp only [hlisted]
        exact .error _ _
      | false =>
        simp only [hlisted]
        exact (Field.listedDraft_alike (marks_eq hm h hsub)).updateAll.filtered hc

private theorem draftSet_alike {as as' : List Assignment}
    (h : List.Forall₂ Assignment.SameShape as as') (hc : Option.Rel Condition.SameShape c c') :
    Agree Draft.Alike (draftSet d m as c) (draftSet d m as' c') := by
  refine Agree.bind (requireCondition_alike "update_set" hc) fun c c' hc => ?_
  have hbinds := (⟨m, d, ""⟩ : Surroundings).bindAssignments_alike h _ _
    (Binder.Alike.refl (Binder.avoiding []))
  rcases hrun : ((⟨m, d, ""⟩ : Surroundings).bindAssignments as).runFrom
    (Binder.avoiding []) with ⟨r, b⟩
  rcases hrun' : ((⟨m, d, ""⟩ : Surroundings).bindAssignments as').runFrom
    (Binder.avoiding []) with ⟨r', b'⟩
  rw [hrun, hrun'] at hbinds
  obtain ⟨hresult, hbinder⟩ := hbinds
  cases hresult with
  | error e e' => exact .error e e'
  | @ok bound _ heq =>
    subst heq
    have halike : Draft.Alike ⟨BoundAssignment.list bound, b.parameters⟩
        ⟨BoundAssignment.list bound, b'.parameters⟩ := ⟨rfl, hbinder.names_eq⟩
    exact halike.updateAll.filtered hc

/-- Operations of one shape have drafts that are alike, or both fail. -/
theorem drafts_alike (hm : Metadata.ofMapping t.mapping = .ok m) {b b' : Build}
    (h : b.SameShape t b') :
    Agree (List.Forall₂ Draft.Alike) (b.drafts d t m) (b'.drafts d t m) := by
  have hinsertable : m.insertableMembers.Sublist m.members :=
    List.filter_sublist.trans List.filter_sublist
  have hnonKey : m.nonKeyMembers.Sublist m.members :=
    List.filter_sublist.trans List.filter_sublist
  have hkey : m.keyMembers.Sublist m.members := List.filter_sublist
  cases h with
  | insert h =>
    refine single_alike (Agree.bind (Field.insertDraft_alike (marks_eq hm h hinsertable)) ?_)
    exact fun _ _ hxy => .ok (hxy.thenText _)
  | insertBatch h size =>
    unfold drafts
    exact draftBatch_alike h fun _ _ _ h => Field.insertDraft_alike (marks_eq hm h hinsertable)
  | update h =>
    refine single_alike (Agree.bind (Agree.refl _) fun _ _ _ => ?_)
    exact Field.updateDraft_alike (marks_eq hm h hnonKey) (marks_eq hm h hkey)
  | updateBatch h size =>
    refine Agree.bind (Agree.refl _) fun _ _ _ => draftBatch_alike h fun _ _ _ h => ?_
    exact Field.updateDraft_alike (marks_eq hm h hnonKey) (marks_eq hm h hkey)
  | updateWhere h hc => exact single_alike (draftMatching_alike hm h _ _ hc)
  | updateIgnoring h ignored hc => exact single_alike (draftMatching_alike hm h _ _ hc)
  | updateFields h names hc => exact single_alike (draftListed_alike hm h names hc)
  | updateSet h hc => exact single_alike (draftSet_alike h hc)
  | delete h =>
    refine single_alike (Agree.bind (Agree.refl _) fun _ _ _ => ?_)
    exact Field.deleteDraft_alike (marks_eq hm h hkey)
  | deleteBatch h size =>
    refine Agree.bind (Agree.refl _) fun _ _ _ => draftBatch_alike h fun _ _ _ h => ?_
    exact Field.deleteDraft_alike (marks_eq hm h hkey)
  | deleteWhere hc =>
    refine single_alike (Agree.bind (requireCondition_alike _ hc) fun c c' hc => ?_)
    exact (Draft.Alike.refl (deleteAll m)).filtered hc
  | select hc order =>
    refine single_alike (Agree.bind ((Draft.Alike.refl _).filteredBy hc) fun x y hxy => ?_)
    refine Agree.bind (Agree.refl _) fun keys keys' hkeys => ?_
    exact hkeys ▸ .ok (hxy.thenText _)
  | selectProjection hc p k =>
    refine single_alike (Agree.bind (Agree.refl _) fun text text' htext => ?_)
    subst htext
    refine Agree.bind (Agree.refl _) fun columns columns' hcolumns => ?_
    subst hcolumns
    exact (Draft.Alike.refl _).filteredBy hc
  | count hc => exact single_alike ((Draft.Alike.refl _).filteredBy hc)

end Build

/-- Written drafts that are alike have one outline. -/
theorem Draft.outlines_eq {d : Dialect} {xs ys : List Draft} (h : List.Forall₂ Alike xs ys) :
    (xs.map (statement d)).map Statement.outline =
      (ys.map (statement d)).map Statement.outline := by
  induction h with
  | nil => rfl
  | cons hhead _ ih =>
    simp only [List.map_cons, ih, Statement.outline, statement, hhead.phrase_eq, hhead.names_eq]

/-- Two operations of one shape both fail, or both give statements of the same texts with the same
names of parameters in the same order: values are seen in the parameters only. -/
theorem outlines_of_sameShape {d : Dialect} {t : EntityType} {b b' : Build} {c c' : Catalog}
    (hc : c.Serves t) (hc' : c'.Serves t) (h : b.SameShape t b') :
    ((b.statements d t).runFrom c).1.toOption.map (·.map Statement.outline) =
      ((b'.statements d t).runFrom c').1.toOption.map (·.map Statement.outline) := by
  cases hm : Metadata.ofMapping t.mapping with
  | error e =>
    rw [(Build.statements_answers_error hm b c hc).1,
      (Build.statements_answers_error hm b' c' hc').1]
  | ok m =>
    rw [(Build.statements_answers hm b c hc).1, (Build.statements_answers hm b' c' hc').1]
    have hdrafts := Build.drafts_alike (d := d) hm h
    generalize b.drafts d t m = r at hdrafts ⊢
    generalize b'.drafts d t m = r' at hdrafts ⊢
    cases hdrafts with
    | error e e' => rfl
    | ok h => exact congrArg some (Draft.outlines_eq h)

/-- A text that looks like SQL leaves the same deletion as a number does. -/
theorem outlines_of_sameShape_parts :
    let size (v : Value) : Build :=
      .deleteWhere (some (.compare (.member "size") .equal (.value v)))
    (size (.string "1 OR 1=1")).SameShape .parts (size (.int64 1)) ∧
      (((size (.string "1 OR 1=1")).statements .sqlite .parts).runFrom .empty).1.toOption.map
        (·.map Statement.outline) = some [("DELETE FROM PARTS WHERE SIZE = @size", ["size"])] := by
  intro size
  have hshape : (size (.string "1 OR 1=1")).SameShape .parts (size (.int64 1)) :=
    .deleteWhere (.some (.compare (.member "size") .equal (.value (.scalar ⟨rfl, rfl⟩ ⟨rfl, rfl⟩))))
  have hempty := Catalog.serves_empty EntityType.parts
  refine ⟨hshape, (outlines_of_sameShape hempty hempty hshape).trans ?_⟩
  decide +kernel

end EntitySql
