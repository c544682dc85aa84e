import EntitySql.Proofs.Query.Engines
import EntitySql.Proofs.Statement.Rows
import EntitySql.Proofs.Text.Digits

/-!
# One operation on several engines

Engines differ in the mark of placeholders, in how truth values are bound and in what they
append to an insertion and to an order. Nothing else about an operation depends on the
engine: not whether it succeeds, not its fault, not the names of its parameters.
-/

namespace EntitySql

/-- A draft whose parameters are bound on an engine. -/
def Draft.encoded (d : Dialect) (x : Draft) : Draft :=
  ⟨x.phrase, x.parameters.map (Parameter.encoded d)⟩

section Drafts

variable (d : Dialect) {m : Metadata}

/-- Encoding keeps the names of parameters. -/
theorem Draft.names_encoded (x : Draft) :
    (x.encoded d).parameters.map (·.name) = x.parameters.map (·.name) := by
  simp [Draft.encoded, Parameter.encoded, Parameter.bound]

/-- Joined drafts are encoded one by one. -/
theorem Draft.join_encoded (separator : String) (xs : List Draft) :
    Draft.join separator (xs.map (Draft.encoded d)) = (Draft.join separator xs).encoded d := by
  simp [Draft.join, Draft.encoded, List.flatMap_map, List.map_flatMap, Function.comp_def]

/-- The parameters of fields are encoded one by one. -/
theorem Field.parameters_encoded (suffix : String) (fs : List Field) :
    fs.map (Field.parameter d suffix) =
      (fs.map (Field.parameter .postgreSql suffix)).map (Parameter.encoded d) := by
  rw [List.map_map]
  rfl

/-- An insertion is drafted on every engine alike. -/
theorem insertDraft_encoded (m : Metadata) (suffix : String) (fs : List Field) :
    insertDraft d m suffix fs = (insertDraft .postgreSql m suffix fs).map (Draft.encoded d) := by
  unfold insertDraft
  dsimp only
  split
  · rfl
  · simp only [Except.map, Draft.encoded, ← Field.parameters_encoded]

/-- The condition on a key is drafted on every engine alike. -/
theorem keyClause_encoded (m : Metadata) (suffix : String) (keys : List Field) :
    keyClause d m suffix keys = (keyClause .postgreSql m suffix keys).map (Draft.encoded d) := by
  unfold keyClause
  split
  · rfl
  · simp only [Except.map, Draft.encoded, ← Field.parameters_encoded]

/-- Assignments are drafted on every engine alike. -/
theorem assignmentsDraft_encoded (m : Metadata) (suffix : String) (fs : List Field) :
    assignmentsDraft d m suffix fs =
      (assignmentsDraft .postgreSql m suffix fs).map (Draft.encoded d) := by
  unfold assignmentsDraft
  dsimp only
  split
  · rfl
  · simp only [Except.map, Draft.encoded, ← Field.parameters_encoded]

/-- The assignments of listed fields are drafted on every engine alike. -/
theorem listedDraft_encoded (fs : List Field) :
    listedDraft d fs = (listedDraft .postgreSql fs).encoded d := by
  simp only [listedDraft, Draft.encoded, ← Field.parameters_encoded]

/-- The update of a row is drafted on every engine alike. -/
theorem updateDraft_encoded (m : Metadata) (suffix : String) (fs keys : List Field) :
    updateDraft d m suffix fs keys =
      (updateDraft .postgreSql m suffix fs keys).map (Draft.encoded d) := by
  unfold updateDraft
  rw [assignmentsDraft_encoded, keyClause_encoded]
  refine map_bind_eq fun assignments => map_bind_eq fun condition => ?_
  exact congrArg Except.ok (Draft.join_encoded d " WHERE " [updateAll m assignments, condition])

/-- The deletion of a row is drafted on every engine alike. -/
theorem deleteDraft_encoded (m : Metadata) (suffix : String) (keys : List Field) :
    deleteDraft d m suffix keys =
      (deleteDraft .postgreSql m suffix keys).map (Draft.encoded d) := by
  unfold deleteDraft
  rw [keyClause_encoded]
  refine map_bind_eq fun condition => ?_
  exact congrArg Except.ok (Draft.join_encoded d " WHERE " [deleteAll m, condition])

/-- A draft is restricted on every engine alike. -/
theorem Draft.filtered_encoded (m : Metadata) (x : Draft) (c : Condition) :
    (x.encoded d).filtered d m c = (x.filtered .postgreSql m c).map (Draft.encoded d) := by
  have hbinds := Surroundings.bindCondition_encodes d m "" c
    (Binder.avoiding (x.parameters.map (·.name)))
  rw [show (Binder.avoiding (x.parameters.map (·.name))).encoded d =
    Binder.avoiding (x.parameters.map (·.name)) from rfl] at hbinds
  unfold Draft.filtered
  rw [Draft.names_encoded]
  dsimp only
  rcases hrun : ((⟨m, .postgreSql, ""⟩ : Surroundings).bindCondition c).runFrom
    (Binder.avoiding (x.parameters.map (·.name))) with ⟨e | bound, b⟩
  all_goals
    rw [hrun] at hbinds
    rw [hbinds, hrun]
  · rfl
  · simp only [Except.map, Draft.encoded, Binder.encoded, List.map_append]

/-- A draft that may be restricted is so on every engine alike. -/
theorem Draft.filteredBy_encoded (m : Metadata) (x : Draft) (c : Option Condition) :
    (x.encoded d).filteredBy d m c = (x.filteredBy .postgreSql m c).map (Draft.encoded d) := by
  cases c with
  | none => rfl
  | some c => exact x.filtered_encoded d m c

/-- A batch of drafts is drafted on every engine alike, when its items are. -/
theorem draftBatch_encoded {α : Type} {draft draft' : String → α → Except Fault Draft}
    (h : ∀ suffix x, draft' suffix x = (draft suffix x).map (Draft.encoded d)) (size : Nat)
    (xs : List α) :
    draftBatch d size draft' xs =
      (draftBatch .postgreSql size draft xs).map (List.map (Draft.encoded d)) := by
  refine mapM_map_eq (fun chunk => ?_) _
  have hchunk : chunk.mapM (draftAt draft') =
      (chunk.mapM (draftAt draft)).map (List.map (Draft.encoded d)) :=
    mapM_map_eq (f := draftAt draft) (g := draftAt draft')
      (fun item => h (batchSuffix item.2) item.1) chunk
  rw [hchunk]
  exact map_bind_eq fun drafts => congrArg Except.ok (Draft.join_encoded d ";" drafts)

end Drafts

/-- Text behind a draft stands behind its statement. -/
theorem Draft.statement_thenText (d : Dialect) (x : Draft) (s : String) :
    (x.thenText s).statement d = ⟨x.phrase.render d.marker ++ s, x.parameters⟩ := by
  simp [Draft.thenText, Draft.statement, Phrase.render, Piece.render]

/-- The sort keys of an order are never blank. -/
theorem Surroundings.presentOrder?_of_orderText {s : Surroundings} {order : List SortKey}
    {text : String} (h : s.orderText order = .ok text) :
    Dialect.presentOrder? (some text) = some (Text.trim text) := by
  unfold orderText at h
  split at h
  · cases h
  · rename_i hsome
    obtain ⟨texts, htexts, rfl⟩ := map_eq_ok_iff.mp h
    have hall := mapM_eq_ok_iff.mp htexts
    cases hall with
    | nil => exact absurd rfl hsome
    | @cons key text _ rest hkey _ =>
      obtain ⟨c, -, rfl⟩ := map_eq_ok_iff.mp hkey
      -- both words for a direction have this letter
      have hword : 'C' ∈ (c ++ " " ++ key.direction.word).toList := by
        cases key.direction <;> simp [Direction.word]
      have hletter :
          'C' ∈ (", ".intercalate ((c ++ " " ++ key.direction.word) :: rest)).toList := by
        cases rest with
        | nil => simpa using hword
        | cons other rest =>
          rw [String.intercalate_cons_cons, String.toList_append, String.toList_append]
          exact List.mem_append_left _ (List.mem_append_left _ hword)
      rw [Dialect.presentOrder?, Option.map_some, Option.filter_some,
        String.isEmpty_eq_false_iff.mpr (Text.trim_ne_empty_of_mem hletter (by decide))]
      rfl

namespace Build

variable {d : Dialect} {t : EntityType} {m : Metadata}

/-- What an engine appends to the statement of an operation: the query for the generated key to an
insertion, and the place of nulls to an order. -/
def ending (d : Dialect) (m : Metadata) : Build → String
  | .insert _ => identityText d m
  | .select _ (some _) => d.orderSuffix
  | _ => ""

/-- The clause that sorts, without what an engine appends to it. -/
def orderHead (keys : Option String) : String :=
  match Dialect.presentOrder? keys with
  | some keys => " ORDER BY " ++ keys
  | none => ""

/-- The drafts of an operation without what an engine appends to them. -/
def body (d : Dialect) (t : EntityType) (m : Metadata) : Build → Except Fault (List Draft)
  | .insert x => single (insertDraft d m "" (t.fields x m.insertableMembers))
  | .select condition order => single do
    let draft ← (selectAll m m.selectFields).filteredBy d m condition
    let keys ← orderKeys? d m order
    return draft.thenText (orderHead keys)
  | b => b.drafts d t m

private theorem single_encoded {e e' : Except Fault Draft} (h : e' = e.map (Draft.encoded d)) :
    single e' = (single e).map (List.map (Draft.encoded d)) := by
  subst h
  cases e <;> rfl

/-- A step before drafts that no engine has a part in. -/
private theorem step_encoded {α β γ : Type} {r : Except Fault α} {f : α → Except Fault β}
    {g : α → Except Fault γ} {c : β → γ} (h : ∀ a, g a = (f a).map c) :
    r >>= g = (r >>= f).map c := by
  cases r with
  | error e => rfl
  | ok a => exact h a

private theorem draftMatching_encoded (operation : String) (keep : Member → Bool) (x : Instance)
    (c : Option Condition) :
    draftMatching d t m operation keep x c =
      (draftMatching .postgreSql t m operation keep x c).map (Draft.encoded d) := by
  refine step_encoded fun c => ?_
  rw [assignmentsDraft_encoded]
  exact map_bind_eq fun assignments => (updateAll m assignments).filtered_encoded d m c

private theorem draftListed_encoded (x : Instance) (names : List String) (c : Option Condition) :
    draftListed d t m x names c =
      (draftListed .postgreSql t m x names c).map (Draft.encoded d) := by
  refine step_encoded fun c => ?_
  cases names.isEmpty with
  | true => rfl
  | false =>
    cases names.find? fun n => (m.member? n).isNone with
    | some n => rfl
    | none =>
      cases hlisted : (m.columnMembers.filter fun f => isListed names f.name).isEmpty with
      | true => simp only [hlisted]; rfl
      | false =>
        simp only [hlisted, listedDraft_encoded d]
        exact (updateAll m (listedDraft .postgreSql _)).filtered_encoded d m c

private theorem draftSet_encoded (as : List Assignment) (c : Option Condition) :
    draftSet d m as c = (draftSet .postgreSql m as c).map (Draft.encoded d) := by
  have hbinds := Surroundings.bindAssignments_encodes d m "" as (Binder.avoiding [])
  refine step_encoded fun c => ?_
  rcases hrun : ((⟨m, .postgreSql, ""⟩ : Surroundings).bindAssignments as).runFrom
    (Binder.avoiding []) with ⟨e | bound, b⟩
  all_goals
    rw [hrun] at hbinds
    rw [show ((⟨m, d, ""⟩ : Surroundings).bindAssignments as).runFrom (Binder.avoiding []) = _
      from hbinds]
  · rfl
  · exact (updateAll m ⟨BoundAssignment.list bound, b.parameters⟩).filtered_encoded d m c

/-- An operation is drafted on every engine alike, but for what is appended. -/
theorem body_encoded (d : Dialect) (t : EntityType) (m : Metadata) (b : Build) :
    b.body d t m = (b.body .postgreSql t m).map (List.map (Draft.encoded d)) := by
  cases b with
  | insert x => exact single_encoded (insertDraft_encoded d m "" _)
  | insertBatch xs size =>
    exact draftBatch_encoded d (fun suffix x => insertDraft_encoded d m suffix _) size xs
  | update x => exact single_encoded (step_encoded fun _ => updateDraft_encoded d m "" _ _)
  | updateBatch xs size =>
    exact step_encoded fun _ =>
      draftBatch_encoded d (fun suffix x => updateDraft_encoded d m suffix _ _) size xs
  | updateWhere x c | updateIgnoring x ignored c =>
    exact single_encoded (draftMatching_encoded _ _ x c)
  | updateFields x names c => exact single_encoded (draftListed_encoded x names c)
  | updateSet as c => exact single_encoded (draftSet_encoded as c)
  | delete x => exact single_encoded (step_encoded fun _ => deleteDraft_encoded d m "" _)
  | deleteBatch xs size =>
    exact step_encoded fun _ =>
      draftBatch_encoded d (fun suffix x => deleteDraft_encoded d m suffix _) size xs
  | deleteWhere c =>
    exact single_encoded (step_encoded fun c => (deleteAll m).filtered_encoded d m c)
  | select c order =>
    have horder : orderKeys? d m order = orderKeys? .postgreSql m order := by cases order <;> rfl
    refine single_encoded ?_
    rw [show (selectAll m m.selectFields).filteredBy d m c = _
      from (selectAll m m.selectFields).filteredBy_encoded d m c, horder]
    exact map_bind_eq fun draft => step_encoded fun keys => rfl
  | selectProjection c p k =>
    refine single_encoded (step_encoded fun text => step_encoded fun columns => ?_)
    exact (selectAll m columns).filteredBy_encoded d m c
  | count c => exact single_encoded ((selectAll m "COUNT(1) CT").filteredBy_encoded d m c)

/-- The statements of an operation are those of its drafts, with what the engine appends. -/
theorem drafts_eq_body (d : Dialect) (t : EntityType) (m : Metadata) (b : Build) :
    (b.drafts d t m).map (List.map (Draft.statement d)) =
      (b.body d t m).map
        (List.map fun x => (x.thenText (b.ending d m)).statement d) := by
  have hnothing (x : Draft) : (x.thenText "").statement d = x.statement d := by
    rw [Draft.statement_thenText, String.append_empty]
    rfl
  cases b with
  | insert x =>
    show ((insertDraft d m "" (t.fields x m.insertableMembers) >>= fun y =>
      .ok (y.thenText (identityText d m))).map fun y => [y]).map _ =
        ((insertDraft d m "" (t.fields x m.insertableMembers)).map fun y => [y]).map _
    cases insertDraft d m "" (t.fields x m.insertableMembers) <;> rfl
  | select c order =>
    show (((selectAll m m.selectFields).filteredBy d m c >>= fun y => orderKeys? d m order >>=
      fun keys => .ok (y.thenText (d.orderClause keys))).map fun y => [y]).map _ =
        (((selectAll m m.selectFields).filteredBy d m c >>= fun y => orderKeys? d m order >>=
          fun keys => .ok (y.thenText (orderHead keys))).map fun y => [y]).map _
    cases (selectAll m m.selectFields).filteredBy d m c with
    | error e => rfl
    | ok y =>
      cases horder : orderKeys? d m order with
      | error e => rfl
      | ok keys =>
        have hkeys : (y.thenText (d.orderClause keys)).statement d =
            ((y.thenText (orderHead keys)).thenText
              (ending d m (.select c order))).statement d := by
          rw [Draft.statement_thenText, Draft.statement_thenText]
          cases order with
          | none =>
            cases horder
            simp [orderHead, ending, Draft.thenText, Phrase.render, Piece.render,
              Dialect.orderClause, Dialect.presentOrder?]
          | some order =>
            obtain ⟨text, htext, rfl⟩ := map_eq_ok_iff.mp horder
            have hpresent := Surroundings.presentOrder?_of_orderText htext
            simp [orderHead, ending, Draft.thenText, Phrase.render, Piece.render,
              Dialect.orderClause, hpresent, String.append_assoc]
        exact congrArg (fun s => Except.ok [s]) hkeys
  | _ => exact congrArg (fun f => Except.map (List.map f) _) (funext fun x => (hnothing x).symm)

end Build

section Placeholders

variable {d : Dialect} {t : EntityType} {m : Metadata} {x y : Draft}

/-- The placeholders of a draft for a row are its parameters in order. -/
theorem RowDraft.slots_eq {suffix : String} (h : RowDraft d t m suffix y) :
    y.phrase.slots = y.parameters.map (·.name) := by
  cases h with
  | @insert x _ h => exact RowOperation.slots_draft (k := .insert) (x := x) h
  | @update x _ h => exact RowOperation.slots_draft (k := .update) (x := x) h
  | @delete x _ h => exact RowOperation.slots_draft (k := .delete) (x := x) h

/-- The placeholders of a draft for all rows are its parameters in order. -/
theorem OpenDraft.slots_eq (h : OpenDraft d t m x) :
    x.phrase.slots = x.parameters.map (·.name) := by
  cases h with
  | delete | select | project | count => rfl
  | assign _ h =>
    obtain ⟨-, hphrase, hparameters⟩ := assignmentsDraft_eq_ok h
    rw [updateAll, Phrase.slots_text, hphrase, hparameters, Field.slots_assignments,
      Field.names_parameters]
  | list => exact slots_listedDraft d _
  | @set as bound b h =>
    obtain ⟨ps, hgrows, hform⟩ :=
      (⟨m, d, ""⟩ : Surroundings).bindAssignments_adds as (Binder.avoiding [])
    rw [h] at hgrows hform
    have hparameters : b.parameters = ps := hgrows.parameters_eq
    rw [updateAll, Phrase.slots_text, (hform bound rfl).2.slots_list, hparameters]

/-- The placeholders of every draft of an operation are its parameters in order. -/
theorem BuiltDrafts.slots_eq {ds : List Draft} (h : BuiltDrafts d t m ds) :
    ∀ y ∈ ds, y.phrase.slots = y.parameters.map (·.name) := by
  cases h with
  | row h => simpa using h.slots_eq
  | insertion h =>
    rw [List.forall_mem_singleton, Draft.slots_thenText]
    exact h.slots_eq
  | batch h =>
    intro y hy
    obtain ⟨group, hgroup, rfl⟩ := List.mem_map.mp hy
    refine Draft.slots_join fun z hz => ?_
    obtain ⟨i, hi, rfl⟩ := List.getElem_of_mem (List.mem_flatten_of_mem hgroup hz)
    exact (h i hi).slots_eq
  | restricted hx h => simpa using Draft.slots_of_filteredBy hx.slots_eq h
  | ordered hx h =>
    rw [List.forall_mem_singleton, Draft.slots_thenText]
    exact Draft.slots_of_filteredBy hx.slots_eq h

/-- The same without what an engine appends. -/
theorem Build.slots_body {b : Build} {xs : List Draft} (h : b.body d t m = .ok xs) :
    ∀ x ∈ xs, x.phrase.slots = x.parameters.map (·.name) := by
  have hother (h : b.drafts d t m = .ok xs) := (Build.built_of_drafts h).slots_eq
  cases b with
  | insert x =>
    obtain ⟨y, hy, rfl⟩ := map_eq_ok_iff.mp h
    exact (BuiltDrafts.row (.insert (x := x) hy)).slots_eq
  | select c order =>
    obtain ⟨y, hy, rfl⟩ := map_eq_ok_iff.mp h
    obtain ⟨draft, hdraft, hy⟩ := bind_eq_ok_iff.mp hy
    obtain ⟨keys, -, hy⟩ := bind_eq_ok_iff.mp hy
    cases hy
    rw [List.forall_mem_singleton, Draft.slots_thenText]
    exact Draft.slots_of_filteredBy rfl hdraft
  | _ => exact hother h

end Placeholders

/-- What two engines bind for one value: the same, or a truth value where there are truth values
and the number one or zero where there are none. -/
inductive Dialect.Exchanges (d d' : Dialect) : Value → Value → Prop
  | same {v : Value} (h : d.hasBooleans = d'.hasBooleans ∨ v.isBool = false) : Exchanges d d' v v
  | toNumber (holds : Bool) (h : d.hasBooleans = true) (h' : d'.hasBooleans = false) :
      Exchanges d d' (.bool holds) (.int32 (if holds then 1 else 0))
  | ofNumber (holds : Bool) (h : d.hasBooleans = false) (h' : d'.hasBooleans = true) :
      Exchanges d d' (.int32 (if holds then 1 else 0)) (.bool holds)

/-- One value is bound on two engines as they exchange it. -/
theorem Dialect.exchanges_encode (d d' : Dialect) (v : Value) :
    d.Exchanges d' (d.encode v) (d'.encode v) := by
  cases hbool : v.isBool with
  | false =>
    rw [encode_of_not_isBool hbool, encode_of_not_isBool hbool]
    exact .same (Or.inr hbool)
  | true =>
    obtain ⟨holds, rfl⟩ := Value.exists_bool_of_isBool hbool
    unfold encode
    cases h : d.hasBooleans with
    | true =>
      cases h' : d'.hasBooleans with
      | true => exact .same (Or.inl (h.trans h'.symm))
      | false => exact .toNumber holds h h'
    | false =>
      cases h' : d'.hasBooleans with
      | true => exact .ofNumber holds h h'
      | false => exact .same (Or.inl (h.trans h'.symm))

/-- Two parameters of one name that hold what two engines bind for one value, each declared to be
what it holds. -/
structure Parameter.Corresponds (d d' : Dialect) (p p' : Parameter) : Prop where
  name_eq : p.name = p'.name
  value : d.Exchanges d' p.value p'.value
  declared : p.type = p.value.dataType?
  declared' : p'.type = p'.value.dataType?

/-- Two statements of one phrase, written with the marks of two engines and followed by what each
engine appends. The placeholders are the parameters in order, which correspond one by one. -/
structure Statement.Corresponds (d d' : Dialect) (ending ending' : String)
    (s s' : Statement) : Prop where
  text : ∃ p : Phrase, s.text = p.render d.marker ++ ending ∧
    s'.text = p.render d'.marker ++ ending' ∧ p.slots = s.parameters.map (·.name)
  parameters : List.Forall₂ (Parameter.Corresponds d d') s.parameters s'.parameters

/-- What two engines give for one operation: the same fault, or statements that correspond but for
what each engine appends. -/
inductive Build.Corresponds (d d' : Dialect) (t : EntityType) (b : Build) :
    Except Fault (List Statement) → Except Fault (List Statement) → Prop
  | error (e : Fault) : b.Corresponds d d' t (.error e) (.error e)
  | ok {m : Metadata} {ss ss' : List Statement} (hm : Metadata.ofMapping t.mapping = .ok m)
      (h : List.Forall₂ (Statement.Corresponds d d' (b.ending d m) (b.ending d' m)) ss ss') :
      b.Corresponds d d' t (.ok ss) (.ok ss')

/-- The statements of one draft on two engines correspond. -/
theorem Draft.corresponds_statement (d d' : Dialect) {x : Draft}
    (h : x.phrase.slots = x.parameters.map (·.name)) (ending ending' : String) :
    Statement.Corresponds d d' ending ending' (((x.encoded d).thenText ending).statement d)
      (((x.encoded d').thenText ending').statement d') := by
  rw [Draft.statement_thenText, Draft.statement_thenText]
  refine ⟨⟨x.phrase, rfl, rfl, h.trans (x.names_encoded d).symm⟩, ?_⟩
  refine List.forall₂_map_left_iff.mpr (List.forall₂_map_right_iff.mpr ?_)
  exact List.forall₂_same.mpr fun p _ => ⟨rfl, d.exchanges_encode d' p.value, rfl, rfl⟩

/-- Engines differ only where they are meant to. On two engines every operation ends in the same
fault, or in statements that are written alike but for the mark of the placeholders, for truth
values and for what each engine appends to an insertion and to an order. A bare list of sort keys
is the same on both. -/
theorem engines_correspond (d d' : Dialect) (t : EntityType) :
    (∀ b : Build, ∃ r r', t.Answers (b.statements d t) r ∧ t.Answers (b.statements d' t) r' ∧
      b.Corresponds d d' t r r') ∧
    ∀ order, Statement.orderText d t order = Statement.orderText d' t order := by
  refine ⟨fun b => ?_, fun order => rfl⟩
  cases hm : Metadata.ofMapping t.mapping with
  | error e =>
    exact ⟨_, _, Build.statements_answers_error hm b, Build.statements_answers_error hm b, .error e⟩
  | ok m =>
    have hanswers (d : Dialect) := (Build.statements_answers (d := d) hm b).congr
      (b.drafts_eq_body d t m)
    refine ⟨_, _, hanswers d, hanswers d', ?_⟩
    rw [b.body_encoded d, b.body_encoded d']
    cases hbody : b.body .postgreSql t m with
    | error e => exact .error e
    | ok xs =>
      refine .ok hm ?_
      rw [List.map_map, List.map_map]
      refine List.forall₂_map_left_iff.mpr (List.forall₂_map_right_iff.mpr ?_)
      exact List.forall₂_same.mpr fun x hx =>
        x.corresponds_statement d d' (Build.slots_body hbody x hx) _ _

end EntitySql
