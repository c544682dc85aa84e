import EntitySql.Proofs.Query.Acceptance
import EntitySql.Proofs.Result.Columns
import EntitySql.Proofs.Statement.Forms
import Mathlib.Data.List.Pairwise

/-!
# What validation promises

The metadata of a valid mapping keeps the members in their order, sorts each of them into
one part, and answers questions by name with the one member that has the name. Every
member has an accessor, so no statement fails to be built for want of one.
-/

namespace EntitySql

/-- Metadata that tells of a mapping what it should: the members in the order of their declaration,
the parts that they fall into, and the one member of each name. -/
structure Metadata.Describes (d : Metadata) (mapping : Mapping) : Prop where
  entity_eq : d.entity = mapping.entity
  table_eq : d.table = mapping.table
  members_eq : d.members = mapping.members
  /-- Every member is exactly one of a key, another persisted member, and a computed member. -/
  parts : ∀ f ∈ d.members,
    (f ∈ d.keyMembers ∧ f ∉ d.nonKeyMembers ∧ f.kind ≠ .computed) ∨
    (f ∉ d.keyMembers ∧ f ∈ d.nonKeyMembers ∧ f.kind ≠ .computed) ∨
    (f ∉ d.keyMembers ∧ f ∉ d.nonKeyMembers ∧ f.kind = .computed)
  /-- The persisted members keep the order of all members. -/
  columns_sublist : d.columnMembers.Sublist d.members
  /-- The keys and the other persisted members make up the persisted members. -/
  columns_perm : (d.keyMembers ++ d.nonKeyMembers).Perm d.columnMembers
  keys_sublist : d.keyMembers.Sublist d.columnMembers
  nonKeys_sublist : d.nonKeyMembers.Sublist d.columnMembers
  autoKey_iff : ∀ f, d.autoKey? = some f ↔ f ∈ d.members ∧ f.kind = .autoKey
  autoKey_mem : ∀ f, d.autoKey? = some f → f ∈ d.keyMembers
  selectFields_eq : d.selectFields = ", ".intercalate (d.columnMembers.map (·.column))
  member_iff : ∀ name f,
    d.member? name = some f ↔ f ∈ d.members ∧ Text.sameName f.name name = true

namespace Metadata

variable {mapping : Mapping} {d : Metadata} {f g : Member}

/-- The keys are the persisted members that are keys. -/
theorem keyMembers_eq (d : Metadata) : d.keyMembers = d.columnMembers.filter (·.kind.isKey) := by
  rw [keyMembers, columnMembers, List.filter_filter]
  refine List.filter_congr fun f _ => ?_
  cases hkey : f.kind.isKey with
  | true => rw [MemberKind.isPersisted_of_isKey hkey, Bool.and_true]
  | false => rw [Bool.false_and]

/-- A member is exactly one of a key, another persisted member, and a computed member. -/
theorem parts_of_mem (hf : f ∈ d.members) :
    (f ∈ d.keyMembers ∧ f ∉ d.nonKeyMembers ∧ f.kind ≠ .computed) ∨
    (f ∉ d.keyMembers ∧ f ∈ d.nonKeyMembers ∧ f.kind ≠ .computed) ∨
    (f ∉ d.keyMembers ∧ f ∉ d.nonKeyMembers ∧ f.kind = .computed) := by
  simp only [keyMembers, nonKeyMembers, columnMembers, List.mem_filter, hf, true_and]
  cases f.kind <;> decide

/-- The members of a valid mapping hold at most one generated key. -/
theorem eq_of_autoKey (h : ofMapping mapping = .ok d) (hf : f ∈ d.members) (hg : g ∈ d.members)
    (hfkind : f.kind = .autoKey) (hgkind : g.kind = .autoKey) : f = g := by
  by_contra hne
  have hpairs := (orderly_members h).autoKeys
  have : Std.Symm fun f g : Member => ¬(f.kind = .autoKey ∧ g.kind = .autoKey) :=
    ⟨fun _ _ hfg hgf => hfg hgf.symm⟩
  exact hpairs.forall hf hg hne ⟨hfkind, hgkind⟩

/-- The generated key is the one member that is generated. -/
theorem autoKey?_eq_some_iff (h : ofMapping mapping = .ok d) :
    d.autoKey? = some f ↔ f ∈ d.members ∧ f.kind = .autoKey := by
  constructor
  · intro hauto
    exact ⟨List.mem_of_find?_eq_some hauto, by simpa using List.find?_some hauto⟩
  · rintro ⟨hf, hkind⟩
    cases hauto : d.autoKey? with
    | none => exact absurd hkind (by simpa using List.find?_eq_none.mp hauto f hf)
    | some g =>
      have hgkind : g.kind = .autoKey := by simpa using List.find?_some hauto
      rw [eq_of_autoKey h hf (List.mem_of_find?_eq_some hauto) hkind hgkind]

/-- The member of a name is the one member with this name, whatever the case of letters. -/
theorem member?_eq_some_iff (h : ofMapping mapping = .ok d) {name : String} :
    d.member? name = some f ↔ f ∈ d.members ∧ Text.sameName f.name name = true := by
  constructor
  · intro hmember
    exact ⟨mem_of_member?_eq_some hmember, sameName_of_member?_eq_some hmember⟩
  · rintro ⟨hf, hname⟩
    cases hmember : d.member? name with
    | none =>
      rw [member?_eq_none_iff.mp hmember f hf] at hname
      cases hname
    | some g =>
      have hgname := sameName_of_member?_eq_some hmember
      have hsame : Text.sameName g.name f.name = true := by
        rw [Text.sameName_eq_true_iff] at hname hgname ⊢
        rw [hname, hgname]
      rw [eq_of_sameName h (mem_of_member?_eq_some hmember) hf hsame]

/-- Metadata that validation accepts describes the mapping. -/
theorem describes_of_ofMapping (h : ofMapping mapping = .ok d) : d.Describes mapping where
  entity_eq := by rw [eq_of_ofMapping h]
  table_eq := by rw [eq_of_ofMapping h]
  members_eq := by rw [eq_of_ofMapping h]
  parts _ hf := parts_of_mem hf
  columns_sublist := List.filter_sublist
  columns_perm := by
    rw [keyMembers_eq]
    exact List.filter_append_perm _ _
  keys_sublist := by
    rw [keyMembers_eq]
    exact List.filter_sublist
  nonKeys_sublist := List.filter_sublist
  autoKey_iff _ := autoKey?_eq_some_iff h
  autoKey_mem f hauto := by
    obtain ⟨hf, hkind⟩ := (autoKey?_eq_some_iff h).mp hauto
    exact List.mem_filter.mpr ⟨hf, by rw [hkind]; rfl⟩
  selectFields_eq := rfl
  member_iff _ _ := member?_eq_some_iff h

end Metadata

/-! ### No statement lacks an accessor -/

/-- The fault that a member has no accessor. -/
def Fault.isMissingAccessor : Fault → Bool
  | .mapping _ (.unknownMember _) => true
  | _ => false

/-- A result that is not the fault that a member has no accessor. -/
def FindsAccessors {α : Type} (r : Except Fault α) : Prop :=
  ∀ e, r = .error e → e.isMissingAccessor = false

namespace FindsAccessors

variable {α β : Type}

theorem ok (a : α) : FindsAccessors (.ok a) :=
  nofun

theorem error {e : Fault} (h : e.isMissingAccessor = false) :
    FindsAccessors (.error e : Except Fault α) := by
  rintro _ ⟨⟩
  exact h

/-- Two steps in a row. -/
theorem bind {r : Except Fault α} {f : α → Except Fault β} (hr : FindsAccessors r)
    (hf : ∀ a, FindsAccessors (f a)) : FindsAccessors (r >>= f) := by
  cases r with
  | error e => exact error (hr e rfl)
  | ok a => exact hf a

/-- A result that is changed. -/
theorem map {r : Except Fault α} {f : α → β} (hr : FindsAccessors r) :
    FindsAccessors (r.map f) :=
  fun e he => hr e (map_eq_error_iff.mp he)

/-- The same step for each of several items. -/
theorem mapM {f : α → Except Fault β} (hf : ∀ a, FindsAccessors (f a)) (as : List α) :
    FindsAccessors (as.mapM f) := by
  intro e he
  obtain ⟨-, a, -, hfails, -⟩ := mapM_eq_error_iff.mp he
  exact hf a e hfails

end FindsAccessors

namespace Surroundings

variable {α β : Type} (s : Surroundings)

/-- Whatever the binder, a computation does not fail for want of an accessor. -/
def FindsAll (x : BindM α) : Prop :=
  ∀ b, FindsAccessors (x.runFrom b).1

/-- Two computations in a row. -/
theorem findsAll_bind {x : BindM α} {f : α → BindM β} (hx : FindsAll x)
    (hf : ∀ a, FindsAll (f a)) : FindsAll (x >>= f) := by
  intro b
  have hfirst := hx b
  rw [BindM.runFrom_bind]
  rcases hrun : x.runFrom b with ⟨e | a, b'⟩
  · rw [hrun] at hfirst
    exact .error (hfirst e rfl)
  · exact hf a b'

/-- A result or fault without binding. -/
theorem findsAll_lift {r : Except Fault α} (hr : FindsAccessors r) :
    FindsAll (liftM r : BindM α) :=
  fun _ => hr

/-- Looking up a name that no member has is a fault of the expression. -/
theorem findsAccessors_lookup (d : Metadata) (name : String) : FindsAccessors (d.lookup name) := by
  unfold Metadata.lookup
  split
  · exact .ok _
  · exact .error rfl

/-- Binding a condition. -/
theorem findsAll_bindCondition (c : Condition) : FindsAll (s.bindCondition c) := by
  intro b e he
  have hverdict := s.bindCondition_judged c b
  rw [he] at hverdict
  -- a condition that is refused is refused with a fault of the expression
  cases hwrong : c.leaves.findSome? (·.leafFault? s.metadata) <;> rw [hwrong] at hverdict <;>
    cases hverdict
  rfl

/-- Binding a term. -/
theorem findsAll_bindTerm (member : String) (x : Term) : FindsAll (s.bindTerm member x) := by
  induction x with
  | value v =>
    cases v with
    | null => exact fun _ => .ok _
    | list => exact fun _ => .error rfl
    | _ => exact fun _ => .ok _
  | member m =>
    exact findsAll_bind (findsAll_lift (findsAccessors_lookup _ m).map) fun _ _ => .ok _
  | binary l op r ihl ihr =>
    exact findsAll_bind ihl fun _ => findsAll_bind ihr fun _ _ => .ok _

/-- Binding an assignment. -/
theorem findsAll_bindAssignment (a : Assignment) : FindsAll (s.bindAssignment a) := by
  refine findsAll_bind (findsAll_lift (findsAccessors_lookup _ a.member)) fun m => ?_
  cases m.kind.isPersisted with
  | true => exact findsAll_bind (s.findsAll_bindTerm m.name a.term) fun _ _ => .ok _
  | false => exact fun _ => .error rfl

/-- Binding assignments. -/
theorem findsAll_bindAssignments (as : List Assignment) : FindsAll (s.bindAssignments as) := by
  have hall (as : List Assignment) : FindsAll (as.mapM s.bindAssignment) := by
    induction as with
    | nil => exact fun _ => .ok _
    | cons a as ih =>
      rw [List.mapM_cons]
      exact findsAll_bind (s.findsAll_bindAssignment a) fun _ => findsAll_bind ih fun _ _ => .ok _
  cases as with
  | nil => exact fun _ => .error rfl
  | cons a as => exact hall (a :: as)

/-- The written form of a projection. -/
theorem findsAccessors_projectionText (p : Projection) : FindsAccessors (s.projectionText p) := by
  refine .map ?_
  unfold columnsOf
  split
  · exact .error rfl
  · exact .mapM (fun name => (findsAccessors_lookup _ name).map) _

/-- The written form of sort keys. -/
theorem findsAccessors_orderText (keys : List SortKey) : FindsAccessors (s.orderText keys) := by
  unfold orderText
  split
  · exact .error rfl
  · exact .map (.mapM (fun k : SortKey => (findsAccessors_lookup _ k.member).map.map) _)

end Surroundings

section Drafts

variable (d : Dialect) (m : Metadata)

/-- Restricting a draft to the rows of a condition. -/
theorem Draft.findsAccessors_filtered (x : Draft) (c : Condition) :
    FindsAccessors (x.filtered d m c) := by
  have hbinds := (⟨m, d, ""⟩ : Surroundings).findsAll_bindCondition c
    (Binder.avoiding (x.parameters.map (·.name)))
  unfold Draft.filtered
  dsimp only
  split
  · rename_i e _ hrun
    rw [hrun] at hbinds
    exact .error (hbinds e rfl)
  · exact .ok _

/-- The same with a condition that may be missing. -/
theorem Draft.findsAccessors_filteredBy (x : Draft) (c : Option Condition) :
    FindsAccessors (x.filteredBy d m c) := by
  cases c with
  | none => exact .ok x
  | some c => exact x.findsAccessors_filtered d m c

/-- Asking for a condition. -/
theorem findsAccessors_requireCondition (operation : String) (c : Option Condition) :
    FindsAccessors (requireCondition m operation c) := by
  cases c with
  | none => exact .error rfl
  | some c => exact .ok c

/-- Asking for a key. -/
theorem findsAccessors_requireKeys (operation : String) :
    FindsAccessors (m.requireKeys operation) := by
  unfold Metadata.requireKeys
  split
  · exact .ok _
  · exact .error rfl

/-- The insertion of fields. -/
theorem findsAccessors_insertDraft (suffix : String) (fs : List Field) :
    FindsAccessors (insertDraft d m suffix fs) := by
  unfold insertDraft
  dsimp only
  split
  · exact .error rfl
  · exact .ok _

/-- The assignments of fields. -/
theorem findsAccessors_assignmentsDraft (suffix : String) (fs : List Field) :
    FindsAccessors (assignmentsDraft d m suffix fs) := by
  unfold assignmentsDraft
  dsimp only
  split
  · exact .error rfl
  · exact .ok _

/-- The condition on the keys. -/
theorem findsAccessors_keyClause (suffix : String) (keys : List Field) :
    FindsAccessors (keyClause d m suffix keys) := by
  unfold keyClause
  split
  · exact .error rfl
  · exact .ok _

/-- The update of a row. -/
theorem findsAccessors_updateDraft (suffix : String) (fs keys : List Field) :
    FindsAccessors (updateDraft d m suffix fs keys) :=
  .bind (findsAccessors_assignmentsDraft d m suffix fs) fun _ =>
    .bind (findsAccessors_keyClause d m suffix keys) fun _ => .ok _

/-- The deletion of a row. -/
theorem findsAccessors_deleteDraft (suffix : String) (keys : List Field) :
    FindsAccessors (deleteDraft d m suffix keys) :=
  .bind (findsAccessors_keyClause d m suffix keys) fun _ => .ok _

/-- The drafts of a batch. -/
theorem findsAccessors_draftBatch {α : Type} (size : Nat) {draft : String → α → Except Fault Draft}
    (hdraft : ∀ suffix x, FindsAccessors (draft suffix x)) (items : List α) :
    FindsAccessors (draftBatch d size draft items) :=
  .mapM (fun _ => .bind (.mapM (fun _ => hdraft _ _) _) fun _ => .ok _) _

/-- The sort keys of an order. -/
theorem Build.findsAccessors_orderKeys? (order : Option (List SortKey)) :
    FindsAccessors (Build.orderKeys? d m order) := by
  cases order with
  | none => exact .ok none
  | some order => exact .map (Surroundings.findsAccessors_orderText _ order)

/-- What a query reads. -/
theorem SelectKind.findsAccessors_columns (k : SelectKind) (p : Projection) (text : String) :
    FindsAccessors (k.columns p text) := by
  cases k with
  | max | min =>
    by_cases harity : p.names.length = 1
    · rw [SelectKind.columns, if_pos harity]
      exact .ok _
    · rw [SelectKind.columns, if_neg harity]
      exact .error rfl
  | _ => exact .ok _

variable (t : EntityType)

/-- The update of the rows of a condition by listed members. -/
theorem Build.findsAccessors_draftListed (x : Instance) (names : List String)
    (c : Option Condition) : FindsAccessors (Build.draftListed d t m x names c) := by
  refine .bind (findsAccessors_requireCondition m _ c) fun c => ?_
  cases names.isEmpty with
  | true => exact .error rfl
  | false =>
    cases hunknown : names.find? fun n => (m.member? n).isNone with
    | some n =>
      -- a listed name that no member has is a fault of the expression
      exact .error rfl
    | none =>
      simp only [Bool.false_eq_true, if_false]
      cases (m.columnMembers.filter fun f => isListed names f.name).isEmpty with
      | true => exact .error rfl
      | false => exact Draft.findsAccessors_filtered d m _ c

/-- The update of the rows of a condition by expressions. -/
theorem Build.findsAccessors_draftSet (as : List Assignment) (c : Option Condition) :
    FindsAccessors (Build.draftSet d m as c) := by
  refine .bind (findsAccessors_requireCondition m _ c) fun c => ?_
  have hbinds := (⟨m, d, ""⟩ : Surroundings).findsAll_bindAssignments as (Binder.avoiding [])
  rcases hrun : ((⟨m, d, ""⟩ : Surroundings).bindAssignments as).runFrom (Binder.avoiding [])
    with ⟨e | bound, b⟩
  · rw [hrun] at hbinds
    exact .error (hbinds e rfl)
  · exact Draft.findsAccessors_filtered d m _ c

/-- The drafts of an operation. -/
theorem Build.findsAccessors_drafts (b : Build) : FindsAccessors (b.drafts d t m) := by
  cases b with
  | insert x => exact .map (.bind (findsAccessors_insertDraft d m _ _) fun _ => .ok _)
  | insertBatch xs size =>
    exact findsAccessors_draftBatch d size (fun _ _ => findsAccessors_insertDraft d m _ _) xs
  | update x =>
    refine .map (.bind (findsAccessors_requireKeys m _) fun _ => ?_)
    exact findsAccessors_updateDraft d m _ _ _
  | updateBatch xs size =>
    refine .bind (findsAccessors_requireKeys m _) fun _ => ?_
    exact findsAccessors_draftBatch d size (fun _ _ => findsAccessors_updateDraft d m _ _ _) xs
  | updateWhere x c | updateIgnoring x ignored c =>
    refine .map (.bind (findsAccessors_requireCondition m _ c) fun c => ?_)
    refine .bind (findsAccessors_assignmentsDraft d m _ _) fun assignments => ?_
    exact Draft.findsAccessors_filtered d m _ c
  | updateFields x names c => exact .map (findsAccessors_draftListed d m t x names c)
  | updateSet as c => exact .map (findsAccessors_draftSet d m as c)
  | delete x =>
    refine .map (.bind (findsAccessors_requireKeys m _) fun _ => ?_)
    exact findsAccessors_deleteDraft d m _ _
  | deleteBatch xs size =>
    refine .bind (findsAccessors_requireKeys m _) fun _ => ?_
    exact findsAccessors_draftBatch d size (fun _ _ => findsAccessors_deleteDraft d m _ _) xs
  | deleteWhere c =>
    refine .map (.bind (findsAccessors_requireCondition m _ c) fun c => ?_)
    exact Draft.findsAccessors_filtered d m _ c
  | select c order =>
    refine .map (.bind (Draft.findsAccessors_filteredBy d m _ c) fun draft => ?_)
    exact .bind (findsAccessors_orderKeys? d m order) fun _ => .ok _
  | selectProjection c p k =>
    refine .map (.bind (Surroundings.findsAccessors_projectionText _ p) fun text => ?_)
    refine .bind (k.findsAccessors_columns p text) fun columns => ?_
    exact Draft.findsAccessors_filteredBy d m _ c
  | count c => exact .map (Draft.findsAccessors_filteredBy d m _ c)

end Drafts

/-- Validation accepts exactly the valid mappings, and refuses the others for a blank table or else
for the first member that offends. What it accepts describes the mapping. From every catalog that
serves the type, each member then has its own accessor, and no statement fails to be built for want
of one. -/
theorem validation_accepts_exactly_valid_mappings (t : EntityType) :
    ((∃ d, Metadata.ofMapping t.mapping = .ok d) ↔ t.mapping.Valid) ∧
    (∀ e, Metadata.ofMapping t.mapping = .error e ↔
      ∃ cause, t.mapping.Fails cause ∧ e = .mapping t.mapping.entity cause) ∧
    ∀ d, Metadata.ofMapping t.mapping = .ok d →
      d.Describes t.mapping ∧
      (∀ before f after, d.members = before ++ f :: after →
        t.Answers (t.accessor f.name) (.ok ⟨f.name, before.length, f.type⟩)) ∧
      ∀ (engine : Dialect) (b : Build), ∃ r, t.Answers (b.statements engine t) r ∧
        ∀ entity name, r ≠ .error (.mapping entity (.unknownMember name)) := by
  refine ⟨Metadata.exists_ofMapping_iff, fun e => Metadata.ofMapping_eq_error_iff, fun d hd => ?_⟩
  refine ⟨Metadata.describes_of_ofMapping hd, fun before f after hsplit => ?_,
    fun engine b => ⟨_, Build.statements_answers hd b, fun entity name hmissing => ?_⟩⟩
  · refine (t.accessor_answers f.name).congr ?_
    rw [Mapping.accessor, Mapping.accessor?_of_split hd hsplit]
  · have hfinds := Build.findsAccessors_drafts engine d t b
    cases hfinds _ (map_eq_error_iff.mp hmissing)

/-- The mapping of parts is valid, its metadata describe it, and the accessor of its second member
is the one at that place. -/
theorem validation_accepts_parts :
    EntityType.parts.mapping.Valid ∧
      (⟨"Part", "PARTS", EntityType.parts.mapping.members⟩ : Metadata).Describes
        EntityType.parts.mapping ∧
      EntityType.parts.Answers (EntityType.parts.accessor "size")
        (.ok ⟨"size", 1, .optional .int64⟩) := by
  have hd : Metadata.ofMapping EntityType.parts.mapping =
      .ok ⟨"Part", "PARTS", EntityType.parts.mapping.members⟩ := by decide +kernel
  obtain ⟨hvalid, -, haccepted⟩ := validation_accepts_exactly_valid_mappings .parts
  obtain ⟨hdescribes, haccessor, -⟩ := haccepted _ hd
  exact ⟨hvalid.mp ⟨_, hd⟩, hdescribes, haccessor [⟨"id", "ID", .key, .required .int64⟩]
    ⟨"size", "SIZE", .column, .optional .int64⟩ _ rfl⟩

end EntitySql
