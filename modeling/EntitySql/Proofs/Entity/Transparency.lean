import EntitySql.Statement.Basic

/-!
# What a catalog answers

A catalog that serves an entity type remembers nothing about it but what its mapping
says. Such a catalog answers as the mapping does, and goes on serving every type that
it served before.
-/

namespace EntitySql

/-- Everything that a catalog remembers of an entity type follows from its mapping. -/
structure Catalog.Serves (c : Catalog) (t : EntityType) : Prop where
  /-- Remembered metadata is that of the mapping. -/
  metadata_eq : ∀ e, c.entity? t.id = some e → Metadata.ofMapping t.mapping = .ok e.item
  /-- A remembered accessor is that of the mapping. -/
  accessor_eq : ∀ member e, c.accessor? ⟨t.id, member⟩ = some e →
    t.mapping.accessor? member = some e.item

namespace Catalog

variable {c : Catalog} {t : EntityType}

/-- The empty catalog serves every entity type. -/
theorem serves_empty (t : EntityType) : empty.Serves t where
  metadata_eq := by simp [entity?, empty]
  accessor_eq := by simp [accessor?, empty]

/-- Remembering the metadata of a mapping keeps a catalog serving all types. -/
theorem Serves.addEntity {u : EntityType} {d : Metadata} (h : c.Serves u)
    (hid : u.id = t.id → u = t) (hd : Metadata.ofMapping t.mapping = .ok d) :
    (c.addEntity t.id d).Serves u where
  metadata_eq e he := by
    simp only [entity?, Catalog.addEntity, List.lookup_append] at he
    rcases Option.or_eq_some_iff.mp he with he | ⟨_, he⟩
    · exact h.metadata_eq e he
    · by_cases hsame : u.id = t.id
      · obtain rfl := hid hsame
        obtain rfl : _ = e := by simpa [List.lookup_cons] using he
        exact hd
      · simp [List.lookup_cons, beq_eq_false_iff_ne.mpr hsame] at he
  accessor_eq := h.accessor_eq

/-- Remembering an accessor adds its item under its name, unless there is one. -/
theorem accessor?_addAccessor (c : Catalog) (id member : String) (a : Accessor) :
    ((addAccessor id c a).accessor? ⟨id, member⟩).map (·.item) =
      ((c.accessor? ⟨id, member⟩).map (·.item)).or
        (if a.member = member then some a else none) := by
  cases hc : c.accessor? ⟨id, a.member⟩ with
  | some e =>
    have hsame : addAccessor id c a = c := by simp [addAccessor, hc]
    rw [hsame]
    by_cases hm : a.member = member
    · subst hm
      simp [hc]
    · simp [hm]
  | none =>
    have hmore : (addAccessor id c a).accessors =
        c.accessors ++ [(⟨id, a.member⟩, ⟨c.next, a⟩)] := by simp [addAccessor, hc]
    simp only [accessor?, hmore, List.lookup_append] at hc ⊢
    by_cases hm : a.member = member
    · subst hm
      rw [hc]
      simp
    · have hkey : ((⟨id, member⟩ : AccessorKey) == ⟨id, a.member⟩) = false := by
        simpa using Ne.symm hm
      simp [List.lookup_cons, hkey, hm]

/-- Remembering accessors adds, for each name without one, the first of that name. -/
theorem accessor?_foldl_addAccessor (as : List Accessor) (c : Catalog) (id member : String) :
    ((as.foldl (addAccessor id) c).accessor? ⟨id, member⟩).map (·.item) =
      ((c.accessor? ⟨id, member⟩).map (·.item)).or (as.find? (·.member == member)) := by
  induction as generalizing c with
  | nil => simp
  | cons a as ih =>
    rw [List.foldl_cons, ih, accessor?_addAccessor, Option.or_assoc, List.find?_cons]
    by_cases hm : a.member = member
    · simp [hm]
    · simp [hm, beq_eq_false_iff_ne.mpr hm]

/-- Remembering accessors of one type adds none of another. -/
theorem accessor?_foldl_addAccessor_of_ne {id other : String} (hne : other ≠ id)
    (as : List Accessor) (c : Catalog) (member : String) :
    (as.foldl (addAccessor id) c).accessor? ⟨other, member⟩ = c.accessor? ⟨other, member⟩ := by
  induction as generalizing c with
  | nil => rfl
  | cons a as ih =>
    rw [List.foldl_cons, ih, addAccessor]
    have hkey : ((⟨other, member⟩ : AccessorKey) == ⟨id, a.member⟩) = false := by simp [hne]
    split
    · rfl
    · simp [accessor?, List.lookup_append, List.lookup_cons, hkey]

/-- Remembering accessors leaves the metadata alone. -/
theorem entities_foldl_addAccessor (as : List Accessor) (c : Catalog) (id : String) :
    (as.foldl (addAccessor id) c).entities = c.entities := by
  induction as generalizing c with
  | nil => rfl
  | cons a as ih =>
    rw [List.foldl_cons, ih, addAccessor]
    split <;> rfl

/-- After all accessors of a type are remembered, they are the accessors of its mapping. -/
theorem Serves.accessor?_addAccessors (h : c.Serves t) (member : String) :
    ((c.addAccessors t).accessor? ⟨t.id, member⟩).map (·.item) = t.mapping.accessor? member := by
  rw [addAccessors, accessor?_foldl_addAccessor]
  cases hc : c.accessor? ⟨t.id, member⟩ with
  | none => simp [Mapping.accessor?]
  | some e => simp [h.accessor_eq member e hc]

/-- Remembering the accessors of a type keeps a catalog serving all types. -/
theorem Serves.addAccessors {u : EntityType} (h : c.Serves u) (hid : u.id = t.id → u = t) :
    (c.addAccessors t).Serves u where
  metadata_eq e he := h.metadata_eq e <| by
    rwa [entity?, Catalog.addAccessors, entities_foldl_addAccessor] at he
  accessor_eq member e he := by
    by_cases hsame : u.id = t.id
    · obtain rfl := hid hsame
      rw [← h.accessor?_addAccessors member, he]
      rfl
    · rw [Catalog.addAccessors, accessor?_foldl_addAccessor_of_ne hsame] at he
      exact h.accessor_eq member e he

end Catalog

namespace CatalogM

variable {α β : Type} {c : Catalog}

@[simp] theorem runFrom_pure (a : α) : (pure a : CatalogM α).runFrom c = (.ok a, c) := rfl

@[simp] theorem runFrom_throw (e : Fault) : (throw e : CatalogM α).runFrom c = (.error e, c) := rfl

@[simp] theorem runFrom_lift (r : Except Fault α) : (liftM r : CatalogM α).runFrom c = (r, c) := rfl

@[simp] theorem runFrom_get : (get : CatalogM Catalog).runFrom c = (.ok c, c) := rfl

@[simp] theorem runFrom_modify (f : Catalog → Catalog) :
    (modify f : CatalogM PUnit).runFrom c = (.ok ⟨⟩, f c) := rfl

/-- What comes second runs from the catalog that the first leaves, unless the first fails. -/
theorem runFrom_bind (x : CatalogM α) (f : α → CatalogM β) :
    (x >>= f).runFrom c =
      match x.runFrom c with
      | (.ok a, c') => (f a).runFrom c'
      | (.error e, c') => (.error e, c') := by
  show (ExceptT.bind x f) c = match x c with
    | (.ok a, c') => (f a) c'
    | (.error e, c') => (.error e, c')
  simp only [ExceptT.bind, ExceptT.mk, bind, StateT.bind]
  rcases x c with ⟨a | e, c'⟩ <;> rfl

/-- Changing a result leaves the catalog alone. -/
theorem runFrom_map (x : CatalogM α) (f : α → β) :
    (f <$> x).runFrom c = ((x.runFrom c).1.map f, (x.runFrom c).2) := by
  rw [map_eq_pure_bind, runFrom_bind]
  rcases x.runFrom c with ⟨e | a, c'⟩ <;> rfl

end CatalogM

namespace EntityType

variable {α β : Type} {t : EntityType}

/-- From every catalog that serves an entity type, a computation has one and the same result, and
the catalog goes on serving all types, no two of which have one id. -/
def Answers (t : EntityType) (x : CatalogM α) (r : Except Fault α) : Prop :=
  ∀ c : Catalog, c.Serves t → (x.runFrom c).1 = r ∧
    ∀ u : EntityType, (u.id = t.id → u = t) → c.Serves u → (x.runFrom c).2.Serves u

/-- A result that does not ask the catalog. -/
theorem answers_pure (a : α) : t.Answers (pure a) (.ok a) :=
  fun _ _ => ⟨rfl, fun _ _ hu => hu⟩

/-- A result or fault that does not ask the catalog. -/
theorem answers_lift (r : Except Fault α) : t.Answers (liftM r) r :=
  fun _ _ => ⟨rfl, fun _ _ hu => hu⟩

/-- Two computations in a row. -/
theorem answers_bind {x : CatalogM α} {r : Except Fault α} {f : α → CatalogM β}
    {g : α → Except Fault β} (hx : t.Answers x r) (hf : ∀ a, r = .ok a → t.Answers (f a) (g a)) :
    t.Answers (x >>= f) (r >>= g) := by
  intro c hc
  obtain ⟨hr, hserves⟩ := hx c hc
  rw [CatalogM.runFrom_bind]
  rcases hrun : x.runFrom c with ⟨e | a, c'⟩
  · rw [hrun] at hr hserves
    subst hr
    exact ⟨rfl, hserves⟩
  · rw [hrun] at hr hserves
    subst hr
    obtain ⟨hresult, hmore⟩ := hf a rfl c' (hserves t (fun _ => rfl) hc)
    exact ⟨hresult, fun u hid hu => hmore u hid (hserves u hid hu)⟩

/-- The same computation for each of several items in order, up to the first that fails. -/
theorem answers_mapM {f : α → CatalogM β} {g : α → Except Fault β} {xs : List α}
    (h : ∀ x ∈ xs, t.Answers (f x) (g x)) : t.Answers (xs.mapM f) (xs.mapM g) := by
  induction xs with
  | nil => exact answers_pure []
  | cons x xs ih =>
    rw [List.mapM_cons, List.mapM_cons]
    have htail := ih fun y hy => h y (List.mem_cons_of_mem x hy)
    refine answers_bind (h x List.mem_cons_self) fun b _ => ?_
    exact answers_bind (g := fun bs => .ok (b :: bs)) htail fun bs _ => answers_pure (b :: bs)

/-- A result may be given in another way. -/
theorem Answers.congr {x : CatalogM α} {r r' : Except Fault α} (h : t.Answers x r) (heq : r = r') :
    t.Answers x r' :=
  heq ▸ h

/-- A computation has only one result. -/
theorem Answers.iff_eq {x : CatalogM α} {r r' : Except Fault α} (h : t.Answers x r) :
    t.Answers x r' ↔ r = r' := by
  refine ⟨fun h' => ?_, h.congr⟩
  have hresult := (h .empty (Catalog.serves_empty t)).1
  exact hresult.symm.trans (h' .empty (Catalog.serves_empty t)).1

/-- The metadata of a type is that of its mapping. -/
theorem metadata_answers (t : EntityType) :
    t.Answers t.metadata (Metadata.ofMapping t.mapping) := by
  intro c hc
  cases he : c.entity? t.id with
  | some e =>
    have hrun : t.metadata.runFrom c = (.ok e.item, c) := by
      simp [metadata, metadataEntry, CatalogM.runFrom_bind, he]
    rw [hrun]
    exact ⟨(hc.metadata_eq e he).symm, fun _ _ hu => hu⟩
  | none =>
    cases hd : Metadata.ofMapping t.mapping with
    | error e =>
      have hrun : t.metadata.runFrom c = (.error e, c) := by
        simp [metadata, metadataEntry, CatalogM.runFrom_bind, he, hd]
      rw [hrun]
      exact ⟨rfl, fun _ _ hu => hu⟩
    | ok d =>
      have hrun : t.metadata.runFrom c = (.ok d, c.addEntity t.id d) := by
        simp [metadata, metadataEntry, CatalogM.runFrom_bind, CatalogM.runFrom_map, he, hd,
          Except.map]
      rw [hrun]
      exact ⟨rfl, fun _ hid hu => hu.addEntity hid hd⟩

/-- The accessor of a member is that of the mapping. -/
theorem accessor_answers (t : EntityType) (member : String) :
    t.Answers (t.accessor member) (t.mapping.accessor member) := by
  intro c hc
  cases he : c.accessor? ⟨t.id, member⟩ with
  | some e =>
    have hrun : (t.accessor member).runFrom c = (.ok e.item, c) := by
      simp [accessor, accessorEntry, CatalogM.runFrom_bind, he]
    rw [hrun, Mapping.accessor, hc.accessor_eq member e he]
    exact ⟨rfl, fun _ _ hu => hu⟩
  | none =>
    have hitem := hc.accessor?_addAccessors member
    cases ha : (c.addAccessors t).accessor? ⟨t.id, member⟩ with
    | some e =>
      have hrun : (t.accessor member).runFrom c = (.ok e.item, c.addAccessors t) := by
        simp [accessor, accessorEntry, CatalogM.runFrom_bind, he, ha]
      rw [ha, Option.map_some] at hitem
      rw [hrun, Mapping.accessor, ← hitem]
      exact ⟨rfl, fun _ hid hu => hu.addAccessors hid⟩
    | none =>
      have hrun : (t.accessor member).runFrom c =
          (.error (.mapping t.name (.unknownMember member)), c.addAccessors t) := by
        simp [accessor, accessorEntry, CatalogM.runFrom_bind, he, ha]
      rw [ha, Option.map_none] at hitem
      rw [hrun, Mapping.accessor, ← hitem]
      exact ⟨rfl, fun _ hid hu => hu.addAccessors hid⟩

/-- The value of an instance in the member of a name. -/
def value (t : EntityType) (x : Instance) (name : String) : Value :=
  match t.mapping.accessor? name with
  | some a => a.get x
  | none => .null

/-- Members with the values of an instance in them. -/
def fields (t : EntityType) (x : Instance) (ms : List Member) : List Field :=
  ms.map fun m => (m, t.value x m.name)

/-- Every member of a mapping has an accessor. -/
theorem exists_accessor? {m : Member} (hm : m ∈ t.mapping.members) :
    ∃ a, t.mapping.accessor? m.name = some a := by
  have hfrom (position : Nat) (ms : List Member) (hm : m ∈ ms) :
      ∃ a ∈ Mapping.accessorsFrom position ms, a.member = m.name := by
    induction ms generalizing position with
    | nil => simp at hm
    | cons first rest ih =>
      rcases List.mem_cons.mp hm with rfl | hm
      · exact ⟨_, List.mem_cons_self, rfl⟩
      · obtain ⟨a, ha, hname⟩ := ih (position + 1) hm
        exact ⟨a, List.mem_cons_of_mem _ ha, hname⟩
  obtain ⟨a, ha, hname⟩ := hfrom 0 t.mapping.members hm
  exact Option.isSome_iff_exists.mp (List.find?_isSome.mpr ⟨a, ha, by simp [hname]⟩)

/-- The accessors of members of a mapping are found, and read the fields of an instance. -/
theorem fieldAccessors_answers {ms : List Member} (hms : ∀ m ∈ ms, m ∈ t.mapping.members) :
    ∃ as, t.Answers (t.fieldAccessors ms) (.ok as) ∧ ∀ x, readFields as x = t.fields x ms := by
  induction ms with
  | nil => exact ⟨[], answers_pure [], fun _ => rfl⟩
  | cons m ms ih =>
    obtain ⟨as, has, hfields⟩ := ih fun m' hm' => hms m' (List.mem_cons_of_mem m hm')
    obtain ⟨a, ha⟩ := exists_accessor? (hms m List.mem_cons_self)
    refine ⟨(m, a) :: as, ?_, fun x => ?_⟩
    · have haccessor : t.Answers (t.accessor m.name) (.ok a) := by
        have h := accessor_answers t m.name
        rwa [Mapping.accessor, ha] at h
      unfold fieldAccessors at has ⊢
      rw [List.mapM_cons]
      refine answers_bind (r := .ok (m, a)) (g := fun b => .ok (b :: as)) ?_ ?_
      · exact answers_bind (g := fun a => .ok (m, a)) haccessor fun a _ => answers_pure (m, a)
      · exact fun b _ => answers_bind (g := fun bs => .ok (b :: bs)) has fun bs _ => answers_pure _
    · have hvalue : t.value x m.name = a.get x := by simp [value, ha]
      have htail := hfields x
      simp only [readFields, fields, List.map_cons, hvalue] at htail ⊢
      rw [htail]

/-- What is done with metadata is done with that of the mapping. -/
theorem answers_metadata_bind {m : Metadata} {f : Metadata → CatalogM β} {r : Except Fault β}
    (hm : Metadata.ofMapping t.mapping = .ok m) (h : t.Answers (f m) r) :
    t.Answers (t.metadata >>= f) r := by
  have hmetadata := metadata_answers t
  rw [hm] at hmetadata
  refine (answers_bind (g := fun _ => r) hmetadata ?_).congr rfl
  rintro _ ⟨⟩
  exact h

/-- What is done with accessors of members of the mapping is done with some that read the fields
of an instance. -/
theorem answers_fields_bind {ms : List Member} {f : List (Member × Accessor) → CatalogM β}
    {r : Except Fault β} (hms : ∀ m ∈ ms, m ∈ t.mapping.members)
    (h : ∀ as, (∀ x, readFields as x = t.fields x ms) → t.Answers (f as) r) :
    t.Answers (t.fieldAccessors ms >>= f) r := by
  obtain ⟨as, has, hfields⟩ := fieldAccessors_answers hms
  refine (answers_bind (g := fun _ => r) has ?_).congr rfl
  rintro _ ⟨⟩
  exact h as hfields

end EntityType

namespace Metadata

variable {mapping : Mapping} {d : Metadata}

/-- Validation keeps the name, the table and the members of a mapping. -/
theorem eq_of_ofMapping (h : ofMapping mapping = .ok d) :
    d = ⟨mapping.entity, mapping.table, mapping.members⟩ := by
  unfold ofMapping at h
  split at h
  · cases h
  · split at h <;> cases h
    rfl

/-- Members picked from valid metadata are members of the mapping. -/
theorem mem_mapping_of_mem (h : ofMapping mapping = .ok d) {m : Member} (hm : m ∈ d.members) :
    m ∈ mapping.members := by
  rw [eq_of_ofMapping h] at hm
  exact hm

end Metadata

end EntitySql
