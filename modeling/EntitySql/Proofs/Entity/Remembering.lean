import EntitySql.Proofs.Entity.Validity
import EntitySql.Proofs.Fallible

/-!
# What a catalog remembers

A catalog may be asked about any entity types in any order, for their metadata and for
their accessors, whether there are any or not. Each step leaves a catalog that remembers
the types asked about and nothing else, and that goes on remembering what it did before;
so the answers never depend on what was asked earlier.
-/

namespace EntitySql

/-- A question to a catalog about an entity type. -/
inductive Question where
  | metadata
  | accessor (member : String)
  | accessors (members : List String)

/-- A question with the id of the entity type that it is about. -/
structure Inquiry where
  type : String
  question : Question

/-- What a catalog hands out: remembered metadata or remembered accessors. -/
inductive Answer where
  | metadata (entry : Entry Metadata)
  | accessors (entries : List (Entry Accessor))

/-- What an answer says, apart from which remembered items say it. -/
def Answer.items : Answer → Metadata ⊕ List Accessor
  | .metadata e => .inl e.item
  | .accessors es => .inr (es.map (·.item))

/-- Whether a question is for some accessor. -/
def Question.wantsAccessor : Question → Bool
  | .metadata => false
  | .accessor _ => true
  | .accessors ms => !ms.isEmpty

namespace EntityType

/-- The entity type of an id, whose mapping is always the same. -/
def ofSchema (schema : String → Mapping) (id : String) : EntityType :=
  ⟨id, schema id⟩

/-- Asks a catalog about an entity type. -/
def ask (t : EntityType) : Question → CatalogM Answer
  | .metadata => do return .metadata (← t.metadataEntry)
  | .accessor m => do return .accessors [← t.accessorEntry m]
  | .accessors ms => do return .accessors (← ms.mapM t.accessorEntry)

/-- What a mapping by itself says to a question. -/
def said (t : EntityType) : Question → Except Fault (Metadata ⊕ List Accessor)
  | .metadata => (Metadata.ofMapping t.mapping).map .inl
  | .accessor m => (t.mapping.accessor m).map fun a => .inr [a]
  | .accessors ms => (ms.mapM t.mapping.accessor).map .inr

end EntityType

namespace Catalog

/-- The answers to questions one after the other, and the catalog after them. A question that has
no answer does not stop the others. -/
def inquire (schema : String → Mapping) (c : Catalog) :
    List Inquiry → List (Except Fault Answer) × Catalog
  | [] => ([], c)
  | q :: qs =>
    let (a, c') := ((EntityType.ofSchema schema q.type).ask q.question).runFrom c
    let (as, c'') := c'.inquire schema qs
    (a :: as, c'')

/-- The numbers of all remembered items. -/
def serials (c : Catalog) : List Nat :=
  c.entities.map (·.2.serial) ++ c.accessors.map (·.2.serial)

/-- Everything that an answer consists of is remembered for what was asked. -/
inductive HandsOut (c : Catalog) (id : String) : Question → Answer → Prop
  | metadata {e : Entry Metadata} (h : c.entity? id = some e) :
      HandsOut c id .metadata (.metadata e)
  | accessor {m : String} {e : Entry Accessor} (h : c.accessor? ⟨id, m⟩ = some e) :
      HandsOut c id (.accessor m) (.accessors [e])
  | accessors {ms : List String} {es : List (Entry Accessor)}
      (h : List.Forall₂ (fun m e => c.accessor? ⟨id, m⟩ = some e) ms es) :
      HandsOut c id (.accessors ms) (.accessors es)

/-- A catalog that was asked questions, with its answers: what it answered and what it remembers
follow from the mappings and the questions, whatever their order. -/
structure Recalls (schema : String → Mapping) (qs : List Inquiry)
    (answers : List (Except Fault Answer)) (c : Catalog) : Prop where
  /-- Each answer says what a catalog would say that was asked nothing before. -/
  fresh : answers.map (·.map Answer.items) = qs.map fun q =>
    (((EntityType.ofSchema schema q.type).ask q.question).runFrom .empty).1.map Answer.items
  /-- What was handed out is remembered. -/
  stored : ∀ q a, (q, .ok a) ∈ qs.zip answers → c.HandsOut q.type q.question a
  /-- A question that is asked again has the same items for an answer. -/
  repeated : ∀ q a a', (q, .ok a) ∈ qs.zip answers → (q, .ok a') ∈ qs.zip answers → a = a'
  /-- The number of an item tells it from all others. -/
  serials : c.serials.Nodup
  /-- Asking for metadata in vain changes nothing. -/
  failed : ∀ id e c',
    (EntityType.ofSchema schema id).metadataEntry.runFrom c = (.error e, c') → c' = c
  entities_nodup : (c.entities.map (·.1)).Nodup
  /-- Metadata is remembered of the valid types that it was asked of. -/
  entity_iff : ∀ id, id ∈ c.entities.map (·.1) ↔
    (∃ q ∈ qs, q.type = id ∧ q.question = .metadata) ∧ (schema id).Valid
  accessors_nodup : (c.accessors.map (·.1)).Nodup
  /-- Accessors are remembered for all members of the types that some accessor was asked of. -/
  accessor_iff : ∀ key, key ∈ c.accessors.map (·.1) ↔
    (∃ q ∈ qs, q.type = key.type ∧ q.question.wantsAccessor = true) ∧
      ∃ f ∈ (schema key.type).members, f.name = key.member
  /-- Of members with one name, the first counts. -/
  accessor_first : ∀ key e, c.accessor? key = some e →
    ∃ before f after, (schema key.type).members = before ++ f :: after ∧ f.name = key.member ∧
      (∀ g ∈ before, g.name ≠ key.member) ∧ e.item = ⟨f.name, before.length, f.type⟩

end Catalog

/-! ### What the answers say -/

namespace EntityType

variable {t : EntityType}

/-- A result that is changed. -/
theorem Answers.map {α β : Type} {x : CatalogM α} {r : Except Fault α} (h : t.Answers x r)
    (f : α → β) : t.Answers (f <$> x) (r.map f) := by
  rw [map_eq_pure_bind]
  refine (answers_bind h fun a _ => answers_pure (f a)).congr ?_
  cases r <;> rfl

/-- The items of remembered accessors are the accessors. -/
theorem map_item_accessorEntries (t : EntityType) (ms : List String) :
    List.map (·.item) <$> ms.mapM t.accessorEntry = ms.mapM t.accessor := by
  induction ms with
  | nil => simp
  | cons m ms ih => simp [List.mapM_cons, ← ih, accessor]

/-- From every catalog that serves a type, the answer to a question says what the mapping does. -/
theorem ask_answers (t : EntityType) (q : Question) :
    t.Answers (Answer.items <$> t.ask q) (t.said q) := by
  cases q with
  | metadata =>
    have h := t.metadata_answers.map (Sum.inl (β := List Accessor))
    simpa [ask, said, metadata, Answer.items] using h
  | accessor m =>
    have h := (t.accessor_answers m).map fun a => (Sum.inr [a] : Metadata ⊕ List Accessor)
    simpa [ask, said, accessor, Answer.items] using h
  | accessors ms =>
    have hall : t.Answers (ms.mapM t.accessor) (ms.mapM t.mapping.accessor) :=
      answers_mapM fun m _ => t.accessor_answers m
    rw [← map_item_accessorEntries] at hall
    have h := hall.map (Sum.inr (α := Metadata))
    simpa [ask, said, Answer.items] using h

end EntityType

namespace Catalog

variable {schema : String → Mapping} {described touched : String → Prop} {c c' c'' : Catalog}
  {t : EntityType} {id : String}

/-- An answer says what the mapping does, and the catalog goes on serving all types. -/
theorem runFrom_ask (hc : ∀ id, c.Serves (.ofSchema schema id)) (q : Inquiry) :
    (((EntityType.ofSchema schema q.type).ask q.question).runFrom c).1.map Answer.items =
      (EntityType.ofSchema schema q.type).said q.question ∧
    ∀ id, (((EntityType.ofSchema schema q.type).ask q.question).runFrom c).2.Serves
      (.ofSchema schema id) := by
  obtain ⟨hsaid, hserves⟩ :=
    (EntityType.ofSchema schema q.type).ask_answers q.question c (hc q.type)
  rw [CatalogM.runFrom_map] at hsaid hserves
  refine ⟨hsaid, fun id => hserves _ (fun hid => ?_) (hc id)⟩
  exact congrArg (EntityType.ofSchema schema) hid

/-- What the answers to questions say does not depend on the catalog. -/
theorem map_items_inquire (hc : ∀ id, c.Serves (.ofSchema schema id)) (qs : List Inquiry) :
    (c.inquire schema qs).1.map (·.map Answer.items) =
      qs.map fun q => (EntityType.ofSchema schema q.type).said q.question := by
  induction qs generalizing c with
  | nil => rfl
  | cons q qs ih =>
    obtain ⟨hsaid, hserves⟩ := runFrom_ask hc q
    rw [List.map_cons, ← hsaid, ← ih hserves]
    rfl

/-! ### What one step remembers -/

/-- Whatever one catalog remembers, another remembers too. -/
structure Grows (c c' : Catalog) : Prop where
  entities : c.entities <+: c'.entities
  accessors : c.accessors <+: c'.accessors

/-- Nothing is forgotten when nothing changes. -/
theorem Grows.refl (c : Catalog) : c.Grows c :=
  ⟨List.prefix_rfl, List.prefix_rfl⟩

/-- Nothing is forgotten in two steps when nothing is in either. -/
theorem Grows.trans (h : c.Grows c') (h' : c'.Grows c'') : c.Grows c'' :=
  ⟨h.entities.trans h'.entities, h.accessors.trans h'.accessors⟩

private theorem lookup_of_prefix {α β : Type} [BEq α] {xs ys : List (α × β)} {k : α} {v : β}
    (h : xs <+: ys) (hk : xs.lookup k = some v) : ys.lookup k = some v := by
  obtain ⟨more, rfl⟩ := h
  rw [List.lookup_append, hk, Option.some_or]

/-- Remembered metadata stays the same item. -/
theorem Grows.entity? (h : c.Grows c') {e : Entry Metadata} (he : c.entity? id = some e) :
    c'.entity? id = some e :=
  lookup_of_prefix h.entities he

/-- A remembered accessor stays the same item. -/
theorem Grows.accessor? (h : c.Grows c') {key : AccessorKey} {e : Entry Accessor}
    (he : c.accessor? key = some e) : c'.accessor? key = some e :=
  lookup_of_prefix h.accessors he

/-- What was handed out stays remembered. -/
theorem HandsOut.mono {q : Question} {a : Answer} (h : c.HandsOut id q a) (hgrows : c.Grows c') :
    c'.HandsOut id q a := by
  cases h with
  | metadata h => exact .metadata (hgrows.entity? h)
  | accessor h => exact .accessor (hgrows.accessor? h)
  | accessors h => exact .accessors (h.imp fun _ _ => hgrows.accessor?)

/-- One question has one answer. -/
theorem HandsOut.unique {q : Question} {a a' : Answer} (h : c.HandsOut id q a)
    (h' : c.HandsOut id q a') : a = a' := by
  cases h with
  | metadata h =>
    cases h' with
    | metadata h' => rw [Option.some.inj (h.symm.trans h')]
  | accessor h =>
    cases h' with
    | accessor h' => rw [Option.some.inj (h.symm.trans h')]
  | accessors h =>
    cases h' with
    | accessors h' =>
      have hunique : Relator.RightUnique fun m e => c.accessor? ⟨id, m⟩ = some e :=
        fun _ _ _ he he' => Option.some.inj (he.symm.trans he')
      rw [List.right_unique_forall₂' hunique h h']

private theorem lookup_eq_none_iff_key {α β : Type} [BEq α] [LawfulBEq α] {xs : List (α × β)}
    {k : α} : xs.lookup k = none ↔ k ∉ xs.map (·.1) := by
  simp only [List.lookup_eq_none_iff, List.mem_map, not_exists, not_and, bne_iff_ne, ne_eq]
  exact forall₂_congr fun p _ => not_congr eq_comm

private theorem mem_keys_of_lookup {α β : Type} [BEq α] [LawfulBEq α] {xs : List (α × β)} {k : α}
    {v : β} (h : xs.lookup k = some v) : k ∈ xs.map (·.1) := by
  by_contra hnone
  rw [lookup_eq_none_iff_key.mpr hnone] at h
  cases h

private theorem nodup_snoc {α : Type} {xs : List α} {x : α} (h : xs.Nodup) (hx : x ∉ xs) :
    (xs ++ [x]).Nodup :=
  List.concat_eq_append ▸ h.concat hx

/-- The keys of a catalog differ, and so do the numbers of its items. -/
structure Numbered (c : Catalog) : Prop where
  entities : (c.entities.map (·.1)).Nodup
  accessors : (c.accessors.map (·.1)).Nodup
  serials : c.serials.Nodup
  below : ∀ n ∈ c.serials, n < c.next

/-- Remembering metadata of a type that has none leaves all keys and numbers different. -/
theorem Numbered.addEntity {d : Metadata} (h : c.Numbered) (hnew : c.entity? id = none) :
    (c.addEntity id d).Numbered := by
  have hnext : c.next ∉ c.serials := fun hmem => Nat.lt_irrefl _ (h.below _ hmem)
  have hserials : (c.addEntity id d).serials.Perm (c.next :: c.serials) := by
    simp [Catalog.serials, Catalog.addEntity]
  refine ⟨?_, h.accessors, ?_, fun n hn => ?_⟩
  · simp only [Catalog.addEntity, List.map_append, List.map_cons, List.map_nil]
    exact nodup_snoc h.entities (lookup_eq_none_iff_key.mp hnew)
  · exact hserials.nodup_iff.mpr (List.nodup_cons.mpr ⟨hnext, h.serials⟩)
  · rcases List.mem_cons.mp (hserials.mem_iff.mp hn) with rfl | hn
    · exact Nat.lt_succ_self _
    · exact Nat.lt_succ_of_lt (h.below n hn)

/-- Remembering an accessor leaves all keys and numbers different. -/
theorem Numbered.addAccessor (h : c.Numbered) (id : String) (a : Accessor) :
    (Catalog.addAccessor id c a).Numbered := by
  unfold Catalog.addAccessor
  dsimp only
  split
  · exact h
  · rename_i hnew
    have hnext : c.next ∉ c.serials := fun hmem => Nat.lt_irrefl _ (h.below _ hmem)
    refine ⟨h.entities, ?_, ?_, fun n hn => ?_⟩
    · simp only [List.map_append, List.map_cons, List.map_nil]
      exact nodup_snoc h.accessors (lookup_eq_none_iff_key.mp hnew)
    · simp only [Catalog.serials, List.map_append, List.map_cons, List.map_nil]
      rw [← List.append_assoc]
      exact nodup_snoc h.serials hnext
    · simp only [Catalog.serials, List.map_append, List.map_cons, List.map_nil] at hn
      rw [← List.append_assoc] at hn
      rcases List.mem_append.mp hn with hn | hn
      · exact Nat.lt_succ_of_lt (h.below n hn)
      · rw [List.mem_singleton.mp hn]
        exact Nat.lt_succ_self _

/-- Nothing is forgotten when an accessor is remembered. -/
theorem grows_addAccessor (c : Catalog) (a : Accessor) : c.Grows (addAccessor id c a) := by
  unfold addAccessor
  dsimp only
  split
  · exact .refl c
  · exact ⟨List.prefix_rfl, List.prefix_append _ _⟩

/-- The keys after an accessor is remembered. -/
theorem mem_keys_addAccessor (c : Catalog) (a : Accessor) (key : AccessorKey) :
    key ∈ (addAccessor id c a).accessors.map (·.1) ↔
      key ∈ c.accessors.map (·.1) ∨ key = ⟨id, a.member⟩ := by
  unfold addAccessor
  dsimp only
  split
  · rename_i e he
    have hmem : (⟨id, a.member⟩ : AccessorKey) ∈ c.accessors.map (·.1) := mem_keys_of_lookup he
    exact ⟨Or.inl, fun h => h.elim (fun h => h) fun h => h ▸ hmem⟩
  · rw [List.map_append, List.mem_append, List.map_singleton, List.mem_singleton]

/-- Remembering the accessors of a type forgets nothing and leaves all keys and numbers different;
the new keys are those of the accessors. -/
theorem foldl_addAccessor (h : c.Numbered) (id : String) (as : List Accessor) :
    (as.foldl (addAccessor id) c).Numbered ∧ c.Grows (as.foldl (addAccessor id) c) ∧
      ∀ key, key ∈ (as.foldl (addAccessor id) c).accessors.map (·.1) ↔
        key ∈ c.accessors.map (·.1) ∨ ∃ a ∈ as, key = ⟨id, a.member⟩ := by
  induction as generalizing c with
  | nil => exact ⟨h, .refl c, by simp⟩
  | cons a as ih =>
    obtain ⟨hnumbered, hgrows, hkeys⟩ := ih (h.addAccessor id a)
    refine ⟨hnumbered, (c.grows_addAccessor a).trans hgrows, fun key => ?_⟩
    rw [List.foldl_cons, hkeys, mem_keys_addAccessor, List.exists_mem_cons_iff, or_assoc]

end Catalog

namespace EntityType

variable {c : Catalog}

/-- Metadata is remembered already, or found valid and then remembered, or found wanting. -/
theorem runFrom_metadataEntry (t : EntityType) (c : Catalog) :
    t.metadataEntry.runFrom c =
      match c.entity? t.id with
      | some e => (.ok e, c)
      | none =>
        match Metadata.ofMapping t.mapping with
        | .ok d => (.ok ⟨c.next, d⟩, c.addEntity t.id d)
        | .error e => (.error e, c) := by
  cases he : c.entity? t.id with
  | some e => simp [metadataEntry, CatalogM.runFrom_bind, he]
  | none =>
    cases hd : Metadata.ofMapping t.mapping <;>
      simp [metadataEntry, CatalogM.runFrom_bind, CatalogM.runFrom_map, he, hd, Except.map]

/-- An accessor is remembered already, or it is looked for after those of the type are. -/
theorem runFrom_accessorEntry (t : EntityType) (member : String) (c : Catalog) :
    (t.accessorEntry member).runFrom c =
      match c.accessor? ⟨t.id, member⟩ with
      | some e => (.ok e, c)
      | none =>
        match (c.addAccessors t).accessor? ⟨t.id, member⟩ with
        | some e => (.ok e, c.addAccessors t)
        | none => (.error (.mapping t.name (.unknownMember member)), c.addAccessors t) := by
  cases he : c.accessor? ⟨t.id, member⟩ with
  | some e => simp [accessorEntry, CatalogM.runFrom_bind, he]
  | none =>
    cases ha : (c.addAccessors t).accessor? ⟨t.id, member⟩ <;>
      simp [accessorEntry, CatalogM.runFrom_bind, he, ha]

end EntityType

namespace Mapping

/-- The accessors of members have the names of the members. -/
theorem map_member_accessorsFrom (position : Nat) (ms : List Member) :
    (accessorsFrom position ms).map (·.member) = ms.map (·.name) := by
  induction ms generalizing position with
  | nil => rfl
  | cons m ms ih => rw [accessorsFrom, List.map_cons, List.map_cons, ih]

/-- An accessor that is found by name is that of the first member with the name. -/
theorem exists_split_of_find? {position : Nat} {ms : List Member} {name : String} {a : Accessor}
    (h : (accessorsFrom position ms).find? (·.member == name) = some a) :
    ∃ before f after, ms = before ++ f :: after ∧ f.name = name ∧
      (∀ g ∈ before, g.name ≠ name) ∧ a = ⟨f.name, position + before.length, f.type⟩ := by
  induction ms generalizing position with
  | nil => cases h
  | cons m ms ih =>
    rw [accessorsFrom] at h
    by_cases hname : m.name = name
    · rw [List.find?_cons_of_pos (by simpa using hname)] at h
      cases h
      exact ⟨[], m, ms, rfl, hname, nofun, rfl⟩
    · rw [List.find?_cons_of_neg (by simpa using hname)] at h
      obtain ⟨before, f, after, rfl, hf, hbefore, rfl⟩ := ih h
      refine ⟨m :: before, f, after, rfl, hf, List.forall_mem_cons.mpr ⟨hname, hbefore⟩, ?_⟩
      rw [List.length_cons, Nat.add_right_comm, Nat.add_assoc]

end Mapping

namespace Catalog

variable {schema : String → Mapping} {described touched : String → Prop} {c c' : Catalog}
  {id : String}

/-- What a catalog remembers when metadata was asked of some types and accessors of some: the
metadata of the former that are valid, and the accessors of all members of the latter. -/
structure Remembers (schema : String → Mapping) (described touched : String → Prop) (c : Catalog) :
    Prop where
  serves : ∀ id, c.Serves (.ofSchema schema id)
  numbered : c.Numbered
  entity_iff : ∀ id, id ∈ c.entities.map (·.1) ↔ described id ∧ (schema id).Valid
  accessor_iff : ∀ key, key ∈ c.accessors.map (·.1) ↔
    touched key.type ∧ ∃ f ∈ (schema key.type).members, f.name = key.member

/-- The empty catalog remembers what no question was asked of. -/
theorem remembers_empty (schema : String → Mapping) :
    empty.Remembers schema (fun _ => False) fun _ => False where
  serves id := serves_empty _
  numbered := ⟨.nil, .nil, .nil, nofun⟩
  entity_iff := by simp [empty]
  accessor_iff := by simp [empty]

/-- The types that were asked about may be told in another way. -/
theorem Remembers.congr {described' touched' : String → Prop}
    (h : c.Remembers schema described touched) (hdescribed : ∀ id, described id ↔ described' id)
    (htouched : ∀ id, touched id ↔ touched' id) : c.Remembers schema described' touched' where
  serves := h.serves
  numbered := h.numbered
  entity_iff id := by rw [h.entity_iff, hdescribed]
  accessor_iff key := by rw [h.accessor_iff, htouched]

/-- Asking for metadata adds a type to those that it was asked of. -/
theorem Remembers.metadataEntry (h : c.Remembers schema described touched) (id : String)
    {r : Except Fault (Entry Metadata)}
    (hrun : (EntityType.ofSchema schema id).metadataEntry.runFrom c = (r, c')) :
    c'.Remembers schema (fun other => described other ∨ id = other) touched ∧ c.Grows c' ∧
      ∀ e, r = .ok e → c'.entity? id = some e := by
  rw [EntityType.runFrom_metadataEntry] at hrun
  have hid : (EntityType.ofSchema schema id).id = id := rfl
  have hmapping : (EntityType.ofSchema schema id).mapping = schema id := rfl
  rw [hid, hmapping] at hrun
  cases he : c.entity? id with
  | some e =>
    -- metadata that is remembered was asked for before
    rw [he] at hrun
    cases hrun
    have hmem : id ∈ c.entities.map (·.1) := mem_keys_of_lookup he
    refine ⟨h.congr (fun other => ⟨Or.inl, ?_⟩) fun _ => Iff.rfl, .refl c, ?_⟩
    · rintro (hdescribed | rfl)
      · exact hdescribed
      · exact ((h.entity_iff _).mp hmem).1
    · rintro _ ⟨⟩
      exact he
  | none =>
    rw [he] at hrun
    cases hd : Metadata.ofMapping (schema id) with
    | error e =>
      rw [hd] at hrun
      cases hrun
      have hinvalid : ¬(schema id).Valid := fun hvalid => by
        rw [Metadata.ofMapping_of_valid hvalid] at hd
        cases hd
      refine ⟨⟨h.serves, h.numbered, fun other => ?_, h.accessor_iff⟩, .refl c, ?_⟩
      · rw [h.entity_iff]
        refine ⟨fun hother => ⟨Or.inl hother.1, hother.2⟩, ?_⟩
        rintro ⟨hdescribed | rfl, hvalid⟩
        · exact ⟨hdescribed, hvalid⟩
        · exact absurd hvalid hinvalid
      · rintro _ ⟨⟩
    | ok d =>
      rw [hd] at hrun
      cases hrun
      have hvalid : (schema id).Valid := Metadata.exists_ofMapping_iff.mp ⟨d, hd⟩
      refine ⟨⟨fun other => ?_, h.numbered.addEntity he, fun other => ?_, h.accessor_iff⟩,
        ⟨List.prefix_append _ _, List.prefix_rfl⟩, ?_⟩
      · exact (h.serves other).addEntity (t := .ofSchema schema id)
          (fun hsame => congrArg (EntityType.ofSchema schema) hsame) hd
      · simp only [addEntity, List.map_append, List.map_cons, List.map_nil, List.mem_append,
          List.mem_singleton]
        rw [h.entity_iff, or_and_right, eq_comm]
        refine or_congr_right ⟨?_, And.left⟩
        rintro rfl
        exact ⟨rfl, hvalid⟩
      · rintro _ ⟨⟩
        have hnone : c.entities.lookup id = none := he
        simp [entity?, addEntity, List.lookup_append, hnone]

/-- Asking for an accessor adds a type to those that it was asked of. -/
theorem Remembers.accessorEntry (h : c.Remembers schema described touched) (id member : String)
    {r : Except Fault (Entry Accessor)}
    (hrun : ((EntityType.ofSchema schema id).accessorEntry member).runFrom c = (r, c')) :
    c'.Remembers schema described (fun other => touched other ∨ id = other) ∧ c.Grows c' ∧
      ∀ e, r = .ok e → c'.accessor? ⟨id, member⟩ = some e := by
  rw [EntityType.runFrom_accessorEntry] at hrun
  have hid : (EntityType.ofSchema schema id).id = id := rfl
  rw [hid] at hrun
  cases he : c.accessor? ⟨id, member⟩ with
  | some e =>
    -- an accessor that is remembered is of a type that was asked about
    rw [he] at hrun
    cases hrun
    have hmem : (⟨id, member⟩ : AccessorKey) ∈ c.accessors.map (·.1) := mem_keys_of_lookup he
    refine ⟨h.congr (fun _ => Iff.rfl) fun other => ⟨Or.inl, ?_⟩, .refl c, ?_⟩
    · rintro (htouched | rfl)
      · exact htouched
      · exact ((h.accessor_iff _).mp hmem).1
    · rintro _ ⟨⟩
      exact he
  | none =>
    -- the accessors of all members are remembered, whether one has the name or not
    obtain ⟨hnumbered, hgrows, hkeys⟩ :=
      foldl_addAccessor h.numbered id (schema id).accessors
    have hadded : (c.addAccessors (.ofSchema schema id)).Remembers schema described
        fun other => touched other ∨ id = other := by
      refine ⟨fun other => ?_, hnumbered, fun other => ?_, fun key => ?_⟩
      · exact (h.serves other).addAccessors fun hsame => congrArg (EntityType.ofSchema schema) hsame
      · rw [← h.entity_iff, addAccessors, entities_foldl_addAccessor]
      · refine (hkeys key).trans ?_
        rw [h.accessor_iff, or_and_right]
        refine or_congr_right ?_
        have hnames (name : String) : (∃ a ∈ (schema id).accessors, a.member = name) ↔
            ∃ f ∈ (schema id).members, f.name = name := by
          rw [← List.mem_map, ← List.mem_map]
          exact iff_of_eq (congrArg (name ∈ ·) (Mapping.map_member_accessorsFrom 0 _))
        constructor
        · rintro ⟨a, ha, rfl⟩
          exact ⟨rfl, (hnames _).mp ⟨a, ha, rfl⟩⟩
        · rintro ⟨rfl, hf⟩
          obtain ⟨a, ha, hname⟩ := (hnames _).mpr hf
          exact ⟨a, ha, by rw [hname]⟩
    rw [he] at hrun
    cases ha : (c.addAccessors (.ofSchema schema id)).accessor? ⟨id, member⟩ with
    | some e =>
      rw [ha] at hrun
      cases hrun
      refine ⟨hadded, hgrows, ?_⟩
      rintro _ ⟨⟩
      exact ha
    | none =>
      rw [ha] at hrun
      cases hrun
      refine ⟨hadded, hgrows, ?_⟩
      rintro _ ⟨⟩

/-- Asking for several accessors asks for some if there is a first. -/
theorem Remembers.accessorEntries (h : c.Remembers schema described touched) (id : String)
    (ms : List String) {r : Except Fault (List (Entry Accessor))}
    (hrun : (ms.mapM (EntityType.ofSchema schema id).accessorEntry).runFrom c = (r, c')) :
    c'.Remembers schema described (fun other => touched other ∨ id = other ∧ ms ≠ []) ∧
      c.Grows c' ∧
      ∀ es, r = .ok es → List.Forall₂ (fun m e => c'.accessor? ⟨id, m⟩ = some e) ms es := by
  induction ms generalizing touched c r with
  | nil =>
    cases hrun
    refine ⟨h.congr (fun _ => Iff.rfl) (by simp), .refl _, ?_⟩
    rintro _ ⟨⟩
    exact .nil
  | cons m ms ih =>
    rw [List.mapM_cons, CatalogM.runFrom_bind] at hrun
    rcases hfirst : ((EntityType.ofSchema schema id).accessorEntry m).runFrom c
      with ⟨e | entry, c₁⟩
    all_goals
      rw [hfirst] at hrun
      obtain ⟨hremembers, hgrows, hstored⟩ := h.accessorEntry id m hfirst
    · cases hrun
      exact ⟨hremembers.congr (fun _ => Iff.rfl) (by simp), hgrows, nofun⟩
    · dsimp only at hrun
      rw [CatalogM.runFrom_bind] at hrun
      rcases hrest : (ms.mapM (EntityType.ofSchema schema id).accessorEntry).runFrom c₁
        with ⟨e | entries, c₂⟩
      all_goals
        rw [hrest] at hrun
        cases hrun
        obtain ⟨hremembers', hgrows', hstored'⟩ := ih hremembers hrest
        have htouched : ∀ other, (touched other ∨ id = other) ∨ id = other ∧ ms ≠ [] ↔
            touched other ∨ id = other ∧ m :: ms ≠ [] := fun other => by
          rw [or_assoc, or_iff_left_of_imp And.left]
          simp
      · exact ⟨hremembers'.congr (fun _ => Iff.rfl) htouched, hgrows.trans hgrows', nofun⟩
      · refine ⟨hremembers'.congr (fun _ => Iff.rfl) htouched, hgrows.trans hgrows', ?_⟩
        rintro _ ⟨⟩
        exact .cons (hgrows'.accessor? (hstored entry rfl)) (hstored' entries rfl)

/-- What a question adds to what a catalog remembers. -/
theorem Remembers.ask (h : c.Remembers schema described touched) (q : Inquiry)
    {r : Except Fault Answer}
    (hrun : ((EntityType.ofSchema schema q.type).ask q.question).runFrom c = (r, c')) :
    c'.Remembers schema (fun id => described id ∨ q.type = id ∧ q.question = .metadata)
        (fun id => touched id ∨ q.type = id ∧ q.question.wantsAccessor = true) ∧
      c.Grows c' ∧ ∀ a, r = .ok a → c'.HandsOut q.type q.question a := by
  obtain ⟨id, question⟩ := q
  cases question with
  | metadata =>
    rw [EntityType.ask, bind_pure_comp, CatalogM.runFrom_map] at hrun
    obtain ⟨rfl, rfl⟩ := Prod.mk.inj hrun
    obtain ⟨hremembers, hgrows, hstored⟩ := h.metadataEntry id rfl
    refine ⟨hremembers.congr (by simp) (by simp [Question.wantsAccessor]), hgrows, fun a ha => ?_⟩
    obtain ⟨e, he, rfl⟩ := map_eq_ok_iff.mp ha
    exact .metadata (hstored e he)
  | accessor m =>
    rw [EntityType.ask, bind_pure_comp, CatalogM.runFrom_map] at hrun
    obtain ⟨rfl, rfl⟩ := Prod.mk.inj hrun
    obtain ⟨hremembers, hgrows, hstored⟩ := h.accessorEntry id m rfl
    refine ⟨hremembers.congr (by simp) (by simp [Question.wantsAccessor]), hgrows, fun a ha => ?_⟩
    obtain ⟨e, he, rfl⟩ := map_eq_ok_iff.mp ha
    exact .accessor (hstored e he)
  | accessors ms =>
    rw [EntityType.ask, bind_pure_comp, CatalogM.runFrom_map] at hrun
    obtain ⟨rfl, rfl⟩ := Prod.mk.inj hrun
    obtain ⟨hremembers, hgrows, hstored⟩ := h.accessorEntries id ms rfl
    refine ⟨hremembers.congr (by simp) (by simp [Question.wantsAccessor]), hgrows, fun a ha => ?_⟩
    obtain ⟨es, hes, rfl⟩ := map_eq_ok_iff.mp ha
    exact .accessors (hstored es hes)

/-- What questions add, one after the other, to what a catalog remembers. -/
theorem Remembers.inquire (h : c.Remembers schema described touched) (qs : List Inquiry) :
    (c.inquire schema qs).2.Remembers schema
        (fun id => described id ∨ ∃ q ∈ qs, q.type = id ∧ q.question = .metadata)
        (fun id => touched id ∨ ∃ q ∈ qs, q.type = id ∧ q.question.wantsAccessor = true) ∧
      c.Grows (c.inquire schema qs).2 ∧
      ∀ q a, (q, .ok a) ∈ qs.zip (c.inquire schema qs).1 →
        (c.inquire schema qs).2.HandsOut q.type q.question a := by
  induction qs generalizing described touched c with
  | nil => exact ⟨h.congr (by simp) (by simp), .refl c, nofun⟩
  | cons q qs ih =>
    obtain ⟨hremembers, hgrows, hstored⟩ := h.ask q rfl
    obtain ⟨hremembers', hgrows', hstored'⟩ := ih hremembers
    refine ⟨hremembers'.congr (fun id => ?_) fun id => ?_, hgrows.trans hgrows', ?_⟩
    · rw [List.exists_mem_cons_iff, or_assoc]
    · rw [List.exists_mem_cons_iff, or_assoc]
    · intro q' a hmem
      rcases List.mem_cons.mp hmem with heq | hmem
      · obtain ⟨rfl, ha⟩ := Prod.mk.inj heq
        exact (hstored a ha.symm).mono hgrows'
      · exact hstored' q' a hmem

end Catalog

/-- Remembering is never noticed. Whatever questions are asked of a catalog, each answer, faults
included, is that of a catalog that was asked nothing before; what is handed out is remembered, so
that asking again gives the same items; and the catalog remembers exactly the metadata of the valid
types that it was asked of, and the accessors of all members of the types that some accessor was
asked of. -/
theorem catalog_recalls_what_was_asked (schema : String → Mapping) (qs : List Inquiry) :
    Catalog.Recalls schema qs (Catalog.empty.inquire schema qs).1
      (Catalog.empty.inquire schema qs).2 := by
  obtain ⟨hremembers, -, hstored⟩ := (Catalog.remembers_empty schema).inquire qs
  replace hremembers := hremembers.congr (fun _ => iff_of_eq (false_or _))
    fun _ => iff_of_eq (false_or _)
  have hempty : ∀ id, Catalog.empty.Serves (.ofSchema schema id) := fun _ => Catalog.serves_empty _
  refine ⟨?_, hstored, fun q a a' ha ha' => (hstored q a ha).unique (hstored q a' ha'),
    hremembers.numbered.serials, fun id e c' hrun => ?_, hremembers.numbered.entities,
    hremembers.entity_iff, hremembers.numbered.accessors, hremembers.accessor_iff,
    fun key e he => ?_⟩
  · rw [Catalog.map_items_inquire hempty]
    exact List.map_congr_left fun q _ => (Catalog.runFrom_ask hempty q).1.symm
  · rw [EntityType.runFrom_metadataEntry] at hrun
    split at hrun
    · cases hrun
    · split at hrun <;> cases hrun
      rfl
  · have haccessor := (hremembers.serves key.type).accessor_eq key.member e he
    obtain ⟨before, f, after, hsplit, hf, hbefore, hitem⟩ := Mapping.exists_split_of_find? haccessor
    rw [Nat.zero_add] at hitem
    exact ⟨before, f, after, hsplit, hf, hbefore, hitem⟩

end EntitySql
