import EntitySql.Proofs.Entity.Validity
import EntitySql.Proofs.Fallible
import EntitySql.Proofs.Query.BoundForm
import EntitySql.Result.Reader

/-!
# Columns and their members

A column of a result goes into the member of its name, or else into the first member
that is stored in it. So the query for all columns is read back member by member exactly
when no column has the name of another member, and no two members share a column unless
it is the name of one of them.
-/

namespace EntitySql

/-- Reads a row by the columns that it has. -/
def EntityType.readRow (t : EntityType) (row : Row) : CatalogM Instance := do
  let reader ← Reader.ofColumns t row.columns
  reader.read row

/-- A row of the query for all columns, with a value for each persisted member. -/
def Metadata.selectedRow (m : Metadata) (own : Member → Value) : Row :=
  ⟨m.columnMembers.map (·.column), m.columnMembers.map own⟩

/-- A row of the query for a page: two engines add a column with the number of the row, one of them
before and one after the other columns. -/
def Dialect.numbered (d : Dialect) (number : Value) (row : Row) : Row :=
  match d with
  | .sqlServer => ⟨"rn" :: row.columns, number :: row.values⟩
  | .oracle => ⟨row.columns ++ ["rn"], row.values ++ [number]⟩
  | _ => row

/-- What a member holds after its own column was read, by what it held before: the value of a
persisted member unless that is null, and what it held otherwise. -/
def Member.held (start own : Member → Value) (f : Member) : Except Fault Value :=
  if f.kind.isPersisted && !(own f).isNull then f.type.store (own f) else .ok (start f)

/-- The new instance after each member was given what its own column has for it. -/
def EntityType.held (t : EntityType) (own : Member → Value) : Except Fault Instance :=
  (t.mapping.members.mapM (Member.held t.initial own)).map Instance.mk

/-- An instance is held when each member holds what the instance has there. -/
theorem EntityType.held_eq_ok_iff {t : EntityType} {own g : Member → Value} :
    t.held own = .ok ⟨t.mapping.members.map g⟩ ↔
      ∀ f ∈ t.mapping.members, f.held t.initial own = .ok (g f) := by
  have hall : t.mapping.members.mapM (Member.held t.initial own) = .ok (t.mapping.members.map g) ↔
      ∀ f ∈ t.mapping.members, f.held t.initial own = .ok (g f) := by
    rw [mapM_eq_ok_iff, List.forall₂_map_right_iff, List.forall₂_same]
  rw [EntityType.held, map_eq_ok_iff, ← hall]
  constructor
  · rintro ⟨values, hvalues, heq⟩
    rw [hvalues, Instance.mk.inj heq]
  · intro h
    exact ⟨_, h, rfl⟩

/-- The column of a member belongs to the member: it is the name of no other member, and either it
is the name of the member itself or no member before it is stored in the same column. -/
structure Metadata.Owns (m : Metadata) (f : Member) : Prop where
  name : ∀ g ∈ m.members, Text.sameName g.name f.column = true → g = f
  column : Text.sameName f.name f.column = true ∨
    ∃ before after, m.members = before ++ f :: after ∧
      ∀ g ∈ before, Text.sameName g.column f.column = false

/-- No member is stored in a column that is the name or the column of another. -/
def Metadata.Apart (m : Metadata) : Prop :=
  ∀ f ∈ m.members, ∀ g ∈ m.members, g ≠ f →
    Text.sameName g.name f.column = false ∧ Text.sameName g.column f.column = false

/-- No member has a given text as its name or column. -/
def Metadata.Lacks (m : Metadata) (column : String) : Prop :=
  ∀ g ∈ m.members, Text.sameName g.name column = false ∧ Text.sameName g.column column = false

namespace Metadata

variable {mapping : Mapping} {m : Metadata} {f g : Member} {c : String}

/-- Of the members of a valid mapping, only one has a given name. -/
theorem eq_of_sameName (hm : ofMapping mapping = .ok m) (hf : f ∈ m.members) (hg : g ∈ m.members)
    (h : Text.sameName f.name g.name = true) : f = g :=
  List.inj_on_of_nodup_map (nodup_names hm) hf hg (Text.sameName_eq_true_iff.mp h)

/-- A column leads to a member of the mapping. -/
theorem mem_of_resolve?_eq_some (h : m.resolve? c = some f) : f ∈ m.members := by
  rcases Option.or_eq_some_iff.mp h with hnamed | ⟨_, hstored⟩
  · exact mem_of_member?_eq_some hnamed
  · exact List.mem_of_find?_eq_some hstored

/-- The column of a member leads back to the member exactly when the member owns it. -/
theorem resolve?_column_eq_some_iff (hm : ofMapping mapping = .ok m) (hf : f ∈ m.members) :
    m.resolve? f.column = some f ↔ m.Owns f := by
  constructor
  · intro h
    cases hnamed : m.member? f.column with
    | some g =>
      rw [resolve?, hnamed, Option.some_or] at h
      obtain rfl := Option.some.inj h
      have hsame := sameName_of_member?_eq_some hnamed
      refine ⟨fun g' hg' hsame' => ?_, Or.inl hsame⟩
      refine eq_of_sameName hm hg' hf (Text.sameName_eq_true_iff.mpr ?_)
      rw [Text.sameName_eq_true_iff.mp hsame', Text.sameName_eq_true_iff.mp hsame]
    | none =>
      rw [resolve?, hnamed, Option.none_or, memberOfColumn?] at h
      obtain ⟨-, before, after, hsplit, hbefore⟩ := List.find?_eq_some_iff_append.mp h
      refine ⟨fun g hg hsame => ?_, Or.inr ⟨before, after, hsplit, fun g hg => ?_⟩⟩
      · rw [member?_eq_none_iff.mp hnamed g hg] at hsame
        cases hsame
      · simpa using hbefore g hg
  · intro h
    cases hnamed : m.member? f.column with
    | some g =>
      have hsame := sameName_of_member?_eq_some hnamed
      obtain rfl := h.name g (mem_of_member?_eq_some hnamed) hsame
      rw [resolve?, hnamed, Option.some_or]
    | none =>
      rcases h.column with hown | ⟨before, after, hsplit, hbefore⟩
      · rw [member?_eq_none_iff.mp hnamed f hf] at hown
        cases hown
      · rw [resolve?, hnamed, Option.none_or, memberOfColumn?]
        refine List.find?_eq_some_iff_append.mpr ⟨Text.sameName_refl _, before, after, hsplit, ?_⟩
        intro g hg
        simpa using hbefore g hg

/-- Members that share nothing with each other own their columns. -/
theorem Apart.owns (h : m.Apart) (hf : f ∈ m.members) : m.Owns f := by
  refine ⟨fun g hg hsame => ?_, Or.inr ?_⟩
  · by_contra hne
    rw [(h f hf g hg hne).1] at hsame
    cases hsame
  · -- the first place of the member, in case that it stands at several
    obtain ⟨before, after, hsplit, hfirst⟩ := List.eq_append_cons_of_mem hf
    refine ⟨before, after, hsplit, fun g hg => ?_⟩
    have hmem : g ∈ m.members := hsplit ▸ List.mem_append_left _ hg
    exact (h f hf g hmem (ne_of_mem_of_not_mem hg hfirst)).2

end Metadata

namespace Mapping

variable {mapping : Mapping} {m : Metadata} {f : Member} {before after : List Member}

/-- The accessors of members in a row. -/
theorem accessorsFrom_append (position : Nat) (before after : List Member) :
    accessorsFrom position (before ++ after) =
      accessorsFrom position before ++ accessorsFrom (position + before.length) after := by
  induction before generalizing position with
  | nil => rfl
  | cons g before ih =>
    rw [List.cons_append, accessorsFrom, ih, List.length_cons, Nat.add_right_comm]
    rfl

/-- An accessor has the name of a member. -/
theorem exists_member_of_mem_accessorsFrom {position : Nat} {a : Accessor} {ms : List Member}
    (h : a ∈ accessorsFrom position ms) : ∃ g ∈ ms, a.member = g.name := by
  induction ms generalizing position with
  | nil => cases h
  | cons g ms ih =>
    rcases List.mem_cons.mp h with rfl | h
    · exact ⟨g, List.mem_cons_self, rfl⟩
    · obtain ⟨g', hg', hname⟩ := ih h
      exact ⟨g', List.mem_cons_of_mem g hg', hname⟩

/-- The accessor of a member of a valid mapping stands at the place of the member. -/
theorem accessor?_of_split (hm : Metadata.ofMapping mapping = .ok m)
    (hsplit : m.members = before ++ f :: after) :
    mapping.accessor? f.name = some ⟨f.name, before.length, f.type⟩ := by
  have hmembers : mapping.members = before ++ f :: after := by
    rw [← hsplit, Metadata.eq_of_ofMapping hm]
  have hother : ∀ a ∈ accessorsFrom 0 before, ¬(a.member == f.name) = true := by
    intro a ha hsame
    obtain ⟨g, hg, hname⟩ := exists_member_of_mem_accessorsFrom ha
    have hnodup := Metadata.nodup_names hm
    rw [hsplit, List.map_append, List.nodup_append] at hnodup
    have hne := hnodup.2.2 _ (List.mem_map_of_mem hg) _ (List.mem_map_of_mem List.mem_cons_self)
    exact hne (congrArg Text.foldCase (hname ▸ eq_of_beq hsame))
  rw [accessor?, accessors, hmembers, accessorsFrom_append, List.find?_append,
    List.find?_eq_none.mpr hother, Option.none_or, Nat.zero_add, accessorsFrom]
  exact List.find?_cons_of_pos (by simp)

end Mapping

namespace EntityType

variable {t : EntityType} {m : Metadata} {f : Member} {before after : List Member}

/-- A new instance holds what its members start with. -/
theorem blank_eq (hm : Metadata.ofMapping t.mapping = .ok m) :
    t.blank = ⟨m.members.map t.initial⟩ := by
  rw [Metadata.eq_of_ofMapping hm]
  rfl

end EntityType

namespace Reader

variable {t : EntityType} {m : Metadata}

/-- The accessor that a column is read through. -/
def slot (t : EntityType) (m : Metadata) (column : String) : Option Accessor :=
  (m.resolve? column).bind fun f => t.mapping.accessor? f.name

/-- The accessors of a row with the values that go through them. -/
def pairs (t : EntityType) (m : Metadata) (row : Row) : List (Option Accessor × Value) :=
  (row.columns.map (slot t m)).zip row.values

/-- On a valid type, any columns have a reader. -/
theorem ofColumns_answers (hm : Metadata.ofMapping t.mapping = .ok m) (columns : List String) :
    t.Answers (ofColumns t columns) (.ok ⟨t.blank, columns.map (slot t m)⟩) := by
  refine EntityType.answers_metadata_bind hm ?_
  refine EntityType.answers_bind (g := fun slots => .ok (⟨t.blank, slots⟩ : Reader))
    ((EntityType.answers_mapM (g := fun c => .ok (slot t m c)) fun c _ => ?_).congr
      List.mapM_pure)
    fun slots _ => EntityType.answers_pure (⟨t.blank, slots⟩ : Reader)
  rw [slot]
  cases hf : m.resolve? c with
  | none => exact EntityType.answers_pure none
  | some f =>
    obtain ⟨a, ha⟩ := EntityType.exists_accessor?
      (Metadata.mem_mapping_of_mem hm (Metadata.mem_of_resolve?_eq_some hf))
    have haccessor := t.accessor_answers f.name
    rw [Mapping.accessor, ha] at haccessor
    rw [Option.bind_some, ha]
    exact EntityType.answers_bind (g := fun a => .ok (some a)) haccessor fun a _ =>
      EntityType.answers_pure (some a)

/-- On a valid type, a row fills a new instance through the accessors of its columns. -/
theorem readRow_answers (hm : Metadata.ofMapping t.mapping = .ok m) (row : Row) :
    t.Answers (t.readRow row) (fill t.blank (pairs t m row)) :=
  EntityType.answers_bind (g := fun r : Reader => r.read row) (ofColumns_answers hm row.columns)
    fun r _ => EntityType.answers_lift (r.read row)

/-- A column is read through the accessor of the member that it leads to. -/
theorem slot_of_resolve? {f : Member} {c : String} {before after : List Member}
    (hm : Metadata.ofMapping t.mapping = .ok m) (hsplit : m.members = before ++ f :: after)
    (h : m.resolve? c = some f) : slot t m c = some ⟨f.name, before.length, f.type⟩ := by
  rw [slot, h, Option.bind_some, Mapping.accessor?_of_split hm hsplit]

end Reader

section Filling

variable {x y : Instance} {pairs rest : List (Option Accessor × Value)}

end Filling

namespace Reader

variable {t : EntityType} {m : Metadata} {own : Member → Value} {d : Dialect} {number : Value}

/-- A row of the query for all columns has a pair for each persisted member. -/
theorem pairs_selectedRow (own : Member → Value) :
    pairs t m (m.selectedRow own) = m.columnMembers.map fun f => (slot t m f.column, own f) := by
  rw [pairs, Metadata.selectedRow, List.map_map]
  exact List.zip_map'

/-- The column of a member that owns it fills the place of the member with what it holds. -/
theorem fill_owned {f : Member} {before after : List Member} {ys : List Value}
    (hm : Metadata.ofMapping t.mapping = .ok m) (hsplit : m.members = before ++ f :: after)
    (howns : m.Owns f) (hkind : f.kind.isPersisted = true) (own : Member → Value)
    (hlength : ys.length = before.length) (zs : List Value)
    (more : List (Option Accessor × Value)) :
    fill ⟨ys ++ t.initial f :: zs⟩ ((slot t m f.column, own f) :: more) =
      f.held t.initial own >>= fun z => fill ⟨ys ++ z :: zs⟩ more := by
  have hmem : f ∈ m.members := hsplit ▸ List.mem_append_cons_self
  rw [slot_of_resolve? hm hsplit ((Metadata.resolve?_column_eq_some_iff hm hmem).mpr howns), fill,
    Member.held, hkind, Bool.true_and]
  cases (own f).isNull with
  | true => rfl
  | false =>
    rw [if_neg (by simp), if_pos (by simp), Accessor.set]
    cases f.type.store (own f) with
    | error e => rfl
    | ok w =>
      show fill ⟨(ys ++ t.initial f :: zs).set before.length w⟩ more = fill ⟨ys ++ w :: zs⟩ more
      rw [← hlength, List.set_append_right _ _ (Nat.le_refl _), Nat.sub_self, List.set_cons_zero]

/-- When all persisted members own their columns, the members that follow given ones are filled one
after the other with what their own columns give them. -/
theorem fill_of_owns (hm : Metadata.ofMapping t.mapping = .ok m)
    (howns : ∀ f ∈ m.columnMembers, m.Owns f) (own : Member → Value) (before rest : List Member)
    (hsplit : m.members = before ++ rest) (ys : List Value) (hlength : ys.length = before.length) :
    fill ⟨ys ++ rest.map t.initial⟩
        ((rest.filter (·.kind.isPersisted)).map fun f => (slot t m f.column, own f)) =
      (rest.mapM (Member.held t.initial own)).map fun zs => ⟨ys ++ zs⟩ := by
  induction rest generalizing before ys with
  | nil => rfl
  | cons f rest ih =>
    have hstep : fill ⟨ys ++ (f :: rest).map t.initial⟩
        (((f :: rest).filter (·.kind.isPersisted)).map fun f => (slot t m f.column, own f)) =
          f.held t.initial own >>= fun z => fill ⟨ys ++ z :: rest.map t.initial⟩
            ((rest.filter (·.kind.isPersisted)).map fun f => (slot t m f.column, own f)) := by
      cases hkind : f.kind.isPersisted with
      | false =>
        have hfirst : f.held t.initial own = .ok (t.initial f) := by simp [Member.held, hkind]
        rw [List.filter_cons_of_neg (by simp [hkind]), hfirst]
        rfl
      | true =>
        have hf : f ∈ m.columnMembers :=
          List.mem_filter.mpr ⟨hsplit ▸ List.mem_append_cons_self, hkind⟩
        rw [List.filter_cons_of_pos (by exact hkind), List.map_cons, List.map_cons]
        exact fill_owned hm hsplit (howns f hf) hkind own hlength _ _
    have hnext (z : Value) :
        fill ⟨ys ++ z :: rest.map t.initial⟩
            ((rest.filter (·.kind.isPersisted)).map fun f => (slot t m f.column, own f)) =
          (rest.mapM (Member.held t.initial own)).map fun zs => ⟨ys ++ z :: zs⟩ := by
      have hmore := ih (before ++ [f]) (by simp [hsplit]) (ys ++ [z]) (by simp [hlength])
      simpa only [List.append_assoc, List.singleton_append] using hmore
    rw [hstep, List.mapM_cons]
    simp only [hnext]
    cases f.held t.initial own with
    | error e => rfl
    | ok z => cases rest.mapM (Member.held t.initial own) <;> rfl

/-- When all persisted members own their columns, a row is read back member by member. -/
theorem fill_selectedRow (hm : Metadata.ofMapping t.mapping = .ok m)
    (howns : ∀ f ∈ m.columnMembers, m.Owns f) (own : Member → Value) :
    fill t.blank (pairs t m (m.selectedRow own)) = t.held own := by
  have hmembers : m.members = t.mapping.members := by rw [Metadata.eq_of_ofMapping hm]
  have hfill := fill_of_owns hm howns own [] m.members rfl [] rfl
  rw [pairs_selectedRow, EntityType.blank_eq hm, EntityType.held, ← hmembers]
  exact hfill

end Reader

namespace Reader

variable {t : EntityType} {m : Metadata} {d : Dialect}

end Reader

namespace EntityType.jobs

/-- The key of a job. -/
def key : Member := ⟨"id", "ID", .key, .required .int64⟩

/-- How often a job may still be tried. -/
def retries : Member := ⟨"retries", "RETRIES", .column, .required .int32⟩

end EntityType.jobs

/-- An entity type for examples: a new job may be tried three times. -/
def EntityType.jobs : EntityType where
  id := "Job"
  mapping := ⟨"Job", "JOBS", [jobs.key, jobs.retries]⟩
  start := ⟨fun f => if f.kind.isKey then .int64 0 else .int32 3⟩

namespace EntityType.jobs

/-- The metadata of jobs. -/
def metadata : Metadata := ⟨"Job", "JOBS", jobs.mapping.members⟩

/-- The mapping of jobs is valid, its names and columns do not mix, and none of them is that of the
number of a row. -/
theorem settled : Metadata.ofMapping jobs.mapping = .ok metadata ∧ metadata.Apart ∧
    metadata.Lacks "rn" := by
  unfold Metadata.Apart Metadata.Lacks
  decide +kernel

end EntityType.jobs

end EntitySql
