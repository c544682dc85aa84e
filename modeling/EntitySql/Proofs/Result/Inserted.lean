import EntitySql.Proofs.Gateway.Store
import EntitySql.Proofs.Result.Columns
import EntitySql.Proofs.Statement.Names
import EntitySql.Proofs.Statement.Rows

/-!
# Insertion and reading back

An insertion binds the value of each member that has one, under the name of the member
and for its column. The row that these values make, with a generated key, is read back as
the instance that was inserted exactly when no value was changed on its way.
-/

namespace EntitySql

/-- The text of the insertion of some members: their columns, and in the place of each column the
placeholder of its member. -/
def Metadata.insertionText (d : Dialect) (m : Metadata) (written : List Member) : String :=
  "INSERT INTO " ++ m.table ++ " (" ++ ", ".intercalate (written.map (·.column)) ++ ") VALUES (" ++
    ", ".intercalate (written.map fun f => d.marker ++ f.name) ++ ")" ++ identityText d m

/-- What a row has in the column of a member after an insertion: the generated key, or else what
comes back of the parameter of the member, and null if it has no parameter. -/
def Route.inserted (r : Route) (key : Value) (s : Statement) (f : Member) : Value :=
  if f.kind = .autoKey then key
  else ((Placeholder.find? s.parameters f.name).map fun p => r.carry p.value).getD .null

namespace EntityType

/-- The members that an insertion writes for an instance: those that have a value in it. -/
def written (t : EntityType) (m : Metadata) (x : Instance) : List Member :=
  m.insertableMembers.filter fun f => !(t.value x f.name).isNull

/-- What a member holds of an instance after it was inserted: a generated key, what the member
starts with if it is computed, and what it held before otherwise. -/
def insertedValue (t : EntityType) (x : Instance) (key : Value) (f : Member) : Value :=
  match f.kind with
  | .autoKey => key
  | .computed => t.initial f
  | .column | .key => t.value x f.name

/-- Members that may hold nothing hold nothing in a new instance. -/
def StartsEmpty (t : EntityType) (m : Metadata) : Prop :=
  ∀ f ∈ m.members, ∀ s, f.type = .optional s → t.initial f = .null

/-- The instance that an insertion leaves. -/
def inserted (t : EntityType) (x : Instance) (key : Value) : Instance :=
  ⟨t.mapping.members.map (t.insertedValue x key)⟩

/-- The fields with a value are those of the members that are written. -/
theorem present_fields (t : EntityType) (m : Metadata) (x : Instance) :
    Field.present (t.fields x m.insertableMembers) = t.fields x (t.written m x) := by
  rw [Field.present, fields, List.filter_map]
  rfl

end EntityType

/-- Only null is null. -/
theorem Value.eq_null_of_isNull {v : Value} (h : v.isNull = true) : v = .null := by
  cases v with
  | null => rfl
  | _ => cases h

section Insertion

variable {d : Dialect} {t : EntityType} {m : Metadata} {x : Instance} {s : Statement}
  {c c' : Catalog} {f : Member}

/-- The draft of an insertion is rendered as its text. -/
theorem render_insertDraft {y : Draft}
    (h : insertDraft d m "" (t.fields x m.insertableMembers) = .ok y) :
    ((y.thenText (identityText d m)).statement d).text = m.insertionText d (t.written m x) := by
  obtain ⟨-, hphrase, -⟩ := insertDraft_eq_ok h
  have htext (a : String) : Phrase.render d.marker [.text a] = a := by
    simp [Phrase.render, Piece.render]
  have hcolumns : (t.fields x (t.written m x)).map (·.1.column) =
      (t.written m x).map (·.column) := List.map_map
  have hslots : ((t.fields x (t.written m x)).map fun f =>
      [Piece.slot (f.parameterName "")]).map (Phrase.render d.marker) =
        (t.written m x).map fun f => d.marker ++ f.name := by
    rw [EntityType.fields, List.map_map, List.map_map]
    refine List.map_congr_left fun f _ => ?_
    simp [Phrase.render, Piece.render, Field.parameterName]
  show (y.phrase ++ [Piece.text (identityText d m)]).render d.marker = _
  rw [hphrase, t.present_fields, Phrase.render_append, Phrase.render_cons, Phrase.render_append,
    Phrase.render_join, htext, htext, hslots, hcolumns, Piece.render, ← String.append_assoc]
  rfl

/-- An insertion writes the members that have a value, each with its own parameter. -/
theorem Build.insert_eq_ok (hm : Metadata.ofMapping t.mapping = .ok m) (hc : c.Serves t)
    (h : ((Build.insert x).statements d t).runFrom c = (.ok [s], c')) :
    s.text = m.insertionText d (t.written m x) ∧
      s.parameters = (t.fields x (t.written m x)).map (Field.parameter d "") := by
  obtain ⟨m', ds, hm', hds, hs⟩ := Build.statements_eq_ok hc h
  rw [hm] at hm'
  obtain rfl := Except.ok.inj hm'
  have hdraft := RowOperation.drafts_one (k := .insert) (d := d) (t := t) (m := m) (Or.inl rfl) x
  have hone : RowOperation.insert.one x = .insert x := rfl
  rw [hone, hds] at hdraft
  obtain ⟨y, hy, hstatement⟩ := map_eq_ok_iff.mp hdraft.symm
  obtain rfl := (List.cons.inj (hs.trans hstatement.symm)).1
  obtain ⟨-, -, hparameters⟩ := insertDraft_eq_ok hy
  exact ⟨render_insertDraft hy, hparameters.trans (by rw [t.present_fields])⟩

/-- An insertion is accepted when it has something to write. -/
theorem Build.exists_insert (d : Dialect) (hm : Metadata.ofMapping t.mapping = .ok m)
    (hc : c.Serves t) (hne : t.written m x ≠ []) :
    ∃ s c', ((Build.insert x).statements d t).runFrom c = (.ok [s], c') := by
  have hpresent : ¬(Field.present (t.fields x m.insertableMembers)).isEmpty = true := by
    rw [t.present_fields, List.isEmpty_iff, EntityType.fields, List.map_eq_nil_iff]
    exact hne
  obtain ⟨y, hy⟩ : ∃ y, insertDraft d m "" (t.fields x m.insertableMembers) = .ok y :=
    ⟨_, if_neg hpresent⟩
  have hresult := (Build.statements_answers (d := d) hm (.insert x) c hc).1
  rw [Build.drafts, hy] at hresult
  exact ⟨_, _, Prod.ext hresult rfl⟩

/-- The members that an insertion writes are members of the type. -/
theorem EntityType.written_sublist (t : EntityType) (m : Metadata) (x : Instance) :
    (t.written m x).Sublist m.members :=
  List.filter_sublist.trans (List.filter_sublist.trans List.filter_sublist)

/-- Of the parameters of an insertion, that of a member is found by its name. -/
theorem EntityType.find?_of_mem_written (hm : Metadata.ofMapping t.mapping = .ok m)
    (hf : f ∈ t.written m x) :
    Placeholder.find? ((t.fields x (t.written m x)).map (Field.parameter d "")) f.name =
      some (Parameter.bound d f.name (t.value x f.name)) := by
  have hfolded := (Metadata.distinct_fields hm x (t.written_sublist m x)).nodup_parameters d ""
  have hname : Field.parameter d "" (f, t.value x f.name) =
      Parameter.bound d f.name (t.value x f.name) := by
    rw [Field.parameter, Field.parameterName, String.append_empty]
  have hmem : Field.parameter d "" (f, t.value x f.name) ∈
      (t.fields x (t.written m x)).map (Field.parameter d "") :=
    List.mem_map_of_mem (List.mem_map_of_mem hf)
  rw [hname] at hmem
  exact Placeholder.find?_of_nodup (nodup_names_of_folded hfolded) hmem

/-- A member that an insertion does not write has no parameter. -/
theorem EntityType.find?_of_not_mem_written (hm : Metadata.ofMapping t.mapping = .ok m)
    (hf : f ∈ m.members) (hnot : f ∉ t.written m x) :
    Placeholder.find? ((t.fields x (t.written m x)).map (Field.parameter d "")) f.name = none := by
  refine List.find?_eq_none.mpr fun p hp hname => ?_
  obtain ⟨_, hfield, rfl⟩ := List.mem_map.mp hp
  obtain ⟨g, hg, rfl⟩ := List.mem_map.mp hfield
  have hnames : g.name = f.name := by
    simpa [Field.parameter, Parameter.bound, Field.parameterName] using hname
  have hsame : Text.sameName g.name f.name = true := hnames ▸ Text.sameName_refl _
  obtain rfl := Metadata.eq_of_sameName hm ((t.written_sublist m x).subset hg) hf hsame
  exact hnot hg

/-- In the column of a member that an insertion may write, a row has what comes back of the value
of the member. -/
theorem Route.inserted_of_insertable (r : Route) (key : Value)
    (hm : Metadata.ofMapping t.mapping = .ok m)
    (hs : s.parameters = (t.fields x (t.written m x)).map (Field.parameter d ""))
    (hf : f ∈ m.insertableMembers) :
    r.inserted key s f = r.carry (d.encode (t.value x f.name)) := by
  obtain ⟨hcolumn, hkind⟩ := List.mem_filter.mp hf
  rw [Route.inserted, if_neg (by simpa using hkind), hs]
  cases hnull : (t.value x f.name).isNull with
  | true =>
    have hnot : f ∉ t.written m x := by
      intro hmem
      have hvalue := (List.mem_filter.mp hmem).2
      rw [hnull] at hvalue
      cases hvalue
    rw [EntityType.find?_of_not_mem_written hm (List.mem_filter.mp hcolumn).1 hnot,
      Value.eq_null_of_isNull hnull, r.carry_encode_null]
    rfl
  | false =>
    have hwritten : f ∈ t.written m x := List.mem_filter.mpr ⟨hf, by simp [hnull]⟩
    rw [EntityType.find?_of_mem_written hm hwritten]
    rfl

/-- A member that an insertion may write holds its value again exactly when the way keeps it. -/
theorem Member.held_inserted_of_insertable {r : Route} (key w : Value)
    (hm : Metadata.ofMapping t.mapping = .ok m)
    (hs : s.parameters = (t.fields x (t.written m x)).map (Field.parameter d ""))
    (hf : f ∈ m.insertableMembers) (hempty : ∀ s, f.type = .optional s → t.initial f = .null)
    (hx : ∃ y, t.value x f.name = f.type.toValue y ∧ f.type.Ordinary y) :
    f.held t.initial (r.inserted key s) = .ok (t.insertedValue x w f) ↔
      r.Keeps (t.value x f.name) := by
  obtain ⟨hcolumn, hkind⟩ := List.mem_filter.mp hf
  have hpersisted := (List.mem_filter.mp hcolumn).2
  have hleft : t.insertedValue x w f = t.value x f.name := by
    unfold EntityType.insertedValue
    cases hk : f.kind <;> simp_all [MemberKind.isPersisted]
  obtain ⟨y, hy, hordinary⟩ := hx
  rw [Member.held, r.inserted_of_insertable key hm hs hf, hleft, hpersisted, Bool.true_and, hy]
  cases hnull : (f.type.toValue y).isNull with
  | true =>
    obtain ⟨scalar, htype⟩ := ReadType.exists_optional hordinary hnull
    rw [hempty scalar htype, Value.eq_null_of_isNull hnull, r.carry_encode_null]
    exact iff_of_true rfl r.keeps_null
  | false =>
    rw [ReadType.isNull_carry r d hordinary hnull, Bool.not_false, if_pos rfl]
    exact ReadType.store_carry_iff d hordinary hnull

/-- A member that no insertion writes holds the generated key, or what it starts with if it is
computed. -/
theorem Member.held_inserted_of_not_insertable {r : Route} {key w : Value} (hf : f ∈ m.members)
    (hnot : f ∉ m.insertableMembers)
    (hkey : f.kind = .autoKey → key.isNull = false ∧ f.type.store key = .ok w) :
    f.held t.initial (r.inserted key s) = .ok (t.insertedValue x w f) := by
  cases hkind : f.kind with
  | autoKey =>
    obtain ⟨hnull, hstore⟩ := hkey hkind
    rw [Member.held, Route.inserted, if_pos hkind, hkind, hnull, hstore,
      EntityType.insertedValue, hkind]
    rfl
  | computed =>
    rw [Member.held, EntityType.insertedValue, hkind]
    rfl
  | column | key =>
    have hpersisted : f ∈ m.columnMembers :=
      List.mem_filter.mpr ⟨hf, by simp [hkind, MemberKind.isPersisted]⟩
    exact absurd (List.mem_filter.mpr ⟨hpersisted, by simp [hkind]⟩) hnot

/-- The row that an insertion leaves is read back as what was inserted exactly when the way of the
values keeps all that is written. -/
theorem EntityType.readRow_inserted_iff {key w : Value}
    (hm : Metadata.ofMapping t.mapping = .ok m) (hapart : m.Apart) (hempty : t.StartsEmpty m)
    (hx : ∀ f ∈ m.members, ∃ y, t.value x f.name = f.type.toValue y ∧ f.type.Ordinary y)
    (hs : s.parameters = (t.fields x (t.written m x)).map (Field.parameter d ""))
    (hkey : ∀ f ∈ m.members, f.kind = .autoKey → key.isNull = false ∧ f.type.store key = .ok w)
    (r : Route) :
    t.Answers (t.readRow (m.selectedRow (r.inserted key s))) (.ok (t.inserted x w)) ↔
      ∀ f ∈ m.insertableMembers, r.Keeps (t.value x f.name) := by
  have howns : ∀ f ∈ m.columnMembers, m.Owns f :=
    fun f hf => hapart.owns (List.mem_filter.mp hf).1
  have hinsertable : ∀ f ∈ m.insertableMembers, f ∈ m.members :=
    fun f hf => (List.filter_sublist.trans List.filter_sublist).subset hf
  have hmembers : m.members = t.mapping.members := by rw [Metadata.eq_of_ofMapping hm]
  rw [(Reader.readRow_answers hm _).iff_eq, Reader.fill_selectedRow hm howns, EntityType.inserted,
    EntityType.held_eq_ok_iff, ← hmembers]
  constructor
  · intro h f hf
    have hmem := hinsertable f hf
    exact (Member.held_inserted_of_insertable key w hm hs hf (hempty f hmem) (hx f hmem)).mp
      (h f hmem)
  · intro h f hmem
    by_cases hf : f ∈ m.insertableMembers
    · exact (Member.held_inserted_of_insertable key w hm hs hf (hempty f hmem) (hx f hmem)).mpr
        (h f hf)
    · exact Member.held_inserted_of_not_insertable hmem hf (hkey f hmem)

end Insertion

/-- An insertion that is accepted binds the values that there are, under the names of their members
and for their columns. Of a type whose names and columns do not mix, and whose new instances hold
nothing where they may, the row that comes back is read as the instance that was inserted exactly
when the way of the values keeps each of them. It always does when they stay as they were bound, and
does if no JSON is changed when they are kept as the store keeps them. -/
theorem inserted_row_reads_back_iff {d : Dialect} {t : EntityType} {m : Metadata} {x : Instance}
    {s : Statement} {c c' : Catalog} {key w : Value} (hm : Metadata.ofMapping t.mapping = .ok m)
    (hapart : m.Apart) (hempty : t.StartsEmpty m)
    (hx : ∀ f ∈ m.members, ∃ y, t.value x f.name = f.type.toValue y ∧ f.type.Ordinary y)
    (hc : c.Serves t) (hs : ((Build.insert x).statements d t).runFrom c = (.ok [s], c'))
    (hkey : ∀ f ∈ m.members, f.kind = .autoKey → key.isNull = false ∧ f.type.store key = .ok w)
    (r : Route) :
    (s.text = m.insertionText d (t.written m x) ∧
      s.parameters.map (·.name) = (t.written m x).map (·.name)) ∧
    (t.Answers (t.readRow (m.selectedRow (r.inserted key s))) (.ok (t.inserted x w)) ↔
      ∀ f ∈ m.insertableMembers, r.Keeps (t.value x f.name)) := by
  obtain ⟨htext, hparameters⟩ := Build.insert_eq_ok hm hc hs
  refine ⟨⟨htext, ?_⟩, EntityType.readRow_inserted_iff hm hapart hempty hx hparameters hkey r⟩
  rw [hparameters, Field.names_parameters, EntityType.fields, List.map_map]
  exact List.map_congr_left fun f _ => String.append_empty

/-- An entity type for examples: a key that is generated, and a figure as JSON. -/
def EntityType.readings : EntityType :=
  ⟨"Reading", ⟨"Reading", "READINGS", [⟨"id", "ID", .autoKey, .required .int64⟩,
    ⟨"figure", "FIGURE", .column, .required .json⟩]⟩⟩

namespace EntityType.readings

/-- The metadata of readings. -/
def metadata : Metadata := ⟨"Reading", "READINGS", readings.mapping.members⟩

/-- One half. -/
def half : Double := ⟨0x3fe0000000000000#64⟩

/-- The number that is written 9.949017883240519. -/
def drifting : Double := ⟨0x4023e5e5ac07aca2#64⟩

/-- A reading of a binary number. -/
def reading (id : Int64) (x : Double) : Instance := ⟨[.int64 id, .json (.number (.real x))]⟩

/-- The mapping of readings is valid, and its names and columns do not mix. -/
theorem settled : Metadata.ofMapping readings.mapping = .ok metadata ∧ metadata.Apart := by
  unfold Metadata.Apart
  decide +kernel

/-- No member of a reading may hold nothing. -/
theorem startsEmpty : readings.StartsEmpty metadata := by
  intro f hf s hs
  rcases List.mem_cons.mp hf with rfl | hf
  · cases hs
  · obtain rfl := List.mem_singleton.mp hf
    cases hs

/-- The members of a reading hold what is of their types. -/
theorem value_reading (id : Int64) (x : Double) : ∀ f ∈ metadata.members, ∃ y,
    readings.value (reading id x) f.name = f.type.toValue y ∧ f.type.Ordinary y := by
  intro f hf
  rcases List.mem_cons.mp hf with rfl | hf
  · exact ⟨id, rfl, trivial⟩
  · obtain rfl := List.mem_singleton.mp hf
    exact ⟨.number (.real x), rfl, trivial⟩

/-- A generated key is stored in its member. -/
theorem store_key (id : Int64) : ∀ f ∈ metadata.members, f.kind = .autoKey →
    (Value.int64 id).isNull = false ∧ f.type.store (.int64 id) = .ok (.int64 id) := by
  intro f hf hkind
  rcases List.mem_cons.mp hf with rfl | hf
  · exact ⟨rfl, rfl⟩
  · obtain rfl := List.mem_singleton.mp hf
    cases hkind

end EntityType.readings

section Readings

open EntityType.readings

/-- A half comes back from the store as the figure of a reading. -/
theorem inserted_row_reads_back_readings :
    ∃ s c', ((Build.insert (reading 0 half)).statements .sqlite .readings).runFrom .empty =
        (.ok [s], c') ∧
      s.text = "INSERT INTO READINGS (FIGURE) VALUES (@figure); SELECT last_insert_rowid()" ∧
      EntityType.readings.Answers
        (EntityType.readings.readRow (metadata.selectedRow (Route.stored.inserted (.int64 7) s)))
        (.ok (reading 7 half)) := by
  obtain ⟨hm, hapart⟩ := settled
  obtain ⟨s, c', hrun⟩ := Build.exists_insert (x := reading 0 half) .sqlite hm
    (Catalog.serves_empty _) (by decide +kernel)
  obtain ⟨⟨htext, -⟩, hback⟩ := inserted_row_reads_back_iff hm hapart startsEmpty
    (value_reading 0 _) (Catalog.serves_empty _) hrun (store_key 7) .stored
  refine ⟨s, c', hrun, htext.trans (by decide +kernel), hback.mpr fun f hf => ?_⟩
  obtain rfl := List.mem_singleton.mp hf
  have hnumeral : Json.Numeral.ofBinary? half = some ⟨false, [0], [5], none⟩ := by
    decide +kernel
  exact ⟨⟨_, hnumeral, by decide +kernel⟩, Nat.zero_le _⟩

/-- Not every figure comes back from the store: the text of one number is read as the next greater
number. -/
theorem stored_figure_drifts :
    ¬∀ (t : EntityType) (m : Metadata) (x : Instance) (d : Dialect) (s : Statement)
      (c c' : Catalog) (key w : Value) (r : Route), Metadata.ofMapping t.mapping = .ok m → m.Apart →
      t.StartsEmpty m →
      (∀ f ∈ m.members, ∃ y, t.value x f.name = f.type.toValue y ∧ f.type.Ordinary y) →
      c.Serves t → ((Build.insert x).statements d t).runFrom c = (.ok [s], c') →
      (∀ f ∈ m.members, f.kind = .autoKey → key.isNull = false ∧ f.type.store key = .ok w) →
      t.Answers (t.readRow (m.selectedRow (r.inserted key s))) (.ok (t.inserted x w)) := by
  intro h
  obtain ⟨hm, hapart⟩ := settled
  obtain ⟨s, c', hrun⟩ := Build.exists_insert (x := reading 0 drifting) .sqlite hm
    (Catalog.serves_empty _) (by decide +kernel)
  have hback := h _ _ _ .sqlite s .empty c' (.int64 7) (.int64 7) .stored hm hapart
    startsEmpty (value_reading 0 _) (Catalog.serves_empty _) hrun (store_key 7)
  obtain ⟨-, hparameters⟩ := Build.insert_eq_ok hm (Catalog.serves_empty _) hrun
  rw [EntityType.readRow_inserted_iff hm hapart startsEmpty (value_reading 0 _) hparameters
    (store_key 7)] at hback
  obtain ⟨⟨n, hnumeral, hnumber⟩, -⟩ := hback _ (List.mem_singleton.mpr rfl)
  have hdrift : (Json.Numeral.ofBinary? drifting).bind Json.Numeral.number? ≠
      some (.real drifting) := by decide +kernel
  exact hdrift (by rw [hnumeral, Option.bind_some, hnumber])

end Readings

end EntitySql
