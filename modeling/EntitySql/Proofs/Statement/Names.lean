import EntitySql.Proofs.Entity.Validity
import EntitySql.Proofs.Statement.Forms

/-!
# Names of parameters

Parameters of fields are named after members, whose names differ. In a batch the
place of the item stands behind the name, where it can be read off again, and the
parameters of a condition avoid every name before them. So no two parameters share a
name, whatever the case of its letters.
-/

namespace EntitySql

/-- Fields of members whose names differ, whatever the case of their letters. -/
def Field.Distinct (fs : List Field) : Prop :=
  (fs.map fun f => Text.foldCase f.1.name).Nodup

namespace Field

variable {fs gs : List Field}

/-- Leaving fields out keeps the others distinct. -/
theorem Distinct.sublist (h : Distinct gs) (hsub : fs.Sublist gs) : Distinct fs :=
  List.Nodup.sublist (hsub.map _) h

/-- The fields with a value are distinct when all are. -/
theorem Distinct.present (h : Distinct fs) : Distinct (present fs) :=
  h.sublist List.filter_sublist

/-- The folded names of the parameters for fields. -/
theorem foldedNames_parameters (d : Dialect) (suffix : String) (fs : List Field) :
    foldedNames (fs.map (parameter d suffix)) =
      fs.map fun f => Text.foldCase f.1.name ++ Text.foldCase suffix := by
  simp [foldedNames, parameter, Parameter.bound, parameterName, Text.foldCase_append]

/-- The parameters for distinct fields have distinct names. -/
theorem Distinct.nodup_parameters (h : Distinct fs) (d : Dialect) (suffix : String) :
    (foldedNames (fs.map (parameter d suffix))).Nodup := by
  rw [foldedNames_parameters]
  have hcompose : (fs.map fun f => Text.foldCase f.1.name ++ Text.foldCase suffix) =
      (fs.map fun f => Text.foldCase f.1.name).map (· ++ Text.foldCase suffix) := by simp
  rw [hcompose]
  exact List.Nodup.map (fun _ _ heq => String.append_left_inj _ |>.mp heq) h

end Field

namespace Metadata

variable {t : EntityType} {m : Metadata}

/-- The fields of members of a valid mapping are distinct. -/
theorem distinct_fields (hm : ofMapping t.mapping = .ok m) (x : Instance) {ms : List Member}
    (hsub : ms.Sublist m.members) : Field.Distinct (t.fields x ms) := by
  unfold Field.Distinct EntityType.fields
  rw [List.map_map]
  exact List.Nodup.sublist (hsub.map _) (nodup_names hm)

/-- The fields outside the key and those of the key are distinct. -/
theorem distinct_fields_keys (hm : ofMapping t.mapping = .ok m) (x : Instance) :
    Field.Distinct (t.fields x m.nonKeyMembers ++ t.fields x m.keyMembers) := by
  have hsub : (m.nonKeyMembers ++ m.keyMembers).Sublist
      (m.members.filter (!·.kind.isKey) ++ m.members.filter (·.kind.isKey)) :=
    List.Sublist.append (List.filter_sublist.filter _) (List.Sublist.refl _)
  have hperm : (m.members.filter (!·.kind.isKey) ++ m.members.filter (·.kind.isKey)).Perm
      m.members :=
    List.perm_append_comm.trans (List.filter_append_perm (·.kind.isKey) m.members)
  have hnames := (hperm.map fun f => Text.foldCase f.name).nodup_iff.mpr (nodup_names hm)
  have hfields := List.Nodup.sublist (hsub.map _) hnames
  simpa [Field.Distinct, EntityType.fields, Function.comp_def] using hfields

end Metadata

variable {d : Dialect} {t : EntityType} {m : Metadata}

/-- The parameters for a row are those of distinct fields. -/
theorem RowDraft.exists_fields {suffix : String} {y : Draft}
    (hm : Metadata.ofMapping t.mapping = .ok m) (h : RowDraft d t m suffix y) :
    ∃ fs, Field.Distinct fs ∧ y.parameters = fs.map (Field.parameter d suffix) := by
  cases h with
  | @insert x _ h =>
    obtain ⟨-, -, hparameters⟩ := insertDraft_eq_ok h
    have hsub : m.insertableMembers.Sublist m.members :=
      List.filter_sublist.trans List.filter_sublist
    exact ⟨_, (Metadata.distinct_fields hm x hsub).present, hparameters⟩
  | @update x _ h =>
    obtain ⟨assignments, condition, ha, hc, -, hparameters⟩ := updateDraft_eq_ok h
    obtain ⟨-, -, ha⟩ := assignmentsDraft_eq_ok ha
    obtain ⟨-, -, hc⟩ := keyClause_eq_ok hc
    have hsub : (Field.present (t.fields x m.nonKeyMembers) ++ t.fields x m.keyMembers).Sublist
        (t.fields x m.nonKeyMembers ++ t.fields x m.keyMembers) :=
      List.Sublist.append List.filter_sublist (List.Sublist.refl _)
    refine ⟨_, (Metadata.distinct_fields_keys hm x).sublist hsub, ?_⟩
    rw [hparameters, ha, hc, List.map_append]
  | @delete x _ h =>
    obtain ⟨condition, hc, -, hparameters⟩ := deleteDraft_eq_ok h
    obtain ⟨-, -, hc⟩ := keyClause_eq_ok hc
    exact ⟨_, Metadata.distinct_fields hm x List.filter_sublist, hparameters.trans hc⟩

/-- The parameters for a row have distinct names. -/
theorem RowDraft.nodup_names {suffix : String} {y : Draft}
    (hm : Metadata.ofMapping t.mapping = .ok m) (h : RowDraft d t m suffix y) :
    (foldedNames y.parameters).Nodup := by
  obtain ⟨fs, hdistinct, hparameters⟩ := h.exists_fields hm
  rw [hparameters]
  exact hdistinct.nodup_parameters d suffix

/-- The parameters for rows at two places of a batch have no name in common. -/
theorem RowDraft.disjoint_names {i j : Nat} (hne : i ≠ j) {y z : Draft}
    (hm : Metadata.ofMapping t.mapping = .ok m) (hy : RowDraft d t m (batchSuffix i) y)
    (hz : RowDraft d t m (batchSuffix j) z) :
    (foldedNames y.parameters).Disjoint (foldedNames z.parameters) := by
  obtain ⟨fs, -, hfs⟩ := hy.exists_fields hm
  obtain ⟨gs, -, hgs⟩ := hz.exists_fields hm
  rw [hfs, hgs, Field.foldedNames_parameters, Field.foldedNames_parameters]
  intro name hname hname'
  obtain ⟨f, -, rfl⟩ := List.mem_map.mp hname
  obtain ⟨g, -, heq⟩ := List.mem_map.mp hname'
  simp only [batchSuffix, Text.foldCase_number] at heq
  exact hne (Text.append_number_inj heq).2.symm

/-- The parameters for rows at different places of a batch have distinct names. -/
theorem nodup_names_of_rows {rows : List Draft} (hm : Metadata.ofMapping t.mapping = .ok m)
    (h : ∀ i (hi : i < rows.length), RowDraft d t m (batchSuffix i) (rows.get ⟨i, hi⟩)) :
    (rows.flatMap fun y => foldedNames y.parameters).Nodup := by
  refine List.nodup_flatMap.mpr ⟨fun y hy => ?_, List.pairwise_iff_getElem.mpr ?_⟩
  · obtain ⟨i, hi, rfl⟩ := List.getElem_of_mem hy
    exact (h i hi).nodup_names hm
  · intro i j hi hj hlt
    exact RowDraft.disjoint_names (Nat.ne_of_lt hlt) hm (h i hi) (h j hj)

/-- The parameters of a draft for all rows have distinct names. -/
theorem OpenDraft.nodup_names {x : Draft} (hm : Metadata.ofMapping t.mapping = .ok m)
    (h : OpenDraft d t m x) : (foldedNames x.parameters).Nodup := by
  cases h with
  | delete | select | project | count => exact List.nodup_nil
  | @assign x ms y hsub h =>
    obtain ⟨-, -, hparameters⟩ := assignmentsDraft_eq_ok h
    show (foldedNames y.parameters).Nodup
    rw [hparameters]
    exact (Metadata.distinct_fields hm x hsub).present.nodup_parameters d ""
  | @list x ms hsub => exact (Metadata.distinct_fields hm x hsub).present.nodup_parameters d ""
  | @set assignments bound b h =>
    obtain ⟨ps, hgrows, -⟩ :=
      (⟨m, d, ""⟩ : Surroundings).bindAssignments_adds assignments (Binder.avoiding [])
    rw [h] at hgrows
    show (foldedNames b.parameters).Nodup
    rw [hgrows.parameters_eq]
    exact hgrows.names_fresh.1

/-- A condition keeps the names of a draft distinct. -/
theorem Draft.nodup_names_of_filteredBy {x y : Draft} {c : Option Condition}
    (hx : (foldedNames x.parameters).Nodup) (h : x.filteredBy d m c = .ok y) :
    (foldedNames y.parameters).Nodup := by
  rcases filteredBy_eq_ok h with rfl | ⟨c, rfl, h⟩
  · exact hx
  · obtain ⟨ps, _, _, hgrows, -, -, hparameters⟩ := filtered_eq_ok h
    obtain ⟨hnodup, hfresh⟩ := hgrows.names_fresh
    rw [hparameters, foldedNames_append]
    refine List.nodup_append'.mpr ⟨hx, hnodup, fun name hname hmem => ?_⟩
    exact hfresh name hmem (Binder.mem_taken_avoiding.mpr (by simpa [foldedNames] using hname))

/-- All parameters of the drafts of an operation have distinct names. -/
theorem BuiltDrafts.nodup_names {ds : List Draft} (hm : Metadata.ofMapping t.mapping = .ok m)
    (h : BuiltDrafts d t m ds) : (ds.flatMap fun y => foldedNames y.parameters).Nodup := by
  have hone {y : Draft} (hy : (foldedNames y.parameters).Nodup) :
      ([y].flatMap fun y => foldedNames y.parameters).Nodup := by simpa using hy
  have hthen {y : Draft} {text : String} (hy : (foldedNames y.parameters).Nodup) :
      ([y.thenText text].flatMap fun y => foldedNames y.parameters).Nodup := hone hy
  cases h with
  | row h => exact hone (h.nodup_names hm)
  | insertion h => exact hthen (h.nodup_names hm)
  | @batch groups h =>
    have hjoin :
        ((groups.map (Draft.join d.terminator)).flatMap fun y => foldedNames y.parameters) =
          groups.flatten.flatMap fun y => foldedNames y.parameters := by
      have hparameters := congrArg foldedNames (flatMap_parameters_join d.terminator groups)
      simpa only [foldedNames, List.map_flatMap] using hparameters
    rw [hjoin]
    exact nodup_names_of_rows hm h
  | restricted hx h => exact hone (Draft.nodup_names_of_filteredBy (hx.nodup_names hm) h)
  | ordered hx h => exact hthen (Draft.nodup_names_of_filteredBy (hx.nodup_names hm) h)

/-- All parameters of the statements of an operation have distinct names. -/
theorem Build.nodup_names {b : Build} {c c' : Catalog} {ss : List Statement}
    (hc : c.Serves t) (h : (b.statements d t).runFrom c = (.ok ss, c')) :
    (ss.flatMap fun s => foldedNames s.parameters).Nodup := by
  obtain ⟨m, ds, hm, hds, rfl⟩ := Build.statements_eq_ok hc h
  rw [List.flatMap_map]
  exact (Build.built_of_drafts hds).nodup_names hm

/-- The parameters of a statement have distinct names. -/
theorem Statement.Built.nodup_names {s : Statement} (h : s.Built d t) :
    (foldedNames s.parameters).Nodup := by
  induction h with
  | operation hc h hs => exact (List.nodup_flatMap.mp (Build.nodup_names hc h)).1 _ hs
  | pageCount _ ih => exact ih
  | pageRows _ _ _ _ ih => exact ih

/-- No two parameters share a name, whatever the case of its letters: neither in one statement, be
it the query for a page, nor in all the statements of a batch together. -/
theorem parameter_names_distinct (d : Dialect) (t : EntityType) :
    (∀ s : Statement, s.Built d t → (foldedNames s.parameters).Nodup) ∧
      ∀ b c c' ss, Catalog.Serves c t → (Build.statements d t b).runFrom c = (.ok ss, c') →
        (ss.flatMap fun s => foldedNames s.parameters).Nodup := by
  exact ⟨fun s hs => hs.nodup_names, fun b c c' ss hc h => Build.nodup_names hc h⟩

/-- The two statements of a batch of two updates share no name, although the members of the type
have names that numbers could make the same. -/
theorem parameter_names_distinct_parts :
    ∃ ss c', ((Build.updateBatch [⟨[.int64 1, .int64 2, .int64 3]⟩, ⟨[.int64 4, .int64 5, .null]⟩]
        1).statements .sqlite .parts).runFrom .empty = (.ok ss, c') ∧
      ss.map (foldedNames ·.parameters) = [["size_0", "size_1_0", "id_0"], ["size_1", "id_1"]] ∧
      (ss.flatMap fun s => foldedNames s.parameters).Nodup := by
  have hnames : (((Build.updateBatch [⟨[.int64 1, .int64 2, .int64 3]⟩,
      ⟨[.int64 4, .int64 5, .null]⟩] 1).statements .sqlite .parts).runFrom .empty).1.toOption.map
        (·.map (foldedNames ·.parameters)) =
      some [["size_0", "size_1_0", "id_0"], ["size_1", "id_1"]] := by decide +kernel
  rcases hrun : ((Build.updateBatch [⟨[.int64 1, .int64 2, .int64 3]⟩,
    ⟨[.int64 4, .int64 5, .null]⟩] 1).statements .sqlite .parts).runFrom .empty with ⟨e | ss, c'⟩
  · rw [hrun] at hnames
    cases hnames
  · rw [hrun] at hnames
    exact ⟨ss, c', rfl, Option.some.inj hnames,
      (parameter_names_distinct .sqlite .parts).2 _ _ _ _ (Catalog.serves_empty _) hrun⟩

end EntitySql
