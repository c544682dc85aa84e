import EntitySql.Proofs.Query.Phrases
import EntitySql.Proofs.Sql.Dialect
import EntitySql.Proofs.Statement.Names

/-!
# Statements by position

The placeholders of every statement stand in the order of its parameters, and nothing
else in its text looks like one. So replacing them by question marks uses each parameter
once, in order, also in the queries for pages.
-/

namespace EntitySql

/-- An entity type whose members have ASCII names, and in whose table and columns nothing stands
that means anything to the reader of placeholders. -/
structure EntityType.Plain (d : Dialect) (t : EntityType) : Prop where
  name : ∀ f ∈ t.mapping.members, Text.isIdentifier f.name = true
  column : ∀ f ∈ t.mapping.members, d.IsPlainText f.column
  table : d.IsPlainText t.mapping.table

/-- A draft whose phrase is clean and whose placeholders are its parameters in order. -/
structure Draft.Placed (d : Dialect) (x : Draft) : Prop where
  clean : x.phrase.Clean d
  slots_eq : x.phrase.slots = x.parameters.map (·.name)

/-- A field whose member has an ASCII name and whose column is plain. -/
def Field.Plain (d : Dialect) (f : Field) : Prop :=
  Text.isIdentifier f.1.name = true ∧ d.IsPlainText f.1.column

/-- What stands behind the names of parameters and may go on with a name. -/
def IsSuffix (suffix : String) : Prop :=
  ∀ c ∈ suffix.toList, Text.continuesName c = true

/-- Nothing may stand behind a name. -/
theorem isSuffix_empty : IsSuffix "" :=
  fun _ hc => absurd hc (by simp)

/-- The place in a batch may stand behind a name. -/
theorem isSuffix_batchSuffix (i : Nat) : IsSuffix (batchSuffix i) := by
  intro c hc
  rcases List.mem_append.mp (String.toList_append ▸ hc) with hc | hc
  · rw [List.mem_singleton.mp hc]
    decide
  · exact Text.continuesName_of_isDigit (Text.isDigit_of_mem_toString hc)

open Phrase

namespace Draft.Placed

variable {d : Dialect} {m : Metadata} {x y : Draft}

/-- Plain text may follow a draft when no name goes on with it. -/
theorem thenText (h : x.Placed d) {s : String} (hs : d.IsTail s) :
    (x.thenText s).Placed d where
  clean := h.clean.append (.text hs.plain .nil) hs.closes
  slots_eq := (x.slots_thenText s).trans h.slots_eq

/-- Drafts joined by a plain text that no name goes on with. -/
theorem join {separator : String} {c : Char} {cs : List Char} {xs : List Draft}
    (hplain : d.IsPlainText separator) (hs : separator.toList = c :: cs)
    (hc : Text.continuesName c = false) (h : ∀ x ∈ xs, x.Placed d) :
    (Draft.join separator xs).Placed d where
  clean := by
    refine clean_join hplain hs hc fun p hp => ?_
    obtain ⟨x, hx, rfl⟩ := List.mem_map.mp hp
    exact (h x hx).clean
  slots_eq := Draft.slots_join fun x hx => (h x hx).slots_eq

/-- An update by assignments. -/
theorem updateAll (hm : d.IsPlainText m.table) (h : x.Placed d) :
    (EntitySql.updateAll m x).Placed d where
  clean := .text (((Dialect.IsPlainText.of_all (by decide)).append hm).append
    (.of_all (by decide))) h.clean
  slots_eq := h.slots_eq

/-- A draft and then the condition on a key. -/
theorem where_ (hx : x.Placed d) (hy : y.Placed d) : (Draft.join " WHERE " [x, y]).Placed d := by
  refine join (.of_all (by decide)) rfl (by decide) fun z hz => ?_
  rcases List.mem_cons.mp hz with rfl | hz
  · exact hx
  · exact List.mem_singleton.mp hz ▸ hy

/-- A draft of one plain text. -/
theorem text {s : String} (hs : d.IsPlainText s) : Draft.Placed d ⟨[.text s], []⟩ where
  clean := .text hs .nil
  slots_eq := rfl

end Draft.Placed

namespace Field

variable {d : Dialect} {m : Metadata} {suffix : String} {fs : List Field} {x : Draft}

/-- Fields with a value are plain when all are. -/
theorem plain_present (h : ∀ f ∈ fs, f.Plain d) : ∀ f ∈ present fs, f.Plain d :=
  fun f hf => h f (List.mem_filter.mp hf).1

/-- The parameter of a plain field has a name. -/
theorem Plain.isIdentifier {f : Field} (h : f.Plain d) (hsuffix : IsSuffix suffix) :
    Text.isIdentifier (f.parameterName suffix) = true :=
  Text.isIdentifier_append h.1 hsuffix

/-- The assignment of a plain field is clean. -/
theorem Plain.clean_assignment {f : Field} (h : f.Plain d) (hsuffix : IsSuffix suffix) :
    Clean d (f.assignment suffix) :=
  .text (h.2.append (.of_all (by decide))) (clean_slot (h.isIdentifier hsuffix))

/-- Assignments of plain fields, one placeholder for each. -/
theorem placed_assignments {separator : String} {c : Char} {cs : List Char}
    (hplain : d.IsPlainText separator) (hs : separator.toList = c :: cs)
    (hc : Text.continuesName c = false) (hsuffix : IsSuffix suffix) (h : ∀ f ∈ fs, f.Plain d)
    (hphrase : x.phrase = Phrase.join separator (fs.map (assignment suffix)))
    (hparameters : x.parameters = fs.map (parameter d suffix)) : x.Placed d where
  clean := by
    rw [hphrase]
    refine clean_join hplain hs hc fun p hp => ?_
    obtain ⟨f, hf, rfl⟩ := List.mem_map.mp hp
    exact (h f hf).clean_assignment hsuffix
  slots_eq := by rw [hphrase, hparameters, slots_assignments, names_parameters]

/-- The condition on plain keys. -/
theorem placed_keyClause (hsuffix : IsSuffix suffix) (h : ∀ f ∈ fs, f.Plain d)
    (hx : keyClause d m suffix fs = .ok x) : x.Placed d := by
  obtain ⟨-, hphrase, hparameters⟩ := keyClause_eq_ok hx
  exact placed_assignments (.of_all (by decide)) rfl (by decide) hsuffix h hphrase hparameters

/-- The assignments of plain fields. -/
theorem placed_assignmentsDraft (hsuffix : IsSuffix suffix) (h : ∀ f ∈ fs, f.Plain d)
    (hx : assignmentsDraft d m suffix fs = .ok x) : x.Placed d := by
  obtain ⟨-, hphrase, hparameters⟩ := assignmentsDraft_eq_ok hx
  exact placed_assignments (.of_all (by decide)) rfl (by decide) hsuffix (plain_present h) hphrase
    hparameters

/-- The assignments of plain fields, null included. -/
theorem placed_listedDraft (h : ∀ f ∈ fs, f.Plain d) : (listedDraft d fs).Placed d where
  clean := by
    refine clean_join (.of_all (by decide)) rfl (by decide) fun p hp => ?_
    obtain ⟨f, hf, rfl⟩ := List.mem_map.mp hp
    unfold nullableAssignment
    cases f.2.isNull with
    | true => exact .text ((h f hf).2.append (.of_all (by decide))) .nil
    | false => exact (h f hf).clean_assignment isSuffix_empty
  slots_eq := slots_listedDraft d fs

/-- The insertion of plain fields. -/
theorem placed_insertDraft (hm : d.IsPlainText m.table) (hsuffix : IsSuffix suffix)
    (h : ∀ f ∈ fs, f.Plain d) (hx : insertDraft d m suffix fs = .ok x) : x.Placed d := by
  obtain ⟨-, hphrase, hparameters⟩ := insertDraft_eq_ok hx
  have hslots : ((present fs).map fun f => [Piece.slot (f.parameterName suffix)]) =
      ((present fs).map (parameterName suffix)).map fun name => [.slot name] := by simp
  have hcolumns : d.IsPlainText (", ".intercalate ((present fs).map (·.1.column))) := by
    refine .intercalate (.of_all (by decide)) fun c hc => ?_
    obtain ⟨f, hf, rfl⟩ := List.mem_map.mp hc
    exact (plain_present h f hf).2
  have hnames : ∀ name ∈ (present fs).map (parameterName suffix),
      Text.isIdentifier name = true := by
    intro name hname
    obtain ⟨f, hf, rfl⟩ := List.mem_map.mp hname
    exact (plain_present h f hf).isIdentifier hsuffix
  rw [hslots] at hphrase
  constructor
  · rw [hphrase]
    refine .text ?_ ((clean_join_slots (.of_all (by decide)) rfl (by decide) hnames).append
      (.text (.of_all (by decide)) .nil) (closes_text rfl (by decide) _))
    exact ((((Dialect.IsPlainText.of_all (by decide)).append hm).append
      (.of_all (by decide))).append hcolumns).append (.of_all (by decide))
  · rw [hphrase, hparameters, slots_text, slots_append, slots_join_slots, names_parameters]
    exact List.append_nil _

end Field

variable {d : Dialect} {t : EntityType} {m : Metadata}

namespace EntityType.Plain

/-- The columns of names are plain. -/
theorem column? (ht : t.Plain d) (hm : Metadata.ofMapping t.mapping = .ok m) {name c : String}
    (h : m.column? name = some c) : d.IsPlainText c := by
  obtain ⟨f, hf, rfl⟩ := Metadata.column?_eq_some_iff.mp h
  exact ht.column f (Metadata.mem_mapping_of_mem hm (Metadata.mem_of_member?_eq_some hf))

/-- The fields of members are plain. -/
theorem fields (ht : t.Plain d) (hm : Metadata.ofMapping t.mapping = .ok m) (x : Instance)
    {ms : List Member} (hsub : ms.Sublist m.members) : ∀ f ∈ t.fields x ms, f.Plain d := by
  intro f hf
  obtain ⟨member, hmember, rfl⟩ := List.mem_map.mp hf
  have hmem := Metadata.mem_mapping_of_mem hm (hsub.subset hmember)
  exact ⟨ht.name member hmem, ht.column member hmem⟩

/-- The table is plain. -/
theorem table_metadata (ht : t.Plain d) (hm : Metadata.ofMapping t.mapping = .ok m) :
    d.IsPlainText m.table := by
  rw [Metadata.eq_of_ofMapping hm]
  exact ht.table

/-- Parameters that are bound for members have names. -/
theorem isIdentifier_of_grows (ht : t.Plain d) (hm : Metadata.ofMapping t.mapping = .ok m)
    {b b' : Binder} {ps : List Parameter} (h : (⟨m, d, ""⟩ : Surroundings).Grows b ps b') :
    ∀ p ∈ ps, Text.isIdentifier p.name = true := by
  intro p hp
  obtain ⟨member, f, k, hf, hname⟩ := h.name_eq_candidate hp
  have hmem := Metadata.mem_mapping_of_mem hm (Metadata.mem_of_member?_eq_some hf)
  have hmember :=
    Text.isIdentifier_of_sameName (Metadata.sameName_of_member?_eq_some hf) (ht.name f hmem)
  rw [hname]
  exact Binder.isIdentifier_candidate (Text.isIdentifier_append hmember isSuffix_empty) k

end EntityType.Plain

/-- Whatever is said of every found column is said of all. -/
private theorem forall_mem_of_mapM {α β : Type} {f : α → Except Fault β} {holds : β → Prop}
    {xs : List α} {ys : List β} (h : xs.mapM f = .ok ys)
    (hf : ∀ x y, f x = .ok y → holds y) : ∀ y ∈ ys, holds y := by
  have hall := mapM_eq_ok_iff.mp h
  clear h
  induction hall with
  | nil => simp
  | cons hhead _ ih => exact List.forall_mem_cons.mpr ⟨hf _ _ hhead, ih⟩

/-- The draft for a row is placed. -/
theorem RowDraft.placed {suffix : String} {y : Draft} (ht : t.Plain d)
    (hm : Metadata.ofMapping t.mapping = .ok m) (hsuffix : IsSuffix suffix)
    (h : RowDraft d t m suffix y) : y.Placed d := by
  have hkeys (x : Instance) : ∀ f ∈ t.fields x m.keyMembers, f.Plain d :=
    ht.fields hm x List.filter_sublist
  cases h with
  | @insert x _ h =>
    have hfields : ∀ f ∈ t.fields x m.insertableMembers, f.Plain d :=
      ht.fields hm x (List.filter_sublist.trans List.filter_sublist)
    exact Field.placed_insertDraft (ht.table_metadata hm) hsuffix hfields h
  | @update x _ h =>
    have hfields : ∀ f ∈ t.fields x m.nonKeyMembers, f.Plain d :=
      ht.fields hm x (List.filter_sublist.trans List.filter_sublist)
    obtain ⟨assignments, ha, h⟩ := bind_eq_ok_iff.mp h
    obtain ⟨condition, hc, h⟩ := bind_eq_ok_iff.mp h
    cases h
    exact ((Field.placed_assignmentsDraft hsuffix hfields ha).updateAll
      (ht.table_metadata hm)).where_ (Field.placed_keyClause hsuffix (hkeys x) hc)
  | @delete x _ h =>
    obtain ⟨condition, hc, h⟩ := bind_eq_ok_iff.mp h
    cases h
    have hall : (deleteAll m).Placed d :=
      .text ((Dialect.IsPlainText.of_all (by decide)).append (ht.table_metadata hm))
    exact hall.where_ (Field.placed_keyClause hsuffix (hkeys x) hc)

/-- The columns of a projection are plain. -/
theorem EntityType.Plain.projection (ht : t.Plain d) (hm : Metadata.ofMapping t.mapping = .ok m)
    {p : Projection} {k : SelectKind} {text columns : String}
    (htext : (⟨m, d, ""⟩ : Surroundings).projectionText p = .ok text)
    (hcolumns : k.columns p text = .ok columns) : d.IsPlainText columns := by
  obtain ⟨cs, hcs, rfl⟩ := map_eq_ok_iff.mp htext
  have hplain : d.IsPlainText (", ".intercalate cs) := by
    unfold Surroundings.columnsOf at hcs
    split at hcs
    · cases hcs
    · exact .intercalate (.of_all (by decide)) (forall_mem_of_mapM hcs fun name c hc =>
        ht.column? hm (Surroundings.column_eq_ok_iff.mp hc))
  unfold SelectKind.columns at hcolumns
  cases k with
  | rows =>
    cases hcolumns
    exact hplain
  | distinct =>
    cases hcolumns
    exact (Dialect.IsPlainText.of_all (by decide)).append hplain
  | max | min =>
    dsimp only at hcolumns
    split at hcolumns
    · cases hcolumns
      exact ((Dialect.IsPlainText.of_all (by decide)).append hplain).append (.of_all (by decide))
    · cases hcolumns
  | count =>
    cases hcolumns
    exact .of_all (by decide)

/-- The sort keys of an order are plain. -/
theorem EntityType.Plain.orderKeys? (ht : t.Plain d) (hm : Metadata.ofMapping t.mapping = .ok m)
    {order : Option (List SortKey)} {keys : Option String}
    (h : Build.orderKeys? d m order = .ok keys) : ∀ k, keys = some k → d.IsPlainText k := by
  rintro k rfl
  cases order with
  | none => cases h
  | some order =>
    obtain ⟨text, htext, hk⟩ := map_eq_ok_iff.mp h
    obtain rfl := Option.some.inj hk
    unfold Surroundings.orderText at htext
    split at htext
    · cases htext
    · obtain ⟨texts, htexts, rfl⟩ := map_eq_ok_iff.mp htext
      refine .intercalate (.of_all (by decide)) (forall_mem_of_mapM htexts fun key text hkey => ?_)
      obtain ⟨c, hc, rfl⟩ := map_eq_ok_iff.mp hkey
      have hword : d.IsPlainText key.direction.word :=
        .of_all (by cases key.direction <;> decide)
      exact ((ht.column? hm (Surroundings.column_eq_ok_iff.mp hc)).append
        (.of_all (by decide))).append hword

/-- A draft for all rows is placed. -/
theorem OpenDraft.placed {x : Draft} (ht : t.Plain d) (hm : Metadata.ofMapping t.mapping = .ok m)
    (h : OpenDraft d t m x) : x.Placed d := by
  have htable := ht.table_metadata hm
  have hselect {columns : String} (hcolumns : d.IsPlainText columns) :
      (selectAll m columns).Placed d :=
    .text ((((Dialect.IsPlainText.of_all (by decide)).append hcolumns).append
      (.of_all (by decide))).append htable)
  cases h with
  | delete => exact .text ((Dialect.IsPlainText.of_all (by decide)).append htable)
  | select =>
    refine hselect (.intercalate (.of_all (by decide)) fun c hc => ?_)
    obtain ⟨f, hf, rfl⟩ := List.mem_map.mp hc
    exact ht.column f (Metadata.mem_mapping_of_mem hm (List.mem_filter.mp hf).1)
  | project htext hcolumns => exact hselect (ht.projection hm htext hcolumns)
  | count => exact hselect (.of_all (by decide))
  | @assign x _ _ hsub h =>
    exact (Field.placed_assignmentsDraft isSuffix_empty (ht.fields hm x hsub) h).updateAll htable
  | @list x _ hsub => exact (Field.placed_listedDraft (ht.fields hm x hsub)).updateAll htable
  | @set assignments bound b h =>
    obtain ⟨ps, hgrows, hform⟩ :=
      (⟨m, d, ""⟩ : Surroundings).bindAssignments_adds assignments (Binder.avoiding [])
    rw [h] at hgrows hform
    obtain ⟨-, hbinds⟩ := hform bound rfl
    have hparameters : b.parameters = ps := hgrows.parameters_eq
    have hclean := hbinds.clean (fun _ _ => ht.column? hm) (ht.isIdentifier_of_grows hm hgrows)
    exact Draft.Placed.updateAll htable ⟨hclean, by rw [hbinds.slots_list, hparameters]⟩

/-- A condition keeps a draft placed. -/
theorem Draft.Placed.filteredBy {x y : Draft} {c : Option Condition} (ht : t.Plain d)
    (hm : Metadata.ofMapping t.mapping = .ok m) (hx : x.Placed d)
    (h : x.filteredBy d m c = .ok y) : y.Placed d := by
  have hslots := Draft.slots_of_filteredBy hx.slots_eq h
  rcases filteredBy_eq_ok h with rfl | ⟨c, rfl, h⟩
  · exact hx
  · obtain ⟨ps, bound, b, hgrows, hbinds, hphrase, hparameters⟩ := filtered_eq_ok h
    have hclean := hbinds.clean (fun _ _ => ht.column? hm) (ht.isIdentifier_of_grows hm hgrows)
    refine ⟨?_, hslots⟩
    rw [hphrase]
    exact hx.clean.append (.text (.of_all (by decide)) hclean) (closes_text rfl (by decide) _)

/-- The drafts of an operation are placed. -/
theorem BuiltDrafts.placed {ds : List Draft} (ht : t.Plain d)
    (hm : Metadata.ofMapping t.mapping = .ok m) (h : BuiltDrafts d t m ds) :
    ∀ y ∈ ds, y.Placed d := by
  have hone {y : Draft} (hy : y.Placed d) : ∀ z ∈ [y], z.Placed d :=
    fun z hz => List.mem_singleton.mp hz ▸ hy
  cases h with
  | row h => exact hone (h.placed ht hm isSuffix_empty)
  | insertion h =>
    refine hone ((h.placed ht hm isSuffix_empty).thenText ?_)
    unfold identityText
    split
    · exact Dialect.isTail_identityQuery (ht.table_metadata hm)
    · exact .empty d
  | @batch groups h =>
    intro y hy
    obtain ⟨parts, hparts, rfl⟩ := List.mem_map.mp hy
    have hplain : d.IsPlainText d.terminator := .of_all (by cases d <;> decide)
    have hstart : d.terminator.toList = [';'] := by cases d <;> decide
    refine Draft.Placed.join hplain hstart (by decide) fun z hz => ?_
    obtain ⟨i, hi, rfl⟩ := List.getElem_of_mem (List.mem_flatten_of_mem hparts hz)
    exact (h i hi).placed ht hm (isSuffix_batchSuffix i)
  | restricted hx h => exact hone ((hx.placed ht hm).filteredBy ht hm h)
  | ordered hx h horder =>
    have hplaced := (hx.placed ht hm).filteredBy ht hm h
    exact hone (hplaced.thenText (Dialect.isTail_orderClause (ht.orderKeys? hm horder)))

/-- The text of a statement is that of a clean phrase whose placeholders are the parameters of the
statement in order. -/
def Statement.Spells (d : Dialect) (s : Statement) (p : Phrase) : Prop :=
  s.text = p.render d.marker ∧ p.Clean d ∧ p.slots = s.parameters.map (·.name)

namespace Statement

variable {s : Statement} {p : Phrase}

/-- Plain texts around a statement. -/
theorem Spells.surrounded (h : s.Spells d p) {before after : String}
    (hbefore : d.IsPlainText before) (hafter : d.IsTail after) :
    (⟨before ++ s.text ++ after, s.parameters⟩ : Statement).Spells d
      (.text before :: (p ++ [.text after])) := by
  obtain ⟨htext, hclean, hslots⟩ := h
  refine ⟨?_, .text hbefore (hclean.append (.text hafter.plain .nil) hafter.closes), ?_⟩
  · simp only [htext, render_cons, render_append, Piece.render, String.append_assoc]
    simp [render]
  · rw [slots_text, slots_append, hslots]
    exact List.append_nil _

/-- Every statement of a plain type spells a phrase. -/
theorem Built.exists_spells (ht : t.Plain d) (h : s.Built d t) : ∃ p, s.Spells d p := by
  have hvalid : ∃ m, Metadata.ofMapping t.mapping = .ok m := by
    induction h with
    | operation hc h _ =>
      obtain ⟨m, -, hm, -⟩ := Build.statements_eq_ok hc h
      exact ⟨m, hm⟩
    | pageCount _ ih => exact ih
    | pageRows _ _ _ _ ih => exact ih
  obtain ⟨m, hm⟩ := hvalid
  induction h with
  | operation hc h hs =>
    obtain ⟨m', ds, hm', hds, rfl⟩ := Build.statements_eq_ok hc h
    obtain ⟨y, hy, rfl⟩ := List.mem_map.mp hs
    have hplaced := (Build.built_of_drafts hds).placed ht hm' y hy
    exact ⟨y.phrase, rfl, hplaced.clean, hplaced.slots_eq⟩
  | pageCount _ ih =>
    obtain ⟨p, hp⟩ := ih
    have hafter : d.IsTail ") t" := .of_cons (.of_all (by decide)) rfl (by decide)
    exact ⟨_, hp.surrounded (.of_all (by decide)) hafter⟩
  | @pageRows _ _ _ keys s _ hc h w ih =>
    obtain ⟨p, hp⟩ := ih
    have hkeys := ht.orderKeys? hm (Build.orderKeys?_of_run hm hc h)
    obtain ⟨before, after, hbefore, hafter, heq⟩ := Dialect.exists_paginate hkeys w.start w.stop
    have hpage := hp.surrounded hbefore hafter
    rw [← heq] at hpage
    exact ⟨_, hpage⟩

end Statement

/-- Of every statement of a plain type, the text is a phrase whose placeholders are the parameters
in order. Replacing the placeholders in that text finds them all: it gives the same phrase with
question marks, as many as there are parameters, and the values of all parameters in order. -/
theorem positional_of_built {s : Statement} (ht : t.Plain d) (hs : s.Built d t) :
    ∃ p : Phrase, s.text = p.render d.marker ∧ p.Clean d ∧
      p.slots = s.parameters.map (·.name) ∧
      Placeholder.positional s.text d.marker s.parameters =
        .ok ⟨p.questioned, s.parameters.map (·.value)⟩ ∧
      p.questioned.toList.count '?' = s.parameters.length := by
  obtain ⟨p, htext, hclean, hslots⟩ := hs.exists_spells ht
  have hnames : (s.parameters.map (·.name)).Nodup := by
    have hfolded := hs.nodup_names
    rw [foldedNames, ← Function.comp_def, ← List.map_map] at hfolded
    exact hfolded.of_map _
  refine ⟨p, htext, hclean, hslots, ?_, ?_⟩
  · rw [htext]
    exact Placeholder.positional_render hclean hnames hslots
  · rw [hclean.count_questioned, hslots, List.length_map]

/-- The query for the number of parts of a size has one question mark, and the size as its value. -/
theorem positional_of_built_parts :
    EntityType.Plain .sqlite .parts ∧ ∃ s : Statement, s.Built .sqlite .parts ∧
      s.text = "SELECT COUNT(1) FROM (SELECT COUNT(1) CT FROM PARTS WHERE SIZE = @size) t" ∧
      ∃ p : Phrase, Placeholder.positional s.text "@" s.parameters =
          .ok ⟨p.questioned, s.parameters.map (·.value)⟩ ∧
        p.questioned.toList.count '?' = s.parameters.length := by
  have hplain : EntityType.Plain .sqlite .parts := by
    refine ⟨by decide, fun f hf => ?_, .of_all (by decide)⟩
    have hcolumn : f.column ∈ ["ID", "SIZE", "WIDTH"] := List.mem_map_of_mem hf
    simp only [List.mem_cons, List.not_mem_nil, or_false] at hcolumn
    rcases hcolumn with h | h | h <;> exact h ▸ .of_all (by decide)
  let count : Build := .count (some (.compare (.member "size") .equal (.value (.int64 5))))
  have hrun : ((count.statements .sqlite .parts).runFrom .empty).1.toOption.map
      (·.map (·.text)) = some ["SELECT COUNT(1) CT FROM PARTS WHERE SIZE = @size"] := by
    decide +kernel
  rcases hstatements : (count.statements .sqlite .parts).runFrom .empty with ⟨e | ss, c'⟩
  · rw [hstatements] at hrun
    cases hrun
  · rw [hstatements] at hrun
    obtain ⟨s, rfl, hs⟩ := List.map_eq_singleton_iff.mp (Option.some.inj hrun)
    have hbuilt : s.pageCount.Built .sqlite .parts :=
      .pageCount (.operation (Catalog.serves_empty _) hstatements List.mem_cons_self)
    have htext : s.pageCount.text = countText "SELECT COUNT(1) CT FROM PARTS WHERE SIZE = @size" :=
      congrArg countText hs
    obtain ⟨p, -, -, -, hpositional, hcount⟩ := positional_of_built hplain hbuilt
    exact ⟨hplain, s.pageCount, hbuilt, htext, p, hpositional, hcount⟩

end EntitySql
