import EntitySql.Proofs.Entity.Transparency
import Mathlib.Data.List.Induction
import Mathlib.Data.List.Nodup

/-!
# Valid mappings

Validation goes through the members once, with the folded names before each member and
whether one of them was a generated key. What it accepts is told without that state: the
names differ, no column is blank, and at most one key is generated. What it rejects, it
rejects for the first member that offends against this.
-/

namespace EntitySql

/-- Members with names that differ whatever the case of their letters, with columns that are not
blank, and with at most one generated key among them. -/
structure Member.Orderly (ms : List Member) : Prop where
  names : ms.Pairwise fun f g => Text.sameName f.name g.name = false
  columns : ∀ f ∈ ms, Text.isBlankText f.column = false
  autoKeys : ms.Pairwise fun f g => ¬(f.kind = .autoKey ∧ g.kind = .autoKey)

/-- A member offends after others when it repeats a name, or else has a blank column, or else is a
second generated key. -/
inductive Member.Offends (before : List Member) (f : Member) : MappingFault → Prop
  | repeatedMember (hname : ∃ g ∈ before, Text.sameName g.name f.name = true) :
      Offends before f (.repeatedMember f.name)
  | blankColumn (hname : ∀ g ∈ before, Text.sameName g.name f.name = false)
      (hcolumn : Text.isBlankText f.column = true) : Offends before f (.blankColumn f.name)
  | secondAutoKey (hname : ∀ g ∈ before, Text.sameName g.name f.name = false)
      (hcolumn : Text.isBlankText f.column = false) (hkind : f.kind = .autoKey)
      (hbefore : ∃ g ∈ before, g.kind = .autoKey) : Offends before f .secondAutoKey

/-- A valid mapping has a table that is not blank, and orderly members. -/
structure Mapping.Valid (m : Mapping) : Prop where
  table : Text.isBlankText m.table = false
  members : Member.Orderly m.members

/-- What is wrong with a mapping: its table is blank, or else a member is the first to offend. -/
inductive Mapping.Fails (m : Mapping) : MappingFault → Prop
  | blankTable (htable : Text.isBlankText m.table = true) : Fails m .blankTable
  | member {before after : List Member} {f : Member} {cause : MappingFault}
      (htable : Text.isBlankText m.table = false) (hsplit : m.members = before ++ f :: after)
      (hbefore : Member.Orderly before) (hf : f.Offends before cause) : Fails m cause

namespace Member

variable {before after ms : List Member} {f : Member}

/-- A member that does not offend has a new name, a column that is not blank, and is no second
generated key. -/
theorem not_offends_iff : (∀ cause, ¬f.Offends before cause) ↔
    (∀ g ∈ before, Text.sameName g.name f.name = false) ∧ Text.isBlankText f.column = false ∧
      ∀ g ∈ before, ¬(g.kind = .autoKey ∧ f.kind = .autoKey) := by
  constructor
  · intro h
    have hname : ∀ g ∈ before, Text.sameName g.name f.name = false := fun g hg =>
      Bool.eq_false_iff.mpr fun hsame => h _ (.repeatedMember ⟨g, hg, hsame⟩)
    have hcolumn : Text.isBlankText f.column = false :=
      Bool.eq_false_iff.mpr fun hblank => h _ (.blankColumn hname hblank)
    exact ⟨hname, hcolumn, fun g hg hkinds =>
      h _ (.secondAutoKey hname hcolumn hkinds.2 ⟨g, hg, hkinds.1⟩)⟩
  · rintro ⟨hname, hcolumn, hkinds⟩ cause h
    cases h with
    | repeatedMember hsame =>
      obtain ⟨g, hg, hsame⟩ := hsame
      rw [hname g hg] at hsame
      cases hsame
    | blankColumn _ hblank =>
      rw [hcolumn] at hblank
      cases hblank
    | secondAutoKey _ _ hkind hbefore =>
      obtain ⟨g, hg, hautoKey⟩ := hbefore
      exact hkinds g hg ⟨hautoKey, hkind⟩

/-- Members stay orderly when one is added that does not offend, and not otherwise. -/
theorem orderly_snoc_iff :
    Orderly (before ++ [f]) ↔ Orderly before ∧ ∀ cause, ¬f.Offends before cause := by
  rw [not_offends_iff]
  constructor
  · rintro ⟨hnames, hcolumns, hkinds⟩
    obtain ⟨hnames, -, hname⟩ := List.pairwise_append.mp hnames
    obtain ⟨hcolumns, hcolumn⟩ := List.forall_mem_append.mp hcolumns
    obtain ⟨hkinds, -, hkind⟩ := List.pairwise_append.mp hkinds
    exact ⟨⟨hnames, hcolumns, hkinds⟩, fun g hg => hname g hg f List.mem_cons_self,
      hcolumn f List.mem_cons_self, fun g hg => hkind g hg f List.mem_cons_self⟩
  · rintro ⟨⟨hnames, hcolumns, hkinds⟩, hname, hcolumn, hkind⟩
    refine ⟨List.pairwise_append.mpr ⟨hnames, List.pairwise_singleton _ _, ?_⟩,
      List.forall_mem_append.mpr ⟨hcolumns, ?_⟩,
      List.pairwise_append.mpr ⟨hkinds, List.pairwise_singleton _ _, ?_⟩⟩
    · intro g hg f' hf'
      rw [List.mem_singleton.mp hf']
      exact hname g hg
    · intro f' hf'
      rw [List.mem_singleton.mp hf']
      exact hcolumn
    · intro g hg f' hf'
      rw [List.mem_singleton.mp hf']
      exact hkind g hg

/-- The first of orderly members are orderly. -/
theorem Orderly.of_append (h : Orderly (before ++ after)) : Orderly before where
  names := (List.pairwise_append.mp h.names).1
  columns := (List.forall_mem_append.mp h.columns).1
  autoKeys := (List.pairwise_append.mp h.autoKeys).1

/-- Members that are not orderly have a first one that offends. -/
theorem orderly_or_offends (ms : List Member) :
    Orderly ms ∨ ∃ before f after cause,
      ms = before ++ f :: after ∧ Orderly before ∧ f.Offends before cause := by
  induction ms using List.reverseRecOn with
  | nil => exact Or.inl ⟨.nil, nofun, .nil⟩
  | append_singleton ms f ih =>
    rcases ih with hms | ⟨before, g, after, cause, rfl, hbefore, hg⟩
    · by_cases hf : ∃ cause, f.Offends ms cause
      · obtain ⟨cause, hf⟩ := hf
        exact Or.inr ⟨ms, f, [], cause, rfl, hms, hf⟩
      · exact Or.inl (orderly_snoc_iff.mpr ⟨hms, not_exists.mp hf⟩)
    · exact Or.inr ⟨before, g, after ++ [f], cause, by simp, hbefore, hg⟩

end Member

namespace Metadata

open Member

variable {before ms : List Member} {f : Member} {seen : List String} {hasAutoKey : Bool}
  {cause : MappingFault}

/-- The state of the check after some members: their folded names, and whether one of them is a
generated key. -/
structure Seen (before : List Member) (seen : List String) (hasAutoKey : Bool) : Prop where
  mem_iff : ∀ s, s ∈ seen ↔ ∃ g ∈ before, Text.foldCase g.name = s
  autoKey_iff : hasAutoKey = true ↔ ∃ g ∈ before, g.kind = .autoKey

/-- Before all members nothing was seen. -/
theorem seen_nil : Seen [] [] false where
  mem_iff := by simp
  autoKey_iff := by simp

/-- A name was seen when a member before has the same name. -/
theorem Seen.name_iff (h : Seen before seen hasAutoKey) :
    Text.foldCase f.name ∈ seen ↔ ∃ g ∈ before, Text.sameName g.name f.name = true := by
  simp only [h.mem_iff, Text.sameName_eq_true_iff]

/-- A new name was not seen. -/
theorem Seen.not_mem (h : Seen before seen hasAutoKey)
    (hname : ∀ g ∈ before, Text.sameName g.name f.name = false) : Text.foldCase f.name ∉ seen := by
  rw [h.name_iff]
  rintro ⟨g, hg, hsame⟩
  rw [hname g hg] at hsame
  cases hsame

/-- What was seen after one more member. -/
theorem Seen.snoc (h : Seen before seen hasAutoKey) (f : Member) :
    Seen (before ++ [f]) (Text.foldCase f.name :: seen) (hasAutoKey || f.kind == .autoKey) where
  mem_iff s := by
    simp only [List.mem_cons, h.mem_iff, List.mem_append, List.not_mem_nil, or_false, or_and_right,
      exists_or, exists_eq_left]
    rw [or_comm, eq_comm]
  autoKey_iff := by
    simp only [Bool.or_eq_true, h.autoKey_iff, beq_iff_eq, List.mem_append, List.mem_cons,
      List.not_mem_nil, or_false, or_and_right, exists_or, exists_eq_left]

/-- The check stops at a member that offends. -/
theorem checkMembers_cons_of_offends (h : Seen before seen hasAutoKey)
    (hf : f.Offends before cause) : checkMembers seen hasAutoKey (f :: ms) = .error cause := by
  cases hf with
  | repeatedMember hname => rw [checkMembers, if_pos (h.name_iff.mpr hname)]
  | blankColumn hname hcolumn => rw [checkMembers, if_neg (h.not_mem hname), if_pos hcolumn]
  | secondAutoKey hname hcolumn hkind hbefore =>
    rw [checkMembers, if_neg (h.not_mem hname), if_neg (Bool.eq_false_iff.mp hcolumn),
      if_pos ⟨hkind, h.autoKey_iff.mpr hbefore⟩]

/-- The check goes on after a member that does not offend. -/
theorem checkMembers_cons_of_not_offends (h : Seen before seen hasAutoKey)
    (hf : ∀ cause, ¬f.Offends before cause) :
    checkMembers seen hasAutoKey (f :: ms) =
      checkMembers (Text.foldCase f.name :: seen) (hasAutoKey || f.kind == .autoKey) ms := by
  obtain ⟨hname, hcolumn, hkind⟩ := not_offends_iff.mp hf
  have hsingle : ¬(f.kind = .autoKey ∧ hasAutoKey = true) := by
    rintro ⟨hf, hbefore⟩
    obtain ⟨g, hg, hautoKey⟩ := h.autoKey_iff.mp hbefore
    exact hkind g hg ⟨hautoKey, hf⟩
  rw [checkMembers, if_neg (h.not_mem hname), if_neg (Bool.eq_false_iff.mp hcolumn),
    if_neg hsingle]

/-- The check goes through orderly members and has then seen them. -/
theorem checkMembers_append (h : Seen before seen hasAutoKey) (hms : Orderly (before ++ ms)) :
    ∃ seen' hasAutoKey', Seen (before ++ ms) seen' hasAutoKey' ∧
      ∀ rest, checkMembers seen hasAutoKey (ms ++ rest) = checkMembers seen' hasAutoKey' rest := by
  induction ms generalizing before seen hasAutoKey with
  | nil => exact ⟨seen, hasAutoKey, by rwa [List.append_nil], fun _ => rfl⟩
  | cons f ms ih =>
    rw [List.append_cons] at hms
    obtain ⟨seen', hasAutoKey', hseen, hrest⟩ := ih (h.snoc f) hms
    have hf := (orderly_snoc_iff.mp hms.of_append).2
    refine ⟨seen', hasAutoKey', by rwa [List.append_cons], fun rest => ?_⟩
    rw [List.cons_append, checkMembers_cons_of_not_offends h hf, hrest]

/-- Orderly members pass the check. -/
theorem checkMembers_of_orderly (hms : Orderly ms) : checkMembers [] false ms = .ok () := by
  obtain ⟨seen', hasAutoKey', -, hrest⟩ := checkMembers_append seen_nil hms
  rw [← List.append_nil ms, hrest, checkMembers]

/-- The check fails for the first member that offends. -/
theorem checkMembers_of_offends {after : List Member} (hbefore : Orderly before)
    (hf : f.Offends before cause) :
    checkMembers [] false (before ++ f :: after) = .error cause := by
  obtain ⟨seen', hasAutoKey', hseen, hrest⟩ := checkMembers_append seen_nil hbefore
  rw [hrest, checkMembers_cons_of_offends hseen hf]

variable {mapping : Mapping} {d : Metadata}

/-- Validation accepts valid mappings. -/
theorem ofMapping_of_valid (h : mapping.Valid) :
    ofMapping mapping = .ok ⟨mapping.entity, mapping.table, mapping.members⟩ := by
  rw [ofMapping, if_neg (Bool.eq_false_iff.mp h.table), checkMembers_of_orderly h.members]

/-- Validation fails for what is wrong with a mapping. -/
theorem ofMapping_of_fails (h : mapping.Fails cause) :
    ofMapping mapping = .error (.mapping mapping.entity cause) := by
  cases h with
  | blankTable htable => rw [ofMapping, if_pos htable]
  | member htable hsplit hbefore hf =>
    rw [ofMapping, if_neg (Bool.eq_false_iff.mp htable), hsplit, checkMembers_of_offends hbefore hf]

/-- A mapping is valid or something is wrong with it. -/
theorem valid_or_fails (mapping : Mapping) : mapping.Valid ∨ ∃ cause, mapping.Fails cause := by
  cases htable : Text.isBlankText mapping.table with
  | true => exact Or.inr ⟨_, .blankTable htable⟩
  | false =>
    rcases orderly_or_offends mapping.members with hms | ⟨before, f, after, cause, hsplit, hf⟩
    · exact Or.inl ⟨htable, hms⟩
    · exact Or.inr ⟨cause, .member htable hsplit hf.1 hf.2⟩

/-- Validation accepts the valid mappings and no others. -/
theorem exists_ofMapping_iff : (∃ d, ofMapping mapping = .ok d) ↔ mapping.Valid := by
  refine ⟨?_, fun h => ⟨_, ofMapping_of_valid h⟩⟩
  rintro ⟨d, hd⟩
  rcases valid_or_fails mapping with h | ⟨cause, h⟩
  · exact h
  · rw [ofMapping_of_fails h] at hd
    cases hd

/-- Validation fails exactly for what is wrong with a mapping. -/
theorem ofMapping_eq_error_iff {e : Fault} : ofMapping mapping = .error e ↔
    ∃ cause, mapping.Fails cause ∧ e = .mapping mapping.entity cause := by
  constructor
  · intro he
    rcases valid_or_fails mapping with h | ⟨cause, h⟩
    · rw [ofMapping_of_valid h] at he
      cases he
    · rw [ofMapping_of_fails h] at he
      cases he
      exact ⟨cause, h, rfl⟩
  · rintro ⟨cause, h, rfl⟩
    exact ofMapping_of_fails h

/-- The members of accepted metadata are orderly. -/
theorem orderly_members (h : ofMapping mapping = .ok d) : Orderly d.members := by
  rw [eq_of_ofMapping h]
  exact (exists_ofMapping_iff.mp ⟨d, h⟩).members

/-- The names of the members of a valid mapping differ, whatever the case of their letters. -/
theorem nodup_names (h : ofMapping mapping = .ok d) :
    (d.members.map fun m => Text.foldCase m.name).Nodup := by
  refine List.pairwise_map.mpr ((orderly_members h).names.imp ?_)
  intro f g hname hsame
  rw [Text.sameName_eq_true_iff.mpr hsame] at hname
  cases hname

end Metadata

end EntitySql
