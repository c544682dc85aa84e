import EntitySql.Proofs.Grammar.Spelling
import EntitySql.Proofs.Grammar.Unambiguous
import EntitySql.Proofs.Query.BoundForm

/-!
# Reading bound expressions back

The written form of a bound expression, read with the grammar of conditions, gives the
tree of the expression and no other. So what an engine understands is the condition that
was bound, with columns for members and placeholders for values.
-/

namespace EntitySql

open Grammar

/-- The tree of a right side of a comparison. -/
def BoundOperand.tree : BoundOperand → Tree
  | .column c => .column c
  | .slot p => .parameter p

/-- The token of a right side of a comparison. -/
def BoundOperand.token : BoundOperand → Token
  | .column c => .word c
  | .slot p => .parameter p

namespace BoundCondition

/-- The tree of a condition. -/
def tree : BoundCondition → Tree
  | .and l r => .binary l.tree .and r.tree
  | .or l r => .binary l.tree .or r.tree
  | .not c => .not c.tree
  | .isNull c => .isNull (.column c)
  | .isNotNull c => .isNotNull (.column c)
  | .compare c op r => .binary (.column c) (.comparison op) r.tree
  | .like c p => .binary (.column c) .like (.parameter p)
  | .among c ps => .among (.column c) (ps.map .parameter)
  | .const true => .binary (.number "1") (.comparison .equal) (.number "1")
  | .const false => .binary (.number "1") (.comparison .equal) (.number "0")

/-- The tokens of the written form of a condition. -/
def tokens : BoundCondition → List Token
  | .and l r => .opening :: (l.tokens ++ .keyword .and :: r.tokens ++ [.closing])
  | .or l r => .opening :: (l.tokens ++ .keyword .or :: r.tokens ++ [.closing])
  | .not c => .opening :: (.keyword .not :: c.tokens ++ [.closing])
  | .isNull c => [.word c, .keyword .is, .keyword .null]
  | .isNotNull c => [.word c, .keyword .is, .keyword .not, .keyword .null]
  | .compare c op r => [.word c, .comparison op, r.token]
  | .like c p => [.word c, .keyword .like, .parameter p]
  | .among c ps =>
    .word c :: .keyword .among :: .opening ::
      (commaJoin (ps.map fun p => [.parameter p]) ++ [.closing])
  | .const true => [.number "1", .comparison .equal, .number "1"]
  | .const false => [.number "1", .comparison .equal, .number "0"]

end BoundCondition

namespace BoundTerm

/-- The tree of a right side. -/
def tree : BoundTerm → Tree
  | .null => .null
  | .column c => .column c
  | .slot p => .parameter p
  | .binary l op r => .binary l.tree (.arithmetic op) r.tree

/-- The tokens of the written form of a right side. -/
def tokens : BoundTerm → List Token
  | .null => [.keyword .null]
  | .column c => [.word c]
  | .slot p => [.parameter p]
  | .binary l op r => .opening :: (l.tokens ++ .arithmetic op :: r.tokens ++ [.closing])

/-- The tokens of a right side read as its tree. -/
theorem reads_tokens (b : BoundTerm) : Reads 7 b.tokens b.tree := by
  induction b with
  | null => exact .leaf rfl
  | column c => exact .leaf rfl
  | slot p => exact .leaf rfl
  | binary l op r ihl ihr =>
    have hlevel : (Connective.arithmetic op).level < 7 := by cases op <;> decide
    have hl := ihl.loosen (Nat.le_of_lt hlevel) (Nat.le_refl 7)
    have hr := ihr.loosen hlevel (Nat.le_refl 7)
    have hlow : 1 ≤ (Connective.arithmetic op).level := by cases op <;> decide
    exact .group ((Reads.binary (.arithmetic op) rfl hl hr).loosen hlow (Nat.le_of_lt hlevel))

end BoundTerm

namespace BoundAssignment

/-- The tree of an assignment. -/
def tree (a : BoundAssignment) : String × Tree :=
  (a.column, a.term.tree)

/-- The tokens of the written form of an assignment. -/
def tokens (a : BoundAssignment) : List Token :=
  .word a.column :: .comparison .equal :: a.term.tokens

/-- The tokens of assignments with commas between them read as their trees. -/
theorem reads_tokens {as : List BoundAssignment} (hne : as ≠ []) :
    ReadsAssignments (commaJoin (as.map tokens)) (as.map tree) := by
  refine ⟨as.map fun a => (a.tokens, a.tree), by simpa using hne, ?_,
    by simp [Function.comp_def], by simp⟩
  intro item hitem
  obtain ⟨a, -, rfl⟩ := List.mem_map.mp hitem
  exact .assign (a.term.reads_tokens.loosen (by omega) (by omega))

end BoundAssignment

namespace Surroundings

variable {s : Surroundings}

/-- Between two operands that are trees by themselves, a comparison reads as such. -/
private theorem reads_comparison {x y : Token} {l r : Tree} (op : Connective)
    (hop : op.level = 4) (hl : x.leaf? = some l) (hr : y.leaf? = some r) :
    Reads 4 [x, op.token, y] (.binary l op r) :=
  .binary op hop ((Reads.leaf hl).loosen (by omega) (by omega))
    ((Reads.leaf hr).loosen (by omega) (by omega))

/-- The tokens of a bound comparison read as its tree. -/
theorem BindsComparison.reads {member : String} {op : Comparison} {v : Value}
    {ps : List Parameter} {b : BoundCondition} (h : s.BindsComparison member op v ps b) :
    Reads 4 b.tokens b.tree := by
  have hcolumn (c : String) : Reads 4 [.word c] (.column c) :=
    (Reads.leaf rfl).loosen (by omega) (by omega)
  cases h with
  | isNull => exact .isNull (hcolumn _)
  | isNotNull => exact .isNotNull (hcolumn _)
  | slot => exact reads_comparison (.comparison op) rfl rfl rfl

/-- The tokens of a bound condition read as its tree. -/
theorem Binds.reads {c : Condition} {ps : List Parameter} {b : BoundCondition}
    (h : s.Binds c ps b) : Reads 4 b.tokens b.tree := by
  have hcolumn (c : String) : Reads 4 [.word c] (.column c) :=
    (Reads.leaf rfl).loosen (by omega) (by omega)
  have hgroup {ts : List Token} {t : Tree} (h : Reads 1 ts t) :
      Reads 4 (.opening :: (ts ++ [.closing])) t :=
    (Reads.group h).loosen (by omega) (by omega)
  induction h with
  | and _ _ ihl ihr =>
    have hl := ihl.loosen (m := 2) (by omega) (by omega)
    have hr := ihr.loosen (m := 3) (by omega) (by omega)
    have hand := Reads.binary (n := 2) .and rfl hl hr
    exact hgroup (hand.loosen (by omega) (by omega))
  | or _ _ ihl ihr =>
    have hl := ihl.loosen (m := 1) (by omega) (by omega)
    have hr := ihr.loosen (m := 2) (by omega) (by omega)
    exact hgroup (.binary .or rfl hl hr)
  | not _ ih =>
    have hinner := ih.loosen (m := 3) (by omega) (by omega)
    exact hgroup (hinner.not.loosen (by omega) (by omega))
  | members => exact reads_comparison (.comparison _) rfl rfl rfl
  | memberFirst h | valueFirst h => exact h.reads
  | isNull => exact .isNull (hcolumn _)
  | isNotNull => exact .isNotNull (hcolumn _)
  | like => exact reads_comparison .like rfl rfl rfl
  | @among _ c vs ps _ hvalues hparameters =>
    -- An empty list would read as no tree: `IN ()` is not in the grammar.
    have hps : ps ≠ [] := by
      rintro rfl
      cases hparameters
      exact hvalues rfl
    let items := ps.map fun p => ([Token.parameter p.name], Tree.parameter p.name)
    have hitems : ∀ item ∈ items, Reads 1 item.1 item.2 := by
      intro item hitem
      obtain ⟨p, -, rfl⟩ := List.mem_map.mp hitem
      exact (Reads.leaf rfl).loosen (by omega) (by omega)
    have hreads := Reads.among (hcolumn c) (by simpa [items] using hps) hitems
    simpa [items, BoundCondition.tokens, BoundCondition.tree, Function.comp_def] using hreads
  | const holds =>
    cases holds with
    | true => exact reads_comparison (.comparison .equal) rfl rfl rfl
    | false => exact reads_comparison (.comparison .equal) rfl rfl rfl

end Surroundings

namespace Phrase

variable (d : Dialect)

/-- The written form of a placeholder is the mark and the name. -/
@[simp] theorem toList_render_slot (name : String) (p : Phrase) :
    (render d.marker (.slot name :: p)).toList =
      d.mark :: (name.toList ++ (render d.marker p).toList) := by
  simp [render_cons, Piece.render, Dialect.toList_marker]

/-- The written form of a text is the text. -/
@[simp] theorem toList_render_text (s : String) (p : Phrase) :
    (render d.marker (.text s :: p)).toList = s.toList ++ (render d.marker p).toList := by
  simp [render_cons, Piece.render]

/-- The written forms of phrases in a row. -/
@[simp] theorem toList_render_append (p q : Phrase) :
    (render d.marker (p ++ q)).toList =
      (render d.marker p).toList ++ (render d.marker q).toList := by
  simp [render_append]

/-- Nothing is written for an empty phrase. -/
@[simp] theorem toList_render_nil : (render d.marker []).toList = [] := by
  simp [render]

/-- The written form of joined phrases. -/
@[simp] theorem toList_render_join (separator : String) (ps : List Phrase) :
    (render d.marker (join separator ps)).toList =
      separator.toList.intercalate (ps.map fun p => (render d.marker p).toList) := by
  induction ps with
  | nil => simp [join, render]
  | cons p rest ih =>
    cases rest with
    | nil => simp [join]
    | cons q rest =>
      rw [join_cons_cons, toList_render_append, toList_render_text, ih]
      simp [List.intercalate_cons_cons]

end Phrase

namespace Surroundings

open Phrase

variable {s : Surroundings}

/-- Surroundings whose texts are names: members are identifiers, columns are identifiers that are no
keywords, and the scope has characters of words only. -/
structure Readable (s : Surroundings) : Prop where
  name : ∀ m ∈ s.metadata.members, Text.isIdentifier m.name = true
  column : ∀ m ∈ s.metadata.members, IsColumnName m.column
  scope : ∀ c ∈ s.scope.toList, isWordChar c = true

/-- A column that is found is a name. -/
theorem Readable.column? (hs : s.Readable) {name c : String}
    (h : s.metadata.column? name = some c) : IsColumnName c := by
  obtain ⟨m, hmember, rfl⟩ := Metadata.column?_eq_some_iff.mp h
  exact hs.column m (Metadata.mem_of_member?_eq_some hmember)

/-- The parameters that are added have names. -/
theorem Readable.isParameterName (hs : s.Readable) {b b' : Binder} {ps : List Parameter}
    (h : s.Grows b ps b') : ∀ p ∈ ps, IsParameterName p.name := by
  intro p hp
  obtain ⟨member, m, k, hmember, hname⟩ := h.name_eq_candidate hp
  have hidentifier := Text.isIdentifier_of_sameName (Metadata.sameName_of_member?_eq_some hmember)
    (hs.name m (Metadata.mem_of_member?_eq_some hmember))
  rw [hname]
  cases k with
  | zero => exact .of_isIdentifier hidentifier hs.scope
  | succ k =>
    rw [Binder.candidate_succ, String.append_assoc]
    refine .of_isIdentifier hidentifier fun c hc => ?_
    simp only [String.toList_append, List.mem_append] at hc
    rcases hc with hc | hc | hc
    · exact hs.scope c hc
    · obtain rfl : c = '_' := by simpa using hc
      decide
    · have hdigit := Text.continuesName_of_isDigit (Text.isDigit_of_mem_toString hc)
      exact isWordChar_of_continuesName hdigit

/-- The written form of a comparison reads as its tokens. -/
theorem BindsComparison.spells {member : String} {op : Comparison} {v : Value}
    {ps : List Parameter} {b : BoundCondition} (hs : s.Readable)
    (hnames : ∀ p ∈ ps, IsParameterName p.name) (h : s.BindsComparison member op v ps b) :
    Spells s.dialect.mark (b.phrase.render s.dialect.marker).toList b.tokens := by
  have his := spellsFreely_keyword s.dialect .is
  have hnull := spells_keyword s.dialect .null
  cases h with
  | isNull hcolumn =>
    have hspells := (spells_column s.dialect (hs.column? hcolumn)).between his hnull
    simpa [BoundCondition.phrase, BoundCondition.tokens, Keyword.word] using hspells
  | isNotNull hcolumn =>
    have hnot := (spells_keyword s.dialect .not).blank hnull
    have hspells := (spells_column s.dialect (hs.column? hcolumn)).between his hnot
    simpa [BoundCondition.phrase, BoundCondition.tokens, Keyword.word] using hspells
  | slot hcolumn =>
    have hslot := spells_slot s.dialect (hnames _ List.mem_cons_self)
    have hspells := (spells_column s.dialect (hs.column? hcolumn)).between
      (spellsFreely_comparison s.dialect op) hslot
    simpa [BoundCondition.phrase, BoundCondition.tokens, BoundOperand.piece, BoundOperand.token,
      Parameter.bound] using hspells

/-- The written form of a condition reads as its tokens. -/
theorem Binds.spells {c : Condition} {ps : List Parameter} {b : BoundCondition}
    (hs : s.Readable) (hnames : ∀ p ∈ ps, IsParameterName p.name) (h : s.Binds c ps b) :
    Spells s.dialect.mark (b.phrase.render s.dialect.marker).toList b.tokens := by
  induction h with
  | and _ _ ihl ihr =>
    have hl := ihl fun p hp => hnames p (List.mem_append_left _ hp)
    have hr := ihr fun p hp => hnames p (List.mem_append_right _ hp)
    have hspells := (hl.between (spellsFreely_keyword s.dialect .and) hr).parenthesized
    simpa [BoundCondition.phrase, BoundCondition.tokens, Keyword.word] using hspells
  | or _ _ ihl ihr =>
    have hl := ihl fun p hp => hnames p (List.mem_append_left _ hp)
    have hr := ihr fun p hp => hnames p (List.mem_append_right _ hp)
    have hspells := (hl.between (spellsFreely_keyword s.dialect .or) hr).parenthesized
    simpa [BoundCondition.phrase, BoundCondition.tokens, Keyword.word] using hspells
  | not _ ih =>
    have hspells := ((spells_keyword s.dialect .not).blank (ih hnames)).parenthesized
    simpa [BoundCondition.phrase, BoundCondition.tokens, Keyword.word] using hspells
  | @members l r cl cr op hl hr =>
    have hspells := (spells_column s.dialect (hs.column? hl)).between
      (spellsFreely_comparison s.dialect op) (spells_column s.dialect (hs.column? hr))
    simpa [BoundCondition.phrase, BoundCondition.tokens, BoundOperand.piece, BoundOperand.token]
      using hspells
  | memberFirst h | valueFirst h => exact h.spells hs hnames
  -- A test for null is written as the comparison with null that becomes one.
  | isNull hcolumn => exact BindsComparison.spells hs hnames (.isNull hcolumn)
  | isNotNull hcolumn => exact BindsComparison.spells hs hnames (.isNotNull hcolumn)
  | like hcolumn =>
    have hslot := spells_slot s.dialect (hnames _ List.mem_cons_self)
    have hspells := (spells_column s.dialect (hs.column? hcolumn)).between
      (spellsFreely_keyword s.dialect .like) hslot
    simpa [BoundCondition.phrase, BoundCondition.tokens, Parameter.bound, Keyword.word]
      using hspells
  | @among _ c _ ps hcolumn =>
    have hitems : ∀ p ∈ ps.map (·.name), Spells s.dialect.mark (s.dialect.mark :: p.toList)
        [.parameter p] := by
      intro name hname
      obtain ⟨p, hp, rfl⟩ := List.mem_map.mp hname
      exact spells_slot s.dialect (hnames p hp)
    have hspells := (spells_column s.dialect (hs.column? hcolumn)).between
      (spellsFreely_keyword s.dialect .among) (spells_commaJoin hitems).parenthesized
    simpa [BoundCondition.phrase, BoundCondition.tokens, Keyword.word, Function.comp_def]
      using hspells
  | const holds =>
    have hone : Spells s.dialect.mark ['1'] [.number "1"] :=
      spells_word (by decide) (List.all_eq_true.mp (by decide)) (by decide +kernel)
    cases holds with
    | true =>
      have hspells := hone.append ((spellsFreely_equal s.dialect).append hone)
        (stops_cons (by decide) _)
      simpa [BoundCondition.phrase, BoundCondition.tokens] using hspells
    | false =>
      have hzero : Spells s.dialect.mark ['0'] [.number "0"] :=
        spells_word (by decide) (List.all_eq_true.mp (by decide)) (by decide +kernel)
      have hspells := hone.append ((spellsFreely_equal s.dialect).append hzero)
        (stops_cons (by decide) _)
      simpa [BoundCondition.phrase, BoundCondition.tokens] using hspells

/-- The written form of a right side reads as its tokens. -/
theorem BindsTerm.spells {member : String} {t : Term} {ps : List Parameter} {b : BoundTerm}
    (hs : s.Readable) (hnames : ∀ p ∈ ps, IsParameterName p.name) (h : s.BindsTerm member t ps b) :
    Spells s.dialect.mark (b.phrase.render s.dialect.marker).toList b.tokens := by
  induction h with
  | null => exact spells_keyword s.dialect .null
  | slot =>
    have hslot := spells_slot s.dialect (hnames _ List.mem_cons_self)
    simpa [BoundTerm.phrase, BoundTerm.tokens, Parameter.bound] using hslot
  | column hcolumn =>
    have hspells := spells_column s.dialect (hs.column? hcolumn)
    simpa [BoundTerm.phrase, BoundTerm.tokens] using hspells
  | @binary _ _ _ _ _ _ op _ _ ihl ihr =>
    have hl := ihl fun p hp => hnames p (List.mem_append_left _ hp)
    have hr := ihr fun p hp => hnames p (List.mem_append_right _ hp)
    have hspells := (hl.between (spellsFreely_arithmetic s.dialect op) hr).parenthesized
    simpa [BoundTerm.phrase, BoundTerm.tokens] using hspells

/-- The written form of each assignment reads as its tokens. -/
theorem BindsAssignments.spells {as : List Assignment} {ps : List Parameter}
    {bs : List BoundAssignment} (hs : s.Readable) (hnames : ∀ p ∈ ps, IsParameterName p.name)
    (h : s.BindsAssignments as ps bs) :
    ∀ a ∈ bs, Spells s.dialect.mark (a.phrase.render s.dialect.marker).toList a.tokens := by
  induction h with
  | nil => simp
  | @cons a _ m _ _ t _ hmember _ hterm _ ih =>
    have hcolumn := hs.column m (Metadata.mem_of_member?_eq_some hmember)
    have hright := hterm.spells hs fun p hp => hnames p (List.mem_append_left _ hp)
    have hspells := (spells_column s.dialect hcolumn).append
      ((spellsFreely_equal s.dialect).append hright) (stops_cons (by decide) _)
    refine List.forall_mem_cons.mpr ⟨?_, ih fun p hp => hnames p (List.mem_append_right _ hp)⟩
    simpa [BoundAssignment.phrase, BoundAssignment.tokens] using hspells

/-- The written form of a condition that was bound has one tree. -/
theorem Readable.condition (hs : s.Readable) {c : Condition} {b b' : Binder}
    {ps : List Parameter} {bound : BoundCondition} (hgrows : s.Grows b ps b')
    (h : s.Binds c ps bound) (t : Tree) :
    ReadsText s.dialect.mark (bound.phrase.render s.dialect.marker) t ↔ t = bound.tree := by
  have hlex := (h.spells hs (hs.isParameterName hgrows)).lex_eq
  have hreads : ReadsText s.dialect.mark (bound.phrase.render s.dialect.marker) bound.tree :=
    ⟨_, hlex, h.reads.loosen (by omega) (by omega)⟩
  constructor
  · intro ht
    exact ht.unique hreads
  · rintro rfl
    exact hreads

/-- The written form of assignments that were bound has one list of trees. -/
theorem Readable.assignments (hs : s.Readable) {as : List Assignment} {b b' : Binder}
    {ps : List Parameter} {bounds : List BoundAssignment} (hgrows : s.Grows b ps b')
    (hne : as ≠ []) (h : s.BindsAssignments as ps bounds) (ts : List (String × Tree)) :
    ReadsAssignmentsText s.dialect.mark ((BoundAssignment.list bounds).render s.dialect.marker) ts ↔
      ts = bounds.map BoundAssignment.tree := by
  have hbounds : bounds ≠ [] := by
    rintro rfl
    cases h
    exact hne rfl
  have hspells := h.spells hs (hs.isParameterName hgrows)
  have hlist : Spells s.dialect.mark
      ((BoundAssignment.list bounds).render s.dialect.marker).toList
      (commaJoin (bounds.map BoundAssignment.tokens)) := by
    have hjoin := spells_commaJoin hspells
    simpa [BoundAssignment.list, Function.comp_def] using hjoin
  have hreads : ReadsAssignmentsText s.dialect.mark
      ((BoundAssignment.list bounds).render s.dialect.marker)
      (bounds.map BoundAssignment.tree) :=
    ⟨_, hlist.lex_eq, BoundAssignment.reads_tokens hbounds⟩
  constructor
  · intro hts
    exact hts.unique hreads
  · rintro rfl
    exact hreads

end Surroundings

/-- What is written for a condition or for assignments reads back in one way: as the condition with
columns for members and the added parameters for values, and as the assignments in their order. -/
theorem bound_text_reads_back {s : Surroundings} (hs : s.Readable) :
    (∀ c b bound b', (s.bindCondition c).runFrom b = (.ok bound, b') →
      ∃ ps, b'.parameters = b.parameters ++ ps ∧ s.Binds c ps bound ∧
        ∀ t, ReadsText s.dialect.mark (bound.phrase.render s.dialect.marker) t ↔
          t = bound.tree) ∧
      ∀ as b bounds b', (s.bindAssignments as).runFrom b = (.ok bounds, b') →
        ∃ ps, b'.parameters = b.parameters ++ ps ∧ s.BindsAssignments as ps bounds ∧
          ∀ ts, ReadsAssignmentsText s.dialect.mark
            ((BoundAssignment.list bounds).render s.dialect.marker) ts ↔
              ts = bounds.map BoundAssignment.tree := by
  constructor
  · intro c b bound b' hrun
    obtain ⟨ps, hgrows, hbinds⟩ := s.bindCondition_adds c b
    rw [hrun] at hgrows hbinds
    have hbound := hbinds bound rfl
    exact ⟨ps, hgrows.parameters_eq, hbound, hs.condition hgrows hbound⟩
  · intro as b bounds b' hrun
    obtain ⟨ps, hgrows, hbinds⟩ := s.bindAssignments_adds as b
    rw [hrun] at hgrows hbinds
    obtain ⟨hne, hbounds⟩ := hbinds bounds rfl
    exact ⟨ps, hgrows.parameters_eq, hbounds, hs.assignments hgrows hne hbounds⟩

/-- Surroundings for examples, with a key and one other member. -/
def Surroundings.parts : Surroundings :=
  ⟨⟨"Part", "PARTS", [⟨"id", "ID", .key, .required .int64⟩,
    ⟨"size", "WIDTH", .column, .optional .int64⟩]⟩, .sqlite, "_1"⟩

/-- The size is found by its name in another case. -/
theorem Surroundings.column_parts_size : parts.column "Size" = .ok "WIDTH" := by
  have hfold : Text.foldCase "Size" = "size" := by decide +kernel
  have hsmall : Text.foldCase "size" = "size" := by decide +kernel
  have hsame := Text.sameName_eq_true_iff.mpr (hsmall.trans hfold.symm)
  have hother : Text.sameName "id" "Size" = false := by decide +kernel
  have hmember : parts.metadata.member? "Size" =
      some ⟨"size", "WIDTH", .column, .optional .int64⟩ := by
    simp [parts, Metadata.member?, hsame, hother]
  rw [column, Metadata.lookup, hmember]
  rfl

/-- A result that was computed is the result of a run. -/
private theorem exists_run_of_toOption {α : Type} {x : BindM α} {b : Binder} {a : α}
    (h : (x.runFrom b).1.toOption = some a) : ∃ b', x.runFrom b = (.ok a, b') := by
  rcases hrun : x.runFrom b with ⟨e | a', b'⟩
  · rw [hrun] at h
    cases h
  · rw [hrun] at h
    cases h
    exact ⟨b', rfl⟩

/-- A value on the left, a null and a nested product read back as they should. -/
theorem bound_text_reads_back_parts :
    (∀ t, ReadsText '@' "((NOT WIDTH > @Size_1) OR ID IS NOT NULL)" t ↔
      t = .binary
        (.not (.binary (.column "WIDTH") (.comparison .greater) (.parameter "Size_1"))) .or
        (.isNotNull (.column "ID"))) ∧
      ∀ ts, ReadsAssignmentsText '@' "WIDTH=(WIDTH * (@size_1 + ID))" ts ↔
        ts = [("WIDTH", .binary (.column "WIDTH") (.arithmetic .mul)
          (.binary (.parameter "size_1") (.arithmetic .add) (.column "ID")))] := by
  have hcolumn (s : String) (hs : s = "ID" ∨ s = "WIDTH") : IsColumnName s := by
    rcases hs with rfl | rfl
    · exact ⟨⟨'I', _, rfl, by decide⟩, List.all_eq_true.mp (by decide), by decide +kernel⟩
    · exact ⟨⟨'W', _, rfl, by decide⟩, List.all_eq_true.mp (by decide), by decide +kernel⟩
  have hs : Surroundings.parts.Readable := by
    refine ⟨List.all_eq_true.mp (by decide +kernel), ?_, List.all_eq_true.mp (by decide)⟩
    simp only [Surroundings.parts, List.forall_mem_cons]
    exact ⟨hcolumn _ (Or.inl rfl), hcolumn _ (Or.inr rfl), by simp⟩
  obtain ⟨hcondition, hassignments⟩ := bound_text_reads_back hs
  constructor
  · let c := Condition.or (.not (.compare (.value (.int64 1)) .less (.member "Size")))
      (.compare (.member "id") .notEqual (.value .null))
    let bound := BoundCondition.or (.not (.compare "WIDTH" .greater (.slot "Size_1")))
      (.isNotNull "ID")
    have hresult :
        ((Surroundings.parts.bindCondition c).runFrom (.avoiding [])).1.toOption = some bound := by
      simp only [c, Surroundings.bindCondition, Surroundings.bindComparison,
        Surroundings.column_parts_size]
      decide +kernel
    obtain ⟨b', hrun⟩ := exists_run_of_toOption hresult
    obtain ⟨_, -, -, hreads⟩ := hcondition c _ bound b' hrun
    have htext : bound.phrase.render Surroundings.parts.dialect.marker =
        "((NOT WIDTH > @Size_1) OR ID IS NOT NULL)" := by decide +kernel
    rw [htext] at hreads
    exact hreads
  · let as := [Assignment.mk "size"
      (.binary (.member "size") .mul (.binary (.value (.int64 1)) .add (.member "id")))]
    let bounds := [BoundAssignment.mk "WIDTH"
      (.binary (.column "WIDTH") .mul (.binary (.slot "size_1") .add (.column "ID")))]
    obtain ⟨b', hrun⟩ := exists_run_of_toOption
      (x := Surroundings.parts.bindAssignments as) (b := .avoiding []) (a := bounds)
      (by decide +kernel)
    obtain ⟨_, -, -, hreads⟩ := hassignments as _ bounds b' hrun
    have htext : (BoundAssignment.list bounds).render Surroundings.parts.dialect.marker =
        "WIDTH=(WIDTH * (@size_1 + ID))" := by decide +kernel
    rw [htext] at hreads
    exact hreads

end EntitySql
