import EntitySql.Proofs.Query.BoundForm
import EntitySql.Proofs.Sql.Placeholder

/-!
# Phrases of bound expressions

The placeholders of a bound expression stand in the order in which its values were
bound, and its written form is clean as soon as its columns and the names of its
parameters are.
-/

namespace EntitySql

namespace Phrase

variable {d : Dialect} {p q : Phrase}

/-- Two clean phrases in parentheses, with a text between them, are clean. -/
theorem Clean.parenthesized {before between : String} {c : Char} {cs : List Char}
    (hp : p.Clean d) (hq : q.Clean d) (hbefore : d.IsPlainText before)
    (hbetween : d.IsPlainText between) (hs : between.toList = c :: cs)
    (hc : Text.continuesName c = false) :
    Clean d (.text before :: (p ++ .text between :: (q ++ [.text ")"]))) := by
  have hclose : Clean d [.text ")"] := .text (.of_all (by decide)) .nil
  have hright := hq.append hclose (closes_text rfl (by decide) _)
  exact .text hbefore (hp.append (.text hbetween hright) (closes_text hs hc _))

end Phrase

namespace Surroundings

open Phrase

variable {s : Surroundings}

/-- The placeholder of a comparison is that of its value. -/
theorem BindsComparison.slots_phrase {member : String} {op : Comparison} {v : Value}
    {ps : List Parameter} {b : BoundCondition} (h : s.BindsComparison member op v ps b) :
    b.phrase.slots = ps.map (·.name) := by
  cases h <;> rfl

/-- The placeholders of a condition are those of its values from left to right. -/
theorem Binds.slots_phrase {c : Condition} {ps : List Parameter} {b : BoundCondition}
    (h : s.Binds c ps b) : b.phrase.slots = ps.map (·.name) := by
  induction h with
  | and _ _ ihl ihr | or _ _ ihl ihr =>
    simp [BoundCondition.phrase, slots_append, ihl, ihr]
  | not _ ih => simp [BoundCondition.phrase, slots_append, ih]
  | memberFirst h | valueFirst h => exact h.slots_phrase
  | among =>
    rw [BoundCondition.phrase, slots_text, slots_append, slots_join_slots]
    exact List.append_nil _
  | const holds => cases holds <;> rfl
  | _ => rfl

/-- The placeholders of a right side are those of its values from left to right. -/
theorem BindsTerm.slots_phrase {member : String} {t : Term} {ps : List Parameter} {b : BoundTerm}
    (h : s.BindsTerm member t ps b) : b.phrase.slots = ps.map (·.name) := by
  induction h with
  | binary _ _ ihl ihr => simp [BoundTerm.phrase, slots_append, ihl, ihr]
  | _ => rfl

/-- The placeholders of assignments are those of their values in order. -/
theorem BindsAssignments.slots_list {as : List Assignment} {ps : List Parameter}
    {bs : List BoundAssignment} (h : s.BindsAssignments as ps bs) :
    (BoundAssignment.list bs).slots = ps.map (·.name) := by
  rw [BoundAssignment.list, slots_join, List.flatMap_map]
  induction h with
  | nil => rfl
  | cons _ _ hterm _ ih =>
    rw [List.flatMap_cons, BoundAssignment.phrase, slots_text, hterm.slots_phrase, ih,
      List.map_append]

/-- A comparison with a clean column and parameter is clean. -/
theorem BindsComparison.clean {member : String} {op : Comparison} {v : Value}
    {ps : List Parameter} {b : BoundCondition}
    (hcolumns : ∀ name c, s.metadata.column? name = some c → s.dialect.IsPlainText c)
    (hnames : ∀ p ∈ ps, Text.isIdentifier p.name = true) (h : s.BindsComparison member op v ps b) :
    b.phrase.Clean s.dialect := by
  cases h with
  | isNull hcolumn | isNotNull hcolumn =>
    exact .text ((hcolumns _ _ hcolumn).append (.of_all (by decide))) .nil
  | slot hcolumn =>
    have hsymbol : s.dialect.IsPlainText op.symbol := .of_all (by cases op <;> decide)
    have hspace : s.dialect.IsPlainText " " := .of_all (by decide)
    exact .text ((((hcolumns _ _ hcolumn).append hspace).append hsymbol).append hspace)
      (clean_slot (hnames _ List.mem_cons_self))

/-- A condition with clean columns and parameters is clean. -/
theorem Binds.clean {c : Condition} {ps : List Parameter} {b : BoundCondition}
    (hcolumns : ∀ name c, s.metadata.column? name = some c → s.dialect.IsPlainText c)
    (hnames : ∀ p ∈ ps, Text.isIdentifier p.name = true) (h : s.Binds c ps b) :
    b.phrase.Clean s.dialect := by
  have hclose : Clean s.dialect [.text ")"] := .text (.of_all (by decide)) .nil
  induction h with
  | and _ _ ihl ihr | or _ _ ihl ihr =>
    have hl := ihl fun p hp => hnames p (List.mem_append_left _ hp)
    have hr := ihr fun p hp => hnames p (List.mem_append_right _ hp)
    refine hl.parenthesized hr (.of_all ?_) (.of_all ?_) rfl ?_ <;> decide
  | not _ ih =>
    exact .text (.of_all (by decide))
      ((ih hnames).append hclose (closes_text rfl (by decide) _))
  | @members l r cl cr op hl hr =>
    have hsymbol : s.dialect.IsPlainText op.symbol := .of_all (by cases op <;> decide)
    have hspace : s.dialect.IsPlainText " " := .of_all (by decide)
    exact .text ((((hcolumns _ _ hl).append hspace).append hsymbol).append hspace)
      (.text (hcolumns _ _ hr) .nil)
  | memberFirst h | valueFirst h => exact h.clean hcolumns hnames
  | isNull hcolumn | isNotNull hcolumn =>
    exact .text ((hcolumns _ _ hcolumn).append (.of_all (by decide))) .nil
  | like hcolumn =>
    exact .text ((hcolumns _ _ hcolumn).append (.of_all (by decide)))
      (clean_slot (hnames _ List.mem_cons_self))
  | @among _ c _ ps hcolumn =>
    have hall : ∀ name ∈ ps.map (·.name), Text.isIdentifier name = true := by
      simpa using hnames
    have hjoin : Clean s.dialect (join ", " ((ps.map (·.name)).map fun name => [.slot name])) :=
      clean_join_slots (.of_all (by decide)) rfl (by decide) hall
    exact .text ((hcolumns _ _ hcolumn).append (.of_all (by decide)))
      (hjoin.append hclose (closes_text rfl (by decide) _))
  | const holds =>
    cases holds with
    | true => exact .text (.of_all (by decide)) .nil
    | false => exact .text (.of_all (by decide)) .nil

/-- A right side with clean columns and parameters is clean. -/
theorem BindsTerm.clean {member : String} {t : Term} {ps : List Parameter} {b : BoundTerm}
    (hcolumns : ∀ name c, s.metadata.column? name = some c → s.dialect.IsPlainText c)
    (hnames : ∀ p ∈ ps, Text.isIdentifier p.name = true) (h : s.BindsTerm member t ps b) :
    b.phrase.Clean s.dialect := by
  induction h with
  | null => exact .text (.of_all (by decide)) .nil
  | slot => exact clean_slot (hnames _ List.mem_cons_self)
  | column hcolumn => exact .text (hcolumns _ _ hcolumn) .nil
  | @binary _ _ _ _ _ _ op _ _ ihl ihr =>
    have hl := ihl fun p hp => hnames p (List.mem_append_left _ hp)
    have hr := ihr fun p hp => hnames p (List.mem_append_right _ hp)
    have hop : s.dialect.IsPlainText (" " ++ op.symbol ++ " ") := .of_all (by cases op <;> decide)
    have hstart : (" " ++ op.symbol ++ " ").toList = ' ' :: (op.symbol ++ " ").toList := by simp
    exact hl.parenthesized hr (.of_all (by decide)) hop hstart (by decide)

/-- Assignments with clean columns and parameters are clean. -/
theorem BindsAssignments.clean {as : List Assignment} {ps : List Parameter}
    {bs : List BoundAssignment}
    (hcolumns : ∀ name c, s.metadata.column? name = some c → s.dialect.IsPlainText c)
    (hnames : ∀ p ∈ ps, Text.isIdentifier p.name = true) (h : s.BindsAssignments as ps bs) :
    (BoundAssignment.list bs).Clean s.dialect := by
  refine clean_join (.of_all (by decide)) rfl (by decide) ?_
  induction h with
  | nil => simp
  | @cons _ _ m ps qs _ bs hmember _ hterm _ ih =>
    have hcolumn := hcolumns _ _ (Metadata.column?_eq_some_iff.mpr ⟨m, hmember, rfl⟩)
    have hrest := ih fun p hp => hnames p (List.mem_append_right _ hp)
    rw [List.map_cons]
    refine List.forall_mem_cons.mpr ⟨?_, hrest⟩
    exact .text (hcolumn.append (.of_all (by decide)))
      (hterm.clean hcolumns fun p hp => hnames p (List.mem_append_left _ hp))

end Surroundings

end EntitySql
