import EntitySql.Proofs.Query.Growth
import Mathlib.Data.List.Forall2

/-!
# The bound form of expressions

`Binds` says which bound condition stands for a condition and which parameters its
values become, one rule for each form of a condition. Binding gives nothing else:
whatever the binder, a condition that is bound stands in this relation to its result.
-/

namespace EntitySql

namespace Metadata

variable {d : Metadata} {name : String} {m : Member}

/-- The member of a name is one of the members. -/
theorem mem_of_member?_eq_some (h : d.member? name = some m) : m ∈ d.members := by
  unfold member? at h
  rcases Option.or_eq_some_iff.mp h with h | ⟨_, h⟩ <;> exact List.mem_of_find?_eq_some h

/-- The member of a name has that name, whatever the case of its letters. -/
theorem sameName_of_member?_eq_some (h : d.member? name = some m) :
    Text.sameName m.name name = true := by
  unfold member? at h
  rcases Option.or_eq_some_iff.mp h with h | ⟨_, h⟩
  · have heq : m.name = name := by simpa using List.find?_some h
    rw [heq]
    exact Text.sameName_refl name
  · simpa using List.find?_some h

/-- The name of every member is found. -/
theorem exists_member?_eq_some (h : m ∈ d.members) : ∃ m', d.member? m.name = some m' := by
  rw [← Option.isSome_iff_exists, member?, Option.isSome_or, Bool.or_eq_true]
  exact Or.inl (List.find?_isSome.mpr ⟨m, h, by simp⟩)

/-- A name that a member has is the name of a member. -/
theorem exists_member?_of_sameName (hm : m ∈ d.members) (h : Text.sameName m.name name = true) :
    ∃ f, d.member? name = some f := by
  rw [member?]
  cases d.members.find? (·.name == name) with
  | some f => exact ⟨f, rfl⟩
  | none => exact Option.isSome_iff_exists.mp (List.find?_isSome.mpr ⟨m, hm, h⟩)

/-- A text that no member is named by is the name of no member. -/
theorem member?_eq_none_iff :
    d.member? name = none ↔ ∀ g ∈ d.members, Text.sameName g.name name = false := by
  constructor
  · intro h g hg
    by_contra hsame
    obtain ⟨f, hf⟩ := exists_member?_of_sameName hg (by simpa using hsame)
    rw [hf] at h
    cases h
  · intro h
    cases hf : d.member? name with
    | none => rfl
    | some f =>
      have hsame := sameName_of_member?_eq_some hf
      rw [h f (mem_of_member?_eq_some hf)] at hsame
      cases hsame

/-- Looking up a name gives its member. -/
theorem lookup_eq_ok_iff : d.lookup name = .ok m ↔ d.member? name = some m := by
  unfold lookup
  split <;> simp_all

/-- The column of a name is the column of its member. -/
theorem column?_eq_some_iff {c : String} :
    d.column? name = some c ↔ ∃ m, d.member? name = some m ∧ m.column = c := by
  simp [column?]

end Metadata

namespace Surroundings

variable {s : Surroundings}

/-- A column is looked up in the metadata. -/
theorem column_eq_ok_iff {name c : String} :
    s.column name = .ok c ↔ s.metadata.column? name = some c := by
  unfold column Metadata.column? Metadata.lookup
  cases s.metadata.member? name <;> simp [Except.map]

/-- The comparison of a member with a value: null is equal or not equal and needs no parameter,
every value that is no list becomes one. -/
inductive BindsComparison (s : Surroundings) (member : String) :
    Comparison → Value → List Parameter → BoundCondition → Prop
  | isNull {c : String} (hcolumn : s.metadata.column? member = some c) :
      s.BindsComparison member .equal .null [] (.isNull c)
  | isNotNull {c : String} (hcolumn : s.metadata.column? member = some c) :
      s.BindsComparison member .notEqual .null [] (.isNotNull c)
  | slot {c name : String} {op : Comparison} {v : Value}
      (hcolumn : s.metadata.column? member = some c) (hnull : v.isNull = false)
      (hlist : v.isList = false) :
      s.BindsComparison member op v [Parameter.bound s.dialect name v] (.compare c op (.slot name))

/-- A condition, the parameters that its values become from left to right, and its bound form:
members are replaced by their columns and values by the names of their parameters. A value that
stands first changes sides, which turns the comparison around. -/
inductive Binds (s : Surroundings) : Condition → List Parameter → BoundCondition → Prop
  | and {l r : Condition} {ps qs : List Parameter} {bl br : BoundCondition}
      (hl : s.Binds l ps bl) (hr : s.Binds r qs br) : s.Binds (.and l r) (ps ++ qs) (.and bl br)
  | or {l r : Condition} {ps qs : List Parameter} {bl br : BoundCondition}
      (hl : s.Binds l ps bl) (hr : s.Binds r qs br) : s.Binds (.or l r) (ps ++ qs) (.or bl br)
  | not {c : Condition} {ps : List Parameter} {b : BoundCondition} (h : s.Binds c ps b) :
      s.Binds (.not c) ps (.not b)
  | members {l r cl cr : String} {op : Comparison} (hl : s.metadata.column? l = some cl)
      (hr : s.metadata.column? r = some cr) :
      s.Binds (.compare (.member l) op (.member r)) [] (.compare cl op (.column cr))
  | memberFirst {member : String} {op : Comparison} {v : Value} {ps : List Parameter}
      {b : BoundCondition} (h : s.BindsComparison member op v ps b) :
      s.Binds (.compare (.member member) op (.value v)) ps b
  | valueFirst {member : String} {op : Comparison} {v : Value} {ps : List Parameter}
      {b : BoundCondition} (h : s.BindsComparison member op.flipped v ps b) :
      s.Binds (.compare (.value v) op (.member member)) ps b
  | isNull {member c : String} (hcolumn : s.metadata.column? member = some c) :
      s.Binds (.isNull member) [] (.isNull c)
  | isNotNull {member c : String} (hcolumn : s.metadata.column? member = some c) :
      s.Binds (.isNotNull member) [] (.isNotNull c)
  | like {member c name text : String} {place : Placement} {v : Value}
      (hcolumn : s.metadata.column? member = some c) (htext : patternText? v = some text) :
      s.Binds (.like member place v)
        [Parameter.bound s.dialect name (.string (place.pattern text))] (.like c name)
  | among {member c : String} {vs : List Value} {ps : List Parameter}
      (hcolumn : s.metadata.column? member = some c) (hvalues : vs ≠ [])
      (hparameters : List.Forall₂
        (fun p v => v.isList = false ∧ p = Parameter.bound s.dialect p.name v) ps vs) :
      s.Binds (.among member (.list vs)) ps (.among c (ps.map (·.name)))
  | const (holds : Bool) : s.Binds (.const holds) [] (.const holds)

/-- The right side of an assignment to a member, its parameters and its bound form. -/
inductive BindsTerm (s : Surroundings) (member : String) :
    Term → List Parameter → BoundTerm → Prop
  | null : s.BindsTerm member (.value .null) [] .null
  | slot {name : String} {v : Value} (hnull : v.isNull = false) (hlist : v.isList = false) :
      s.BindsTerm member (.value v) [Parameter.bound s.dialect name v] (.slot name)
  | column {other c : String} (hcolumn : s.metadata.column? other = some c) :
      s.BindsTerm member (.member other) [] (.column c)
  | binary {l r : Term} {ps qs : List Parameter} {bl br : BoundTerm} {op : Arithmetic}
      (hl : s.BindsTerm member l ps bl) (hr : s.BindsTerm member r qs br) :
      s.BindsTerm member (.binary l op r) (ps ++ qs) (.binary bl op br)

/-- Assignments to members that are not computed, their parameters and their bound forms. -/
inductive BindsAssignments (s : Surroundings) :
    List Assignment → List Parameter → List BoundAssignment → Prop
  | nil : s.BindsAssignments [] [] []
  | cons {a : Assignment} {as : List Assignment} {m : Member} {ps qs : List Parameter}
      {t : BoundTerm} {bs : List BoundAssignment} (hmember : s.metadata.member? a.member = some m)
      (hpersisted : m.kind.isPersisted = true) (hterm : s.BindsTerm m.name a.term ps t)
      (hrest : s.BindsAssignments as qs bs) :
      s.BindsAssignments (a :: as) (ps ++ qs) (⟨m.column, t⟩ :: bs)

/-- Looking up a column and going on is going on with the column of the metadata. -/
private theorem adds_column {α : Type} {related : List Parameter → α → Prop} {member : String}
    {f : String → BindM α}
    (h : ∀ c, s.metadata.column? member = some c → s.Adds (f c) related) :
    s.Adds (liftM (s.column member) >>= f) related := by
  have hcolumn : s.Adds (liftM (s.column member)) fun ps c =>
      ps = [] ∧ s.metadata.column? member = some c :=
    adds_lift fun c hc => ⟨rfl, column_eq_ok_iff.mp hc⟩
  refine adds_bind hcolumn ?_
  rintro _ c ⟨rfl, hc⟩
  exact h c hc

private theorem adds_slot {α : Type} {related : List Parameter → α → Prop} {member c : String}
    {v : Value} {f : String → α} (hcolumn : s.metadata.column? member = some c)
    (hlist : v.isList = false)
    (h : ∀ name, related [Parameter.bound s.dialect name v] (f name)) :
    s.Adds (s.bindValue member v >>= fun name => pure (f name)) related := by
  obtain ⟨m, hmember, -⟩ := Metadata.column?_eq_some_iff.mp hcolumn
  have hvalue : s.Adds (s.bindValue member v) fun ps name =>
      ps = [Parameter.bound s.dialect name v] := adds_bindValue hmember hlist fun _ => rfl
  refine adds_bind hvalue ?_
  rintro _ name rfl
  exact adds_pure (by simpa using h name)

/-- Binding the comparison of a member with a value gives its bound form. -/
theorem bindComparison_adds (s : Surroundings) (member : String) (op : Comparison) (v : Value) :
    s.Adds (s.bindComparison member op v) (s.BindsComparison member op v) := by
  unfold bindComparison
  refine adds_column fun c hcolumn => ?_
  split
  · split
    · exact adds_pure (.isNull hcolumn)
    · exact adds_pure (.isNotNull hcolumn)
    · exact adds_throw
  · exact adds_throw
  · rename_i hnull hlist
    have hv : v.isNull = false ∧ v.isList = false := by
      cases v <;> simp_all [Value.isNull, Value.isList]
    exact adds_slot hcolumn hv.2 fun name => .slot hcolumn hv.1 hv.2

/-- Binding values gives each of them a parameter, and their names in order. -/
theorem bindValues_adds {member : String} {m : Member}
    (hmember : s.metadata.member? member = some m) (vs : List Value) :
    s.Adds (s.bindValues member vs) fun ps names =>
      names = ps.map (·.name) ∧ List.Forall₂
        (fun p v => v.isList = false ∧ p = Parameter.bound s.dialect p.name v) ps vs := by
  induction vs with
  | nil => exact adds_pure ⟨rfl, .nil⟩
  | cons v vs ih =>
    unfold bindValues
    cases hlist : v.isList with
    | true => exact adds_throw
    | false =>
      have hvalue : s.Adds (s.bindValue member v) fun ps name =>
          ps = [Parameter.bound s.dialect name v] := adds_bindValue hmember hlist fun _ => rfl
      refine adds_bind hvalue ?_
      rintro _ name rfl
      refine adds_bind ih ?_
      rintro ps names ⟨rfl, hps⟩
      refine adds_pure ⟨by simp [Parameter.bound], ?_⟩
      simpa using List.Forall₂.cons ⟨hlist, rfl⟩ hps

/-- Binding a condition gives its bound form. -/
theorem bindCondition_adds (s : Surroundings) (c : Condition) :
    s.Adds (s.bindCondition c) (s.Binds c) := by
  induction c with
  | and l r ihl ihr =>
    refine adds_bind ihl fun ps bl hl => adds_bind ihr fun qs br hr => adds_pure ?_
    simpa using Binds.and hl hr
  | or l r ihl ihr =>
    refine adds_bind ihl fun ps bl hl => adds_bind ihr fun qs br hr => adds_pure ?_
    simpa using Binds.or hl hr
  | not c ih =>
    refine adds_bind ih fun ps b hb => adds_pure ?_
    simpa using Binds.not hb
  | compare l op r =>
    cases l with
    | member l =>
      cases r with
      | member r =>
        exact adds_column fun cl hl => adds_column fun cr hr => adds_pure (.members hl hr)
      | value v =>
        intro b
        obtain ⟨ps, hgrows, hform⟩ := bindComparison_adds s l op v b
        exact ⟨ps, hgrows, fun bound hbound => .memberFirst (hform bound hbound)⟩
    | value v =>
      cases r with
      | member r =>
        intro b
        obtain ⟨ps, hgrows, hform⟩ := bindComparison_adds s r op.flipped v b
        exact ⟨ps, hgrows, fun bound hbound => .valueFirst (hform bound hbound)⟩
      | value w => exact adds_throw
  | isNull member => exact adds_column fun c hcolumn => adds_pure (.isNull hcolumn)
  | isNotNull member => exact adds_column fun c hcolumn => adds_pure (.isNotNull hcolumn)
  | like member place v =>
    refine adds_column fun c hcolumn => ?_
    cases htext : patternText? v with
    | none => exact adds_throw
    | some text => exact adds_slot hcolumn rfl fun name => .like hcolumn htext
  | among member v =>
    refine adds_column fun c hcolumn => ?_
    obtain ⟨m, hmember, -⟩ := Metadata.column?_eq_some_iff.mp hcolumn
    cases v with
    | list vs =>
      cases vs with
      | nil => exact adds_throw
      | cons v vs =>
        refine adds_bind (bindValues_adds hmember (v :: vs)) ?_
        rintro ps _ ⟨rfl, hps⟩
        refine adds_pure ?_
        simpa using Binds.among hcolumn (List.cons_ne_nil v vs) hps
    | _ => exact adds_throw
  | const holds => exact adds_pure (.const holds)

/-- Binding the right side of an assignment to a declared member gives its bound form. -/
theorem bindTerm_adds {m : Member} (hm : m ∈ s.metadata.members) (t : Term) :
    s.Adds (s.bindTerm m.name t) (s.BindsTerm m.name t) := by
  induction t with
  | value v =>
    obtain ⟨m', hmember⟩ := Metadata.exists_member?_eq_some hm
    cases v with
    | null => exact adds_pure .null
    | list vs => exact adds_throw
    | _ =>
      refine adds_slot (Metadata.column?_eq_some_iff.mpr ⟨m', hmember, rfl⟩) rfl fun name => ?_
      exact .slot rfl rfl
  | member other => exact adds_column fun c hcolumn => adds_pure (.column hcolumn)
  | binary l op r ihl ihr =>
    refine adds_bind ihl fun ps bl hl => adds_bind ihr fun qs br hr => adds_pure ?_
    simpa using BindsTerm.binary hl hr

/-- Binding assignments gives their bound forms, at least one. -/
theorem bindAssignments_adds (s : Surroundings) (as : List Assignment) :
    s.Adds (s.bindAssignments as) fun ps bs => as ≠ [] ∧ s.BindsAssignments as ps bs := by
  have hone (a : Assignment) : s.Adds (s.bindAssignment a) fun ps b =>
      ∃ m t, s.metadata.member? a.member = some m ∧ m.kind.isPersisted = true ∧
        b = ⟨m.column, t⟩ ∧ s.BindsTerm m.name a.term ps t := by
    have hlookup : s.Adds (liftM (s.metadata.lookup a.member)) fun ps m =>
        ps = [] ∧ s.metadata.member? a.member = some m :=
      adds_lift fun m hm => ⟨rfl, Metadata.lookup_eq_ok_iff.mp hm⟩
    unfold bindAssignment
    refine adds_bind hlookup ?_
    rintro _ m ⟨rfl, hmember⟩
    cases hpersisted : m.kind.isPersisted with
    | false => exact adds_throw
    | true =>
      refine adds_bind (bindTerm_adds (Metadata.mem_of_member?_eq_some hmember) a.term) ?_
      intro ps t ht
      exact adds_pure ⟨m, t, hmember, hpersisted, rfl, by simpa using ht⟩
  have hall (as : List Assignment) : s.Adds (as.mapM s.bindAssignment) (s.BindsAssignments as) := by
    induction as with
    | nil => exact adds_pure .nil
    | cons a as ih =>
      rw [List.mapM_cons]
      refine adds_bind (hone a) ?_
      rintro ps _ ⟨m, t, hmember, hpersisted, rfl, ht⟩
      refine adds_bind ih fun qs bs hbs => adds_pure ?_
      simpa using BindsAssignments.cons hmember hpersisted ht hbs
  unfold bindAssignments
  cases as with
  | nil => exact adds_throw
  | cons a as =>
    intro b
    obtain ⟨ps, hgrows, hform⟩ := hall (a :: as) b
    exact ⟨ps, hgrows, fun bs hbs => ⟨List.cons_ne_nil a as, by simpa using hform bs hbs⟩⟩

end Surroundings

end EntitySql
