import EntitySql.Proofs.Fallible
import EntitySql.Proofs.Query.Growth

/-!
# Shapes of expressions

Two expressions have one shape when they differ in values only, and only so that nulls
stand against nulls and lists against lists. Whether binding succeeds, what is written
and how the parameters are named depends on the shape alone.
-/

namespace EntitySql

/-- Two values that are both null, both lists, or both neither. -/
inductive Value.SameKind : Value → Value → Prop
  | null : SameKind .null .null
  | list (vs ws : List Value) : SameKind (.list vs) (.list ws)
  | scalar {v w : Value} (hv : v.isNull = false ∧ v.isList = false)
      (hw : w.isNull = false ∧ w.isList = false) : SameKind v w

/-- Two values for a membership test: lists of one length in which lists stand against lists, or
no lists at all. -/
inductive Value.SameItems : Value → Value → Prop
  | list {vs ws : List Value} (h : List.Forall₂ (fun v w => v.isList = w.isList) vs ws) :
      SameItems (.list vs) (.list ws)
  | other {v w : Value} (hv : v.isList = false) (hw : w.isList = false) : SameItems v w

/-- Two operands of one shape. -/
inductive Operand.SameShape : Operand → Operand → Prop
  | member (name : String) : SameShape (.member name) (.member name)
  | value {v w : Value} (h : v.SameKind w) : SameShape (.value v) (.value w)

/-- Two conditions of one shape: the same tree over the same members, with values of one kind. -/
inductive Condition.SameShape : Condition → Condition → Prop
  | and {l r l' r' : Condition} (hl : l.SameShape l') (hr : r.SameShape r') :
      SameShape (.and l r) (.and l' r')
  | or {l r l' r' : Condition} (hl : l.SameShape l') (hr : r.SameShape r') :
      SameShape (.or l r) (.or l' r')
  | not {c c' : Condition} (h : c.SameShape c') : SameShape (.not c) (.not c')
  | compare {l r l' r' : Operand} (hl : l.SameShape l') (op : Comparison) (hr : r.SameShape r') :
      SameShape (.compare l op r) (.compare l' op r')
  | isNull (member : String) : SameShape (.isNull member) (.isNull member)
  | isNotNull (member : String) : SameShape (.isNotNull member) (.isNotNull member)
  | like {v w : Value} (member : String) (place : Placement) (h : v.SameKind w) :
      SameShape (.like member place v) (.like member place w)
  | among {v w : Value} (member : String) (h : v.SameItems w) :
      SameShape (.among member v) (.among member w)
  | const (holds : Bool) : SameShape (.const holds) (.const holds)

/-- Two right sides of assignments of one shape. -/
inductive Term.SameShape : Term → Term → Prop
  | value {v w : Value} (h : v.SameKind w) : SameShape (.value v) (.value w)
  | member (name : String) : SameShape (.member name) (.member name)
  | binary {l r l' r' : Term} (hl : l.SameShape l') (op : Arithmetic) (hr : r.SameShape r') :
      SameShape (.binary l op r) (.binary l' op r')

/-- Two assignments of one shape to one member. -/
structure Assignment.SameShape (a a' : Assignment) : Prop where
  member_eq : a.member = a'.member
  term : a.term.SameShape a'.term

/-- Two binders that differ in the values of their parameters only. -/
structure Binder.Alike (b b' : Binder) : Prop where
  taken_eq : b.taken = b'.taken
  names_eq : b.parameters.map (·.name) = b'.parameters.map (·.name)

/-- A binder is alike to itself. -/
theorem Binder.Alike.refl (b : Binder) : b.Alike b :=
  ⟨rfl, rfl⟩

/-- From binders that are alike, two bindings have the same result, or both fail, and leave binders
that are alike. -/
def BindM.Alike {α : Type} (x y : BindM α) : Prop :=
  ∀ b b' : Binder, b.Alike b' →
    Agree Eq (x.runFrom b).1 (y.runFrom b').1 ∧ (x.runFrom b).2.Alike (y.runFrom b').2

namespace BindM

variable {α β : Type}

/-- The same result. -/
theorem alike_pure (a : α) : Alike (pure a) (pure a) :=
  fun _ _ h => ⟨.ok rfl, h⟩

/-- Two faults. -/
theorem alike_throw (e e' : Fault) : Alike (throw e : BindM α) (throw e') :=
  fun _ _ h => ⟨.error e e', h⟩

/-- The same look-up. -/
theorem alike_lift (r : Except Fault α) : Alike (liftM r) (liftM r) :=
  fun _ _ h => ⟨.refl r, h⟩

/-- The names of parameters do not depend on their values. -/
theorem alike_bindValue (s : Surroundings) (member : String) (v w : Value) :
    Alike (s.bindValue member v) (s.bindValue member w) := by
  intro b b' h
  have hname : (Binder.add s member v b).1 = (Binder.add s member w b').1 := by
    simp only [Binder.add, h.taken_eq]
  refine ⟨.ok hname, ?_, ?_⟩
  · show (Binder.add s member v b).2.taken = (Binder.add s member w b').2.taken
    simp only [Binder.add, h.taken_eq]
  · show (Binder.add s member v b).2.parameters.map (·.name) =
      (Binder.add s member w b').2.parameters.map (·.name)
    simp only [Binder.add, List.map_append, h.names_eq, h.taken_eq, Parameter.bound,
      List.map_cons, List.map_nil]

/-- Two bindings in a row. -/
theorem alike_bind {x y : BindM α} {f g : α → BindM β} (h : Alike x y)
    (hnext : ∀ a, Alike (f a) (g a)) : Alike (x >>= f) (y >>= g) := by
  intro b b' hb
  obtain ⟨hresult, hafter⟩ := h b b' hb
  rw [runFrom_bind, runFrom_bind]
  rcases hx : x.runFrom b with ⟨r, c⟩
  rcases hy : y.runFrom b' with ⟨r', c'⟩
  rw [hx, hy] at hresult hafter
  cases hresult with
  | ok heq => exact heq ▸ hnext _ c c' hafter
  | error e e' => exact ⟨.error e e', hafter⟩

end BindM

namespace Surroundings

open BindM

variable (s : Surroundings)

/-- A value that is neither null nor a list is compared by a parameter. -/
theorem bindComparison_of_scalar {v : Value} (hv : v.isNull = false ∧ v.isList = false)
    (member : String) (op : Comparison) :
    s.bindComparison member op v = do
      let column ← s.column member
      return .compare column op (.slot (← s.bindValue member v)) := by
  cases v with
  | null => cases hv.1
  | list => cases hv.2
  | _ => rfl

/-- A value that is neither null nor a list searches for its text. -/
theorem patternText?_of_scalar {v : Value} (hv : v.isNull = false ∧ v.isList = false) :
    patternText? v = some v.text := by
  cases v with
  | null => cases hv.1
  | list => cases hv.2
  | _ => rfl

/-- A value that is neither null nor a list is assigned by a parameter. -/
theorem bindTerm_of_scalar {v : Value} (hv : v.isNull = false ∧ v.isList = false)
    (member : String) :
    s.bindTerm member (.value v) = do return .slot (← s.bindValue member v) := by
  cases v with
  | null => cases hv.1
  | list => cases hv.2
  | _ => rfl

/-- Comparisons of a member with values of one kind are bound alike. -/
theorem bindComparison_alike {v w : Value} (h : v.SameKind w) (member : String)
    (op : Comparison) : Alike (s.bindComparison member op v) (s.bindComparison member op w) := by
  cases h with
  | null =>
    refine alike_bind (alike_lift _) fun column => ?_
    cases op with
    | equal | notEqual => exact alike_pure _
    | _ => exact alike_throw _ _
  | list vs ws => exact alike_bind (alike_lift _) fun column => alike_throw _ _
  | scalar hv hw =>
    rw [bindComparison_of_scalar s hv, bindComparison_of_scalar s hw]
    refine alike_bind (alike_lift _) fun column => ?_
    exact alike_bind (alike_bindValue s member v w) fun name => alike_pure _

/-- Values in which lists stand against lists are bound alike. -/
theorem bindValues_alike {vs ws : List Value}
    (h : List.Forall₂ (fun v w => v.isList = w.isList) vs ws) (member : String) :
    Alike (s.bindValues member vs) (s.bindValues member ws) := by
  induction h with
  | nil => exact alike_pure []
  | @cons v w vs ws hlist _ ih =>
    unfold bindValues
    rw [hlist]
    cases w.isList with
    | true => exact alike_throw _ _
    | false =>
      refine alike_bind (alike_bindValue s member v w) fun name => ?_
      exact alike_bind ih fun names => alike_pure _

/-- Conditions of one shape are bound alike. -/
theorem bindCondition_alike {c c' : Condition} (h : c.SameShape c') :
    Alike (s.bindCondition c) (s.bindCondition c') := by
  induction h with
  | and _ _ ihl ihr | or _ _ ihl ihr =>
    exact alike_bind ihl fun l => alike_bind ihr fun r => alike_pure _
  | not _ ih => exact alike_bind ih fun b => alike_pure _
  | compare hl op hr =>
    cases hl with
    | member l =>
      cases hr with
      | member r =>
        exact alike_bind (alike_lift _) fun cl => alike_bind (alike_lift _) fun cr => alike_pure _
      | value h => exact s.bindComparison_alike h l op
    | value h =>
      cases hr with
      | member r => exact s.bindComparison_alike h r op.flipped
      | value h' => exact alike_throw _ _
  | isNull member | isNotNull member =>
    exact alike_bind (alike_lift _) fun column => alike_pure _
  | like member place h =>
    refine alike_bind (alike_lift _) fun column => ?_
    cases h with
    | null => exact alike_throw _ _
    | list vs ws => exact alike_throw _ _
    | scalar hv hw =>
      rw [patternText?_of_scalar hv, patternText?_of_scalar hw]
      exact alike_bind (alike_bindValue s member _ _) fun name => alike_pure _
  | among member h =>
    refine alike_bind (alike_lift _) fun column => ?_
    cases h with
    | list h =>
      cases h with
      | nil => exact alike_throw _ _
      | cons hlist hrest =>
        exact alike_bind (s.bindValues_alike (.cons hlist hrest) member) fun names => alike_pure _
    | @other v w hv hw =>
      have hitems {v : Value} (hv : v.isList = false) : v.items? = none := by
        cases v <;> first | rfl | cases hv
      rw [hitems hv, hitems hw]
      exact alike_throw _ _
  | const holds => exact alike_pure _

/-- Right sides of one shape are bound alike. -/
theorem bindTerm_alike {t t' : Term} (h : t.SameShape t') (member : String) :
    Alike (s.bindTerm member t) (s.bindTerm member t') := by
  induction h with
  | value h =>
    cases h with
    | null => exact alike_pure _
    | list vs ws => exact alike_throw _ _
    | scalar hv hw =>
      rw [bindTerm_of_scalar s hv, bindTerm_of_scalar s hw]
      exact alike_bind (alike_bindValue s member _ _) fun name => alike_pure _
  | member name => exact alike_bind (alike_lift _) fun column => alike_pure _
  | binary _ op _ ihl ihr =>
    exact alike_bind ihl fun l => alike_bind ihr fun r => alike_pure _

/-- Assignments of one shape are bound alike. -/
theorem bindAssignments_alike {as as' : List Assignment}
    (h : List.Forall₂ Assignment.SameShape as as') :
    Alike (s.bindAssignments as) (s.bindAssignments as') := by
  have hone {a a' : Assignment} (h : a.SameShape a') :
      Alike (s.bindAssignment a) (s.bindAssignment a') := by
    unfold bindAssignment
    rw [h.member_eq]
    refine alike_bind (alike_lift _) fun m => ?_
    cases m.kind.isPersisted with
    | false => exact alike_throw _ _
    | true => exact alike_bind (s.bindTerm_alike h.term m.name) fun t => alike_pure _
  have hall {as as' : List Assignment} (h : List.Forall₂ Assignment.SameShape as as') :
      Alike (as.mapM s.bindAssignment) (as'.mapM s.bindAssignment) := by
    induction h with
    | nil => exact alike_pure []
    | cons hhead _ ih =>
      rw [List.mapM_cons, List.mapM_cons]
      exact alike_bind (hone hhead) fun b => alike_bind ih fun bs => alike_pure _
  unfold bindAssignments
  cases h with
  | nil => exact alike_throw _ _
  | cons hhead hrest => exact hall (.cons hhead hrest)

end Surroundings

end EntitySql
