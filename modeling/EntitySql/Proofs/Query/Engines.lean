import EntitySql.Proofs.Query.Growth

/-!
# Binding on several engines

An engine that has truth values takes every value as it is given. Binding an expression on
any other engine does the same and encodes the parameters on the way: the results, the
faults and the names do not depend on the engine.
-/

namespace EntitySql

/-- A parameter whose value is as it was given, as it is bound on an engine. -/
def Parameter.encoded (d : Dialect) (p : Parameter) : Parameter :=
  Parameter.bound d p.name p.value

/-- PostgreSQL has truth values, so what is bound there still is as it was given. -/
theorem Parameter.encoded_bound (d : Dialect) (name : String) (v : Value) :
    (Parameter.bound .postgreSql name v).encoded d = Parameter.bound d name v := rfl

/-- A binder whose parameters are bound on an engine. -/
def Binder.encoded (d : Dialect) (b : Binder) : Binder :=
  ⟨b.taken, b.parameters.map (Parameter.encoded d)⟩

namespace BindM

variable {α β : Type} {d : Dialect}

/-- The second binding ends as the first does, with the parameters encoded for an engine. -/
def Encodes (d : Dialect) (x y : BindM α) : Prop :=
  ∀ b : Binder, y.runFrom (b.encoded d) = ((x.runFrom b).1, (x.runFrom b).2.encoded d)

/-- A result without parameters. -/
theorem encodes_pure (a : α) : Encodes d (pure a) (pure a) :=
  fun _ => rfl

/-- A fault without parameters. -/
theorem encodes_throw (e : Fault) : Encodes d (throw e : BindM α) (throw e) :=
  fun _ => rfl

/-- A look-up. -/
theorem encodes_lift (r : Except Fault α) : Encodes d (liftM r) (liftM r) :=
  fun _ => rfl

/-- The name of a parameter does not depend on the engine, and its value is encoded. -/
theorem encodes_bindValue (m : Metadata) (scope member : String) (v : Value) :
    Encodes d ((⟨m, .postgreSql, scope⟩ : Surroundings).bindValue member v)
      ((⟨m, d, scope⟩ : Surroundings).bindValue member v) := by
  intro b
  have hadd : Binder.add ⟨m, d, scope⟩ member v (b.encoded d) =
      ((Binder.add ⟨m, .postgreSql, scope⟩ member v b).1,
        (Binder.add ⟨m, .postgreSql, scope⟩ member v b).2.encoded d) := by
    simp only [Binder.add, Binder.encoded, List.map_append, List.map_cons, List.map_nil,
      Parameter.encoded_bound]
  exact congrArg (fun r : String × Binder => (Except.ok r.1, r.2)) hadd

/-- Two bindings in a row. -/
theorem Encodes.bind {x y : BindM α} {f g : α → BindM β} (h : Encodes d x y)
    (hnext : ∀ a, Encodes d (f a) (g a)) : Encodes d (x >>= f) (y >>= g) := by
  intro b
  rw [runFrom_bind, runFrom_bind, h b]
  rcases x.runFrom b with ⟨e | a, b'⟩
  · rfl
  · exact hnext a b'

end BindM

namespace Surroundings

open BindM

variable (d : Dialect) (m : Metadata) (scope : String)

/-- Comparisons with a value are bound on every engine alike. -/
theorem bindComparison_encodes (member : String) (op : Comparison) (v : Value) :
    Encodes d ((⟨m, .postgreSql, scope⟩ : Surroundings).bindComparison member op v)
      ((⟨m, d, scope⟩ : Surroundings).bindComparison member op v) := by
  refine (encodes_lift _).bind fun column => ?_
  cases v with
  | null =>
    cases op with
    | equal | notEqual => exact encodes_pure _
    | _ => exact encodes_throw _
  | list vs => exact encodes_throw _
  | _ => exact (encodes_bindValue m scope member _).bind fun name => encodes_pure _

/-- Lists of values are bound on every engine alike. -/
theorem bindValues_encodes (member : String) (vs : List Value) :
    Encodes d ((⟨m, .postgreSql, scope⟩ : Surroundings).bindValues member vs)
      ((⟨m, d, scope⟩ : Surroundings).bindValues member vs) := by
  induction vs with
  | nil => exact encodes_pure []
  | cons v vs ih =>
    unfold bindValues
    cases v.isList with
    | true => exact encodes_throw _
    | false =>
      exact (encodes_bindValue m scope member v).bind fun name => ih.bind fun names =>
        encodes_pure _

/-- Conditions are bound on every engine alike. -/
theorem bindCondition_encodes (c : Condition) :
    Encodes d ((⟨m, .postgreSql, scope⟩ : Surroundings).bindCondition c)
      ((⟨m, d, scope⟩ : Surroundings).bindCondition c) := by
  induction c with
  | and l r ihl ihr | or l r ihl ihr =>
    exact ihl.bind fun bl => ihr.bind fun br => encodes_pure _
  | not c ih => exact ih.bind fun b => encodes_pure _
  | compare l op r =>
    cases l with
    | member l =>
      cases r with
      | member r =>
        exact (encodes_lift _).bind fun cl => (encodes_lift _).bind fun cr => encodes_pure _
      | value v => exact bindComparison_encodes d m scope l op v
    | value v =>
      cases r with
      | member r => exact bindComparison_encodes d m scope r op.flipped v
      | value w => exact encodes_throw _
  | isNull member | isNotNull member =>
    exact (encodes_lift _).bind fun column => encodes_pure _
  | like member place v =>
    refine (encodes_lift _).bind fun column => ?_
    cases patternText? v with
    | none => exact encodes_throw _
    | some text => exact (encodes_bindValue m scope member _).bind fun name => encodes_pure _
  | among member v =>
    refine (encodes_lift _).bind fun column => ?_
    match v.items? with
    | none => exact encodes_throw _
    | some [] => exact encodes_throw _
    | some (v :: vs) =>
      exact (bindValues_encodes d m scope member (v :: vs)).bind fun names => encodes_pure _
  | const holds => exact encodes_pure _

/-- Right sides of assignments are bound on every engine alike. -/
theorem bindTerm_encodes (member : String) (t : Term) :
    Encodes d ((⟨m, .postgreSql, scope⟩ : Surroundings).bindTerm member t)
      ((⟨m, d, scope⟩ : Surroundings).bindTerm member t) := by
  induction t with
  | value v =>
    cases v with
    | null => exact encodes_pure _
    | list vs => exact encodes_throw _
    | _ => exact (encodes_bindValue m scope member _).bind fun name => encodes_pure _
  | member name => exact (encodes_lift _).bind fun column => encodes_pure _
  | binary l op r ihl ihr => exact ihl.bind fun bl => ihr.bind fun br => encodes_pure _

/-- Assignments are bound on every engine alike. -/
theorem bindAssignments_encodes (as : List Assignment) :
    Encodes d ((⟨m, .postgreSql, scope⟩ : Surroundings).bindAssignments as)
      ((⟨m, d, scope⟩ : Surroundings).bindAssignments as) := by
  have hone (a : Assignment) :
      Encodes d ((⟨m, .postgreSql, scope⟩ : Surroundings).bindAssignment a)
        ((⟨m, d, scope⟩ : Surroundings).bindAssignment a) := by
    refine (encodes_lift _).bind fun f => ?_
    cases f.kind.isPersisted with
    | false => exact encodes_throw _
    | true => exact (bindTerm_encodes d m scope f.name a.term).bind fun t => encodes_pure _
  have hall : Encodes d (as.mapM (⟨m, .postgreSql, scope⟩ : Surroundings).bindAssignment)
      (as.mapM (⟨m, d, scope⟩ : Surroundings).bindAssignment) := by
    induction as with
    | nil => exact encodes_pure []
    | cons a as ih =>
      rw [List.mapM_cons, List.mapM_cons]
      exact (hone a).bind fun b => ih.bind fun bs => encodes_pure _
  unfold bindAssignments
  cases as.isEmpty with
  | true => exact encodes_throw _
  | false => exact hall

end Surroundings

end EntitySql
