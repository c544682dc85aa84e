import EntitySql.Proofs.Query.Steps
import EntitySql.Proofs.Statement.Engines

/-!
# Bound parameters

Values are bound to parameters in two places: the values of members when a statement is
drafted, and the values of an expression when it is translated. Both encode a value for
the engine and declare what it then is. Sending encodes once more and keeps the
declaration, which changes nothing about a parameter that was bound for the same engine.
-/

namespace EntitySql

variable {d : Dialect} {t : EntityType}

/-- A parameter that holds a value as an engine takes it, declared to be what it then is. -/
def Parameter.IsBound (d : Dialect) (p : Parameter) : Prop :=
  ∃ v, p = Parameter.bound d p.name v

/-- A parameter as it was given and as it is sent: name and declaration stay, and so does the value,
unless it is a truth value and the engine has none, which is sent as the number one or zero. -/
structure Parameter.Passes (d : Dialect) (p p' : Parameter) : Prop where
  name_eq : p'.name = p.name
  type_eq : p'.type = p.type
  value : (d.hasBooleans = true ∨ p.value.isBool = false) ∧ p'.value = p.value ∨
    d.hasBooleans = false ∧
      ∃ holds, p.value = .bool holds ∧ p'.value = .int32 (if holds then 1 else 0)

/-- All parameters are bound for an engine. -/
def Statement.IsBound (d : Dialect) (s : Statement) : Prop :=
  ∀ p ∈ s.parameters, p.IsBound d

/-- No parameter holds a truth value where an engine has none. -/
def Statement.Encoded (d : Dialect) (s : Statement) : Prop :=
  d.hasBooleans = false → ∀ p ∈ s.parameters, p.value.isBool = false

/-- A statement, the query for the number of its rows, or the query for a page of them. -/
inductive Statement.PageOf (d : Dialect) (s : Statement) : Statement → Prop
  | whole : s.PageOf d s
  | count : s.PageOf d s.pageCount
  | rows (order : Option String) (w : Window) : s.PageOf d (s.pageRows d order w)

namespace Parameter

/-- A bound parameter is sent as it is. -/
theorem IsBound.sent_eq {p : Parameter} (h : p.IsBound d) : p.sent d = p := by
  obtain ⟨v, hv⟩ := h
  rw [hv, sent_bound]

/-- A parameter whose value is as it was given is bound by encoding it. -/
theorem isBound_encoded (d : Dialect) (p : Parameter) : (p.encoded d).IsBound d :=
  ⟨p.value, rfl⟩

/-- What sending does to a parameter. -/
theorem passes_sent (d : Dialect) (p : Parameter) : p.Passes d (p.sent d) := by
  refine ⟨rfl, rfl, ?_⟩
  show _ ∧ d.encode p.value = p.value ∨ _
  cases hnative : d.hasBooleans with
  | true => exact Or.inl ⟨Or.inl rfl, by rw [Dialect.encode, if_pos hnative]⟩
  | false =>
    cases hbool : p.value.isBool with
    | false => exact Or.inl ⟨Or.inr rfl, Dialect.encode_of_not_isBool hbool⟩
    | true =>
      obtain ⟨holds, hholds⟩ := Value.exists_bool_of_isBool hbool
      refine Or.inr ⟨rfl, holds, hholds, ?_⟩
      show d.encode p.value = _
      rw [Dialect.encode, hnative, hholds]
      rfl

end Parameter

/-- What a binder adds is bound for its engine. -/
theorem Surroundings.Grows.isBound {s : Surroundings} {b b' : Binder} {ps : List Parameter}
    (h : s.Grows b ps b') : ∀ p ∈ ps, p.IsBound s.dialect := by
  induction h with
  | none => simp
  | more _ _ _ ih => exact List.forall_mem_cons.mpr ⟨⟨_, rfl⟩, ih⟩

/-- The parameters of expressions that are translated by themselves are bound for the engine. -/
theorem Surroundings.isBound_after (s : Surroundings) (reserved : List String)
    (es : List Expression) :
    ∀ p ∈ (s.after (Binder.avoiding reserved) es).parameters, p.IsBound s.dialect := by
  obtain ⟨ps, hgrows⟩ := s.after_grows (Binder.avoiding reserved) es
  have hparameters : (s.after (Binder.avoiding reserved) es).parameters = ps := by
    simpa [Binder.avoiding] using hgrows.parameters_eq
  rw [hparameters]
  exact hgrows.isBound

/-- The parameters of the statements of an operation are bound for the engine. -/
theorem Build.isBound_of_answers {b : Build} {ss : List Statement}
    (h : t.Answers (b.statements d t) (.ok ss)) : ∀ s ∈ ss, s.IsBound d := by
  obtain ⟨m, hm⟩ := exists_metadata_of_answers h
  have hdrafts := ((statements_answers hm b).congr (b.drafts_eq_body d t m)).iff_eq.mp h
  -- engines differ by what they encode, so the drafts are encoded from those that are not
  rw [b.body_encoded] at hdrafts
  obtain ⟨_, hencoded, rfl⟩ := map_eq_ok_iff.mp hdrafts
  obtain ⟨xs, -, rfl⟩ := map_eq_ok_iff.mp hencoded
  intro s hs p hp
  obtain ⟨_, hx, rfl⟩ := List.mem_map.mp hs
  obtain ⟨x, -, rfl⟩ := List.mem_map.mp hx
  obtain ⟨given, -, rfl⟩ := List.mem_map.mp hp
  exact given.isBound_encoded d

/-- The queries for a page of a statement have its parameters. -/
theorem Statement.PageOf.parameters_eq {s s' : Statement} (h : s.PageOf d s') :
    s'.parameters = s.parameters := by
  cases h <;> rfl

end EntitySql
