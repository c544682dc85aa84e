import EntitySql.Proofs.Query.Minting

/-!
# What binding adds

A binder changes by added values only, one after the other, and also when the
expression fails. `Grows` describes such a change by the parameters that were added;
`Adds` says so of a computation, together with what a successful result is.
-/

namespace EntitySql

/-- One binder becomes another by adding parameters for members of the metadata, in this order.
No value is a list, and each name is the first free candidate of its member. -/
inductive Surroundings.Grows (s : Surroundings) : Binder → List Parameter → Binder → Prop
  | none (b : Binder) : s.Grows b [] b
  | more {b b' : Binder} {member : String} {m : Member} {v : Value} {ps : List Parameter}
      (hmember : s.metadata.member? member = some m) (hvalue : v.isList = false)
      (hrest : s.Grows (Binder.add s member v b).2 ps b') :
      s.Grows b (Parameter.bound s.dialect (Binder.add s member v b).1 v :: ps) b'

/-- The folded names of parameters. -/
def foldedNames (ps : List Parameter) : List String :=
  ps.map fun p => Text.foldCase p.name

/-- Names that differ whatever the case of their letters differ. -/
theorem nodup_names_of_folded {ps : List Parameter} (h : (foldedNames ps).Nodup) :
    (ps.map (·.name)).Nodup :=
  List.Nodup.of_map Text.foldCase (by rwa [List.map_map])

/-- The folded names of parameters in a row. -/
theorem foldedNames_append (ps qs : List Parameter) :
    foldedNames (ps ++ qs) = foldedNames ps ++ foldedNames qs :=
  List.map_append

namespace Surroundings.Grows

variable {s : Surroundings} {b b' b'' : Binder} {ps qs : List Parameter}

/-- Two changes in a row add the parameters of both. -/
theorem append (h : s.Grows b ps b') (h' : s.Grows b' qs b'') : s.Grows b (ps ++ qs) b'' := by
  induction h with
  | none => exact h'
  | more hmember hvalue _ ih => exact .more hmember hvalue (ih h')

/-- The parameters collected before stay, and the new ones follow them. -/
theorem parameters_eq (h : s.Grows b ps b') : b'.parameters = b.parameters ++ ps := by
  induction h with
  | none => simp
  | more _ _ _ ih => rw [ih]; simp [Binder.add]

/-- The new names differ from each other and from all names taken before. -/
theorem names_fresh (h : s.Grows b ps b') :
    (foldedNames ps).Nodup ∧ ∀ name ∈ foldedNames ps, name ∉ b.taken := by
  induction h with
  | none => simp [foldedNames]
  | @more b b' member m v ps _ _ _ ih =>
    obtain ⟨hnodup, hfresh⟩ := ih
    have hmint := Binder.mint_not_taken b.taken (member ++ s.scope)
    have hother (name : String) (hname : name ∈ foldedNames ps) :
        Text.foldCase (Binder.mint b.taken (member ++ s.scope)) ≠ name ∧ name ∉ b.taken := by
      simpa [Binder.add] using hfresh name hname
    refine ⟨List.nodup_cons.mpr ⟨fun hmem => (hother _ hmem).1 rfl, hnodup⟩, fun name hname => ?_⟩
    rcases List.mem_cons.mp hname with rfl | hname
    · exact hmint
    · exact (hother name hname).2

/-- Every new name is a candidate of a member. -/
theorem name_eq_candidate (h : s.Grows b ps b') {p : Parameter} (hp : p ∈ ps) :
    ∃ member m k, s.metadata.member? member = some m ∧
      p.name = Binder.candidate (member ++ s.scope) k := by
  induction h with
  | none => simp at hp
  | @more b b' member m v ps hmember _ _ ih =>
    rcases List.mem_cons.mp hp with rfl | hp
    · obtain ⟨k, _, hk, _⟩ := Binder.mint_spec b.taken (member ++ s.scope)
      exact ⟨member, m, k, hmember, hk⟩
    · exact ih hp

end Surroundings.Grows

namespace BindM

variable {α β : Type} {b : Binder}

/-- What comes second runs from the binder that the first leaves, unless the first fails. -/
theorem runFrom_bind (x : BindM α) (f : α → BindM β) :
    (x >>= f).runFrom b =
      match x.runFrom b with
      | (.ok a, b') => (f a).runFrom b'
      | (.error e, b') => (.error e, b') := by
  show (ExceptT.bind x f) b = match x b with
    | (.ok a, b') => (f a) b'
    | (.error e, b') => (.error e, b')
  simp only [ExceptT.bind, ExceptT.mk, bind, StateT.bind]
  rcases x b with ⟨a | e, b'⟩ <;> rfl

end BindM

namespace Surroundings

variable {α β : Type} {s : Surroundings}

/-- Whatever the binder, a computation only adds parameters, and a result that it succeeds with
stands in a relation to them. -/
def Adds (s : Surroundings) (x : BindM α) (related : List Parameter → α → Prop) : Prop :=
  ∀ b, ∃ ps, s.Grows b ps (x.runFrom b).2 ∧ ∀ a, (x.runFrom b).1 = .ok a → related ps a

/-- A result without binding adds nothing. -/
theorem adds_pure {related : List Parameter → α → Prop} {a : α} (h : related [] a) :
    s.Adds (pure a) related :=
  fun b => ⟨[], .none b, by rintro _ ⟨⟩; exact h⟩

/-- A failure adds nothing. -/
theorem adds_throw {related : List Parameter → α → Prop} {e : Fault} :
    s.Adds (throw e) related :=
  fun b => ⟨[], .none b, by rintro _ ⟨⟩⟩

/-- A look-up adds nothing. -/
theorem adds_lift {related : List Parameter → α → Prop} {r : Except Fault α}
    (h : ∀ a, r = .ok a → related [] a) : s.Adds (liftM r) related :=
  fun b => ⟨[], .none b, h⟩

/-- Binding a value that is no list adds one parameter for it. -/
theorem adds_bindValue {related : List Parameter → String → Prop} {member : String} {m : Member}
    {v : Value} (hmember : s.metadata.member? member = some m) (hvalue : v.isList = false)
    (h : ∀ name, related [Parameter.bound s.dialect name v] name) :
    s.Adds (s.bindValue member v) related := by
  refine fun b => ⟨_, .more hmember hvalue (.none _), ?_⟩
  rintro _ ⟨⟩
  exact h _

/-- Two computations in a row add the parameters of both. -/
theorem adds_bind {first : List Parameter → α → Prop} {related : List Parameter → β → Prop}
    {x : BindM α} {f : α → BindM β} (hx : s.Adds x first)
    (hf : ∀ ps a, first ps a → s.Adds (f a) fun qs c => related (ps ++ qs) c) :
    s.Adds (x >>= f) related := by
  intro b
  obtain ⟨ps, hgrows, hfirst⟩ := hx b
  rw [BindM.runFrom_bind]
  rcases hrun : x.runFrom b with ⟨e | a, b'⟩
  · rw [hrun] at hgrows
    exact ⟨ps, hgrows, by rintro _ ⟨⟩⟩
  · rw [hrun] at hgrows hfirst
    obtain ⟨qs, hmore, hsecond⟩ := hf ps a (hfirst a rfl) b'
    exact ⟨ps ++ qs, hgrows.append hmore, hsecond⟩

end Surroundings

end EntitySql
