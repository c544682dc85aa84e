import EntitySql.Proofs.Fallible
import EntitySql.Proofs.Query.BoundForm

/-!
# Which conditions are accepted

A condition is bound when each of its leaves is well formed, and refused for its
leftmost leaf that is not. Well-formedness is a rule about one leaf and the members of
the entity type; neither the engine nor anything that was bound before has a part in it.
-/

namespace EntitySql

/-- A name that some member has, whatever the case of its letters. -/
def Metadata.Resolves (d : Metadata) (name : String) : Prop :=
  ∃ m ∈ d.members, Text.sameName m.name name = true

/-- The values that a member can be compared with: no list, and null only as equal or unequal. -/
def Comparison.Admits (op : Comparison) (v : Value) : Prop :=
  v.isList = false ∧ (v.isNull = true → op = .equal ∨ op = .notEqual)

namespace Condition

/-- The conditions that a condition is composed of, from left to right. -/
def leaves : Condition → List Condition
  | .and l r => l.leaves ++ r.leaves
  | .or l r => l.leaves ++ r.leaves
  | .not c => c.leaves
  | c => [c]

/-- A leaf that has an SQL text. There is no rule for a comparison of two values. -/
inductive LeafFormed (d : Metadata) : Condition → Prop
  | members {l r : String} {op : Comparison} (hl : d.Resolves l) (hr : d.Resolves r) :
      LeafFormed d (.compare (.member l) op (.member r))
  | memberFirst {member : String} {op : Comparison} {v : Value} (hmember : d.Resolves member)
      (hvalue : op.Admits v) : LeafFormed d (.compare (.member member) op (.value v))
  | valueFirst {member : String} {op : Comparison} {v : Value} (hmember : d.Resolves member)
      (hvalue : op.Admits v) : LeafFormed d (.compare (.value v) op (.member member))
  | isNull {member : String} (hmember : d.Resolves member) : LeafFormed d (.isNull member)
  | isNotNull {member : String} (hmember : d.Resolves member) : LeafFormed d (.isNotNull member)
  | like {member : String} {place : Placement} {v : Value} (hmember : d.Resolves member)
      (hnull : v.isNull = false) (hlist : v.isList = false) :
      LeafFormed d (.like member place v)
  | among {member : String} {vs : List Value} (hmember : d.Resolves member) (hvalues : vs ≠ [])
      (hitems : ∀ v ∈ vs, v.isList = false) : LeafFormed d (.among member (.list vs))
  | const (holds : Bool) : LeafFormed d (.const holds)

end Condition

/-- What is wrong with a name, if no member has it. -/
def Metadata.nameFault? (d : Metadata) (name : String) : Option ExpressionFault :=
  match d.member? name with
  | some _ => none
  | none => some (.unknownMember name d.entity)

/-- What is wrong with a value that a member is compared with. -/
def Comparison.valueFault? (op : Comparison) (member : String) : Value → Option ExpressionFault
  | .null => if op.isOrdering then some (.nullComparison member op.symbol) else none
  | .list _ => some (.listComparison member)
  | _ => none

/-- What is wrong with a text to search for. -/
def Value.patternFault? (member : String) (v : Value) : Option ExpressionFault :=
  if v.isNull || v.isList then some (.patternNotScalar member) else none

/-- What is wrong with the value of a membership test. -/
def Value.itemsFault? (member : String) : Value → Option ExpressionFault
  | .list [] => some (.emptyList member)
  | .list vs => if vs.any isList then some .nestedList else none
  | _ => some (.notAList member)

/-- What is wrong with a leaf: its names come before its value. -/
def Condition.leafFault? (d : Metadata) : Condition → Option ExpressionFault
  | .compare (.member l) _ (.member r) => (d.nameFault? l).or (d.nameFault? r)
  | .compare (.member m) op (.value v) => (d.nameFault? m).or (op.valueFault? m v)
  | .compare (.value v) op (.member m) => (d.nameFault? m).or (op.flipped.valueFault? m v)
  | .compare (.value l) op (.value r) => some (.constantComparison l.text op.symbol r.text)
  | .isNull m => d.nameFault? m
  | .isNotNull m => d.nameFault? m
  | .like m _ v => (d.nameFault? m).or (v.patternFault? m)
  | .among m v => (d.nameFault? m).or (v.itemsFault? m)
  | _ => none

/-! ### Nothing is wrong with what is well formed -/

section Forms

variable {d : Metadata} {member : String} {v : Value}

/-- Nothing is wrong with a name that resolves. -/
theorem Metadata.nameFault?_eq_none_iff {name : String} :
    d.nameFault? name = none ↔ d.Resolves name := by
  unfold nameFault?
  cases hmember : d.member? name with
  | some m =>
    have hname := sameName_of_member?_eq_some hmember
    exact iff_of_true rfl ⟨m, mem_of_member?_eq_some hmember, hname⟩
  | none =>
    refine iff_of_false (by simp) ?_
    rintro ⟨m, hm, hname⟩
    rw [member?_eq_none_iff.mp hmember m hm] at hname
    cases hname

/-- Nothing is wrong with a value that a comparison admits. -/
theorem Comparison.valueFault?_eq_none_iff {op : Comparison} :
    op.valueFault? member v = none ↔ op.Admits v := by
  cases v with
  | null => cases op <;> simp [valueFault?, Admits, isOrdering, Value.isList, Value.isNull]
  | _ => simp [valueFault?, Admits, Value.isList, Value.isNull]

/-- A comparison that is turned around admits the same values. -/
theorem Comparison.admits_flipped {op : Comparison} : op.flipped.Admits v ↔ op.Admits v := by
  cases op <;> simp [Admits, flipped, or_comm]

/-- Nothing is wrong with searching for what is neither null nor a list. -/
theorem Value.patternFault?_eq_none_iff :
    v.patternFault? member = none ↔ v.isNull = false ∧ v.isList = false := by
  unfold patternFault?
  cases v.isNull <;> cases v.isList <;> simp

/-- Nothing is wrong with a list of values that are no lists, unless it is empty. -/
theorem Value.itemsFault?_eq_none_iff :
    v.itemsFault? member = none ↔
      ∃ vs, v = .list vs ∧ vs ≠ [] ∧ ∀ w ∈ vs, w.isList = false := by
  cases v with
  | list vs => cases vs <;> simp [itemsFault?]
  | _ => simp [itemsFault?]

/-- Nothing is wrong with a leaf that is well formed, and with no other. -/
theorem Condition.leafFault?_eq_none_iff {c leaf : Condition} (hleaf : leaf ∈ c.leaves) :
    leaf.leafFault? d = none ↔ leaf.LeafFormed d := by
  have hname {name : String} : d.nameFault? name = none ↔ d.Resolves name :=
    Metadata.nameFault?_eq_none_iff
  induction c with
  | and l r ihl ihr | or l r ihl ihr => exact (List.mem_append.mp hleaf).elim ihl ihr
  | not c ih => exact ih hleaf
  | compare l op r =>
    rw [List.mem_singleton.mp hleaf]
    cases l with
    | member l =>
      cases r with
      | member r =>
        rw [leafFault?, Option.or_eq_none_iff, hname, hname]
        exact ⟨fun h => .members h.1 h.2, fun | .members hl hr => ⟨hl, hr⟩⟩
      | value v =>
        rw [leafFault?, Option.or_eq_none_iff, hname, Comparison.valueFault?_eq_none_iff]
        exact ⟨fun h => .memberFirst h.1 h.2, fun | .memberFirst hm hv => ⟨hm, hv⟩⟩
    | value v =>
      cases r with
      | member r =>
        rw [leafFault?, Option.or_eq_none_iff, hname, Comparison.valueFault?_eq_none_iff,
          Comparison.admits_flipped]
        exact ⟨fun h => .valueFirst h.1 h.2, fun | .valueFirst hm hv => ⟨hm, hv⟩⟩
      | value w =>
        -- two values have a fault and no rule
        exact ⟨nofun, nofun⟩
  | isNull m =>
    rw [List.mem_singleton.mp hleaf, leafFault?, hname]
    exact ⟨.isNull, fun | .isNull hm => hm⟩
  | isNotNull m =>
    rw [List.mem_singleton.mp hleaf, leafFault?, hname]
    exact ⟨.isNotNull, fun | .isNotNull hm => hm⟩
  | like m place v =>
    rw [List.mem_singleton.mp hleaf, leafFault?, Option.or_eq_none_iff, hname,
      Value.patternFault?_eq_none_iff]
    exact ⟨fun h => .like h.1 h.2.1 h.2.2, fun | .like hm hnull hlist => ⟨hm, hnull, hlist⟩⟩
  | among m v =>
    rw [List.mem_singleton.mp hleaf, leafFault?, Option.or_eq_none_iff, hname,
      Value.itemsFault?_eq_none_iff]
    constructor
    · rintro ⟨hm, vs, rfl, hvalues, hitems⟩
      exact .among hm hvalues hitems
    · rintro ⟨⟩
      exact ⟨‹_›, _, rfl, ‹_›, ‹_›⟩
  | const holds =>
    rw [List.mem_singleton.mp hleaf]
    exact iff_of_true rfl (.const holds)

/-- Nothing is wrong with any leaf exactly when all leaves are well formed. -/
theorem Condition.findSome?_leafFault?_eq_none_iff {c : Condition} :
    c.leaves.findSome? (·.leafFault? d) = none ↔ ∀ leaf ∈ c.leaves, leaf.LeafFormed d := by
  rw [List.findSome?_eq_none_iff]
  exact forall₂_congr fun leaf hleaf => leafFault?_eq_none_iff hleaf

end Forms

/-! ### Binding stops at the first thing that is wrong -/

namespace BindM

variable {α β : Type}

/-- The outcome of a computation in which something, or nothing, is wrong. -/
def verdict : Option ExpressionFault → Except Fault Unit
  | some cause => .error (.expression cause)
  | none => .ok ()

/-- Whatever the binder, a computation fails with what is wrong, if anything is. -/
def Judged (x : BindM α) (wrong : Option ExpressionFault) : Prop :=
  ∀ b, (x.runFrom b).1.map (fun _ => ()) = verdict wrong

/-- Nothing is wrong with a result. -/
theorem judged_pure (a : α) : Judged (pure a) none :=
  fun _ => rfl

/-- A failure says what is wrong. -/
theorem judged_throw (cause : ExpressionFault) :
    Judged (throw (.expression cause) : BindM α) (some cause) :=
  fun _ => rfl

/-- Nothing is wrong with adding a parameter. -/
theorem judged_bindValue (s : Surroundings) (member : String) (v : Value) :
    Judged (s.bindValue member v) none :=
  fun _ => rfl

/-- A column is missing when its name is wrong. -/
theorem judged_column (s : Surroundings) (member : String) :
    Judged (liftM (s.column member)) (s.metadata.nameFault? member) := by
  intro b
  show (s.column member).map (fun _ => ()) = verdict (s.metadata.nameFault? member)
  unfold Surroundings.column Metadata.lookup Metadata.nameFault?
  cases s.metadata.member? member <;> rfl

/-- Of two computations in a row, the first thing that is wrong counts. -/
theorem judged_bind {x : BindM α} {f : α → BindM β} {first second : Option ExpressionFault}
    (hx : Judged x first) (hf : ∀ a, Judged (f a) second) : Judged (x >>= f) (first.or second) := by
  intro b
  have hfirst := hx b
  rw [runFrom_bind]
  rcases hrun : x.runFrom b with ⟨e | a, b'⟩ <;> rw [hrun] at hfirst
  · cases first with
    | some cause => exact hfirst
    | none => cases hfirst
  · cases first with
    | some cause => cases hfirst
    | none => exact hf a b'

/-- A last step with which nothing is wrong changes nothing about the outcome. -/
theorem judged_bind_pure {x : BindM α} {g : α → β} {wrong : Option ExpressionFault}
    (hx : Judged x wrong) : Judged (x >>= fun a => pure (g a)) wrong := by
  simpa using judged_bind hx fun a => judged_pure (g a)

end BindM

namespace Surroundings

open BindM

variable (s : Surroundings)

/-- A comparison of a member with a value fails for the name, and then for the value. -/
theorem bindComparison_judged (member : String) (op : Comparison) (v : Value) :
    Judged (s.bindComparison member op v)
      ((s.metadata.nameFault? member).or (op.valueFault? member v)) := by
  refine judged_bind (judged_column s member) fun column => ?_
  cases v with
  | null =>
    -- there is a text for null as equal or unequal, and it needs no parameter
    cases op with
    | equal | notEqual => exact judged_pure _
    | _ => exact judged_throw _
  | list vs => exact judged_throw _
  | _ => exact judged_bind_pure (judged_bindValue s member _)

/-- Values are bound up to the first that is a list. -/
theorem bindValues_judged (member : String) (vs : List Value) :
    Judged (s.bindValues member vs) (if vs.any Value.isList then some .nestedList else none) := by
  induction vs with
  | nil => exact judged_pure []
  | cons v vs ih =>
    unfold bindValues
    rw [List.any_cons]
    cases hlist : v.isList with
    | true => exact judged_throw _
    | false => exact judged_bind (judged_bindValue s member v) fun name => judged_bind_pure ih

/-- A condition fails for the first of its leaves in which something is wrong. -/
theorem bindCondition_judged (c : Condition) :
    Judged (s.bindCondition c) (c.leaves.findSome? (·.leafFault? s.metadata)) := by
  induction c with
  | and l r ihl ihr | or l r ihl ihr =>
    rw [Condition.leaves, List.findSome?_append]
    exact judged_bind ihl fun bl => judged_bind_pure ihr
  | not c ih => exact judged_bind_pure ih
  | compare l op r =>
    simp only [Condition.leaves, List.findSome?_singleton]
    cases l with
    | member l =>
      cases r with
      | member r =>
        exact judged_bind (judged_column s l) fun cl => judged_bind_pure (judged_column s r)
      | value v => exact s.bindComparison_judged l op v
    | value v =>
      cases r with
      | member r => exact s.bindComparison_judged r op.flipped v
      | value w => exact judged_throw _
  | isNull m | isNotNull m =>
    simp only [Condition.leaves, List.findSome?_singleton]
    exact judged_bind_pure (judged_column s m)
  | like m place v =>
    simp only [Condition.leaves, List.findSome?_singleton]
    refine judged_bind (judged_column s m) fun column => ?_
    cases v with
    | null | list => exact judged_throw _
    | _ => exact judged_bind_pure (judged_bindValue s m _)
  | among m v =>
    simp only [Condition.leaves, List.findSome?_singleton]
    refine judged_bind (judged_column s m) fun column => ?_
    cases v with
    | list vs =>
      cases vs with
      | nil => exact judged_throw _
      | cons v vs => exact judged_bind_pure (s.bindValues_judged m (v :: vs))
    | _ => exact judged_throw _
  | const holds => exact judged_pure _

/-- A condition is bound exactly when all of its leaves are well formed. Else it is refused with
what is wrong with the leftmost leaf that is not. Surroundings with the same metadata and any other
binder come to the same outcome. -/
theorem condition_accepted_iff_leaves_formed (c : Condition) (b : Binder) :
    ((∃ bound, ((s.bindCondition c).runFrom b).1 = .ok bound) ↔
      ∀ leaf ∈ c.leaves, leaf.LeafFormed s.metadata) ∧
    (∀ before leaf after, c.leaves = before ++ leaf :: after →
      (∀ other ∈ before, other.LeafFormed s.metadata) → ¬leaf.LeafFormed s.metadata →
      ∃ cause, leaf.leafFault? s.metadata = some cause ∧
        ((s.bindCondition c).runFrom b).1 = .error (.expression cause)) ∧
    ∀ (s' : Surroundings) (b' : Binder), s'.metadata = s.metadata →
      ((s'.bindCondition c).runFrom b').1.map (fun _ => ()) =
        ((s.bindCondition c).runFrom b).1.map (fun _ => ()) := by
  have hjudged := s.bindCondition_judged c b
  refine ⟨?_, fun before leaf after hleaves hbefore hleaf => ?_, fun s' b' hmetadata => ?_⟩
  · rw [← Condition.findSome?_leafFault?_eq_none_iff]
    cases hwrong : c.leaves.findSome? (·.leafFault? s.metadata) with
    | none =>
      rw [hwrong] at hjudged
      obtain ⟨bound, hbound, -⟩ := map_eq_ok_iff.mp hjudged
      exact iff_of_true ⟨bound, hbound⟩ rfl
    | some cause =>
      rw [hwrong] at hjudged
      have herror := map_eq_error_iff.mp hjudged
      exact iff_of_false (by simp [herror]) (by simp)
  · have hmem {other : Condition} (h : other ∈ before ++ leaf :: after) : other ∈ c.leaves :=
      hleaves ▸ h
    -- the search for what is wrong passes over the leaves before this one
    have hnone : before.findSome? (·.leafFault? s.metadata) = none :=
      List.findSome?_eq_none_iff.mpr fun other hother =>
        (Condition.leafFault?_eq_none_iff (hmem (List.mem_append_left _ hother))).mpr
          (hbefore other hother)
    obtain ⟨cause, hcause⟩ := Option.ne_none_iff_exists'.mp fun h =>
      hleaf ((Condition.leafFault?_eq_none_iff (hmem (by simp))).mp h)
    have hfirst : c.leaves.findSome? (·.leafFault? s.metadata) = some cause := by
      rw [hleaves, List.findSome?_append, hnone, Option.none_or, List.findSome?_cons, hcause]
    rw [hfirst] at hjudged
    exact ⟨cause, hcause, map_eq_error_iff.mp hjudged⟩
  · rw [hjudged, ← hmetadata]
    exact s'.bindCondition_judged c b'

end Surroundings

end EntitySql
