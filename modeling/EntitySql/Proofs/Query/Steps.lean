import EntitySql.Proofs.Fallible
import EntitySql.Proofs.Query.Phrases

/-!
# Steps of one binder

Conditions, projections, assignments and orders are written one after the other from one
binder, and some of them may fail. The parameters that have been collected by then keep
to one invariant, and the text of a step is the expression, printed with placeholders for
the parameters that this step has added.
-/

namespace EntitySql

/-- An expression that a binder is asked to write. -/
inductive Expression where
  | condition (c : Condition)
  | projection (p : Projection)
  | assignments (as : List Assignment)
  | order (keys : List SortKey)

/-- Whether an expression only names members. -/
def Expression.holdsNoValue : Expression → Bool
  | .projection _ => true
  | .order _ => true
  | _ => false

namespace Surroundings

/-- Writes one expression. -/
def write (s : Surroundings) : Expression → BindM String
  | .condition c => do return (← s.bindCondition c).phrase.render s.dialect.marker
  | .projection p => s.projectionText p
  | .assignments as => do
    return (BoundAssignment.list (← s.bindAssignments as)).render s.dialect.marker
  | .order keys => s.orderText keys

/-- The binder after several expressions; one that fails leaves what it has added so far. -/
def after (s : Surroundings) (b : Binder) (es : List Expression) : Binder :=
  es.foldl (fun b e => ((s.write e).runFrom b).2) b

end Surroundings

/-! ### Printing with given placeholders -/

/-- Printing takes placeholders from the left of a list. What has no text is not printed. -/
abbrev Printing := StateT (List String) Option

/-- The next placeholder. -/
def Printing.next : Printing String
  | [] => none
  | p :: ps => some (p, ps)

/-- Prints the comparison of a column with a value. -/
def Comparison.print (op : Comparison) (column : String) : Value → Printing String
  | .null =>
    match op with
    | .equal => return column ++ " IS NULL"
    | .notEqual => return column ++ " IS NOT NULL"
    | _ => failure
  | _ => return column ++ " " ++ op.symbol ++ " " ++ (← Printing.next)

/-- Prints a condition, with columns for members and placeholders for values. -/
def Condition.print (d : Metadata) : Condition → Printing String
  | .and l r => do return "(" ++ (← l.print d) ++ " AND " ++ (← r.print d) ++ ")"
  | .or l r => do return "(" ++ (← l.print d) ++ " OR " ++ (← r.print d) ++ ")"
  | .not c => do return "(NOT " ++ (← c.print d) ++ ")"
  | .compare (.member l) op (.member r) => do
    return (← d.column? l) ++ " " ++ op.symbol ++ " " ++ (← d.column? r)
  | .compare (.member m) op (.value v) => do op.print (← d.column? m) v
  | .compare (.value v) op (.member m) => do op.flipped.print (← d.column? m) v
  | .compare (.value _) _ (.value _) => failure
  | .isNull m => do return (← d.column? m) ++ " IS NULL"
  | .isNotNull m => do return (← d.column? m) ++ " IS NOT NULL"
  | .like m _ _ => do return (← d.column? m) ++ " LIKE " ++ (← Printing.next)
  | .among m v => do
    let column ← d.column? m
    let placeholders ← (← v.items?).mapM fun _ => Printing.next
    return column ++ " IN (" ++ ", ".intercalate placeholders ++ ")"
  | .const holds => return if holds then "1=1" else "1=0"

/-- Prints the right side of an assignment. -/
def Term.print (d : Metadata) : Term → Printing String
  | .value .null => return "NULL"
  | .value _ => Printing.next
  | .member m => d.column? m
  | .binary l op r => do
    return "(" ++ (← l.print d) ++ " " ++ op.symbol ++ " " ++ (← r.print d) ++ ")"

/-- Prints an assignment. -/
def Assignment.print (d : Metadata) (a : Assignment) : Printing String := do
  return (← d.column? a.member) ++ "=" ++ (← a.term.print d)

/-- Prints a sort key. -/
def SortKey.print (d : Metadata) (k : SortKey) : Printing String := do
  return (← d.column? k.member) ++ " " ++ k.direction.word

/-- Prints an expression. -/
def Expression.print (d : Metadata) : Expression → Printing String
  | .condition c => c.print d
  | .projection p => do return ", ".intercalate (← p.names.mapM fun m => d.column? m)
  | .assignments as => do return ", ".intercalate (← as.mapM (·.print d))
  | .order keys => do return ", ".intercalate (← keys.mapM (·.print d))

namespace Printing

variable {α β : Type}

/-- Printing gives a result from exactly these placeholders and leaves those after them. -/
def Gives (x : Printing α) (placeholders : List String) (a : α) : Prop :=
  ∀ rest, x.run (placeholders ++ rest) = some (a, rest)

/-- What is printed can be written in another way. -/
theorem Gives.congr {x : Printing α} {ps : List String} {a b : α} (h : Gives x ps a)
    (hab : a = b) : Gives x ps b :=
  hab ▸ h

/-- A result takes no placeholder. -/
theorem gives_pure (a : α) : Gives (pure a) [] a :=
  fun _ => rfl

/-- A look-up takes no placeholder. -/
theorem gives_lift {r : Option α} {a : α} (h : r = some a) : Gives (liftM r) [] a := by
  subst h
  exact fun _ => rfl

/-- The next placeholder is taken. -/
theorem gives_next (p : String) : Gives next [p] p :=
  fun _ => rfl

/-- Two parts in a row take the placeholders of both. -/
theorem gives_bind {x : Printing α} {f : α → Printing β} {ps qs : List String} {a : α} {b : β}
    (hx : Gives x ps a) (hf : Gives (f a) qs b) : Gives (x >>= f) (ps ++ qs) b := by
  intro rest
  rw [List.append_assoc, StateT.run_bind, hx]
  exact hf rest

/-- A last step takes no placeholder. -/
theorem gives_bind_pure {x : Printing α} {g : α → β} {ps : List String} {a : α}
    (hx : Gives x ps a) : Gives (x >>= fun a => pure (g a)) ps (g a) := by
  have h : Gives (x >>= fun a => pure (g a)) (ps ++ []) (g a) := gives_bind hx (gives_pure (g a))
  rwa [List.append_nil] at h

/-- Going on after a look-up. -/
theorem gives_lift_bind {r : Option α} {f : α → Printing β} {ps : List String} {a : α} {b : β}
    (h : r = some a) (hf : Gives (f a) ps b) : Gives (liftM r >>= f) ps b := by
  simpa using gives_bind (gives_lift h) hf

/-- As many placeholders as there are items. -/
theorem gives_mapM_next {items : List α} {ps : List String} (h : ps.length = items.length) :
    Gives (items.mapM fun _ => next) ps ps := by
  induction items generalizing ps with
  | nil =>
    rw [List.eq_nil_of_length_eq_zero h]
    exact gives_pure []
  | cons item items ih =>
    obtain ⟨p, ps, rfl⟩ := List.exists_cons_of_length_eq_add_one h
    rw [List.mapM_cons]
    exact gives_bind (gives_next p) (gives_bind_pure (ih (by simpa using h)))

/-- What takes no placeholder for any of several items takes none for all of them. -/
theorem gives_mapM {f : α → Printing β} {xs : List α} {ys : List β}
    (h : List.Forall₂ (fun x y => Gives (f x) [] y) xs ys) : Gives (xs.mapM f) [] ys := by
  induction h with
  | nil => exact gives_pure []
  | cons hhead _ ih =>
    rw [List.mapM_cons]
    exact gives_bind hhead (gives_bind_pure ih)

/-- A comparison with a value that is not null takes one placeholder. -/
theorem gives_comparison {op : Comparison} {column p : String} {v : Value}
    (hnull : v.isNull = false) :
    Gives (op.print column v) [p] (column ++ " " ++ op.symbol ++ " " ++ p) := by
  cases v with
  | null => cases hnull
  | _ => exact gives_bind_pure (gives_next p)

end Printing

namespace Surroundings

open Printing

variable {s : Surroundings}

/-- The placeholders of parameters. -/
def placeholders (s : Surroundings) (ps : List Parameter) : List String :=
  ps.map fun p => s.dialect.marker ++ p.name

/-- The placeholders of parameters in a row. -/
theorem placeholders_append (ps qs : List Parameter) :
    s.placeholders (ps ++ qs) = s.placeholders ps ++ s.placeholders qs :=
  List.map_append

/-- The text of a bound comparison is that of the comparison. -/
theorem BindsComparison.gives {member : String} {op : Comparison} {v : Value}
    {ps : List Parameter} {b : BoundCondition} (h : s.BindsComparison member op v ps b) :
    Gives (do op.print (← s.metadata.column? member) v) (s.placeholders ps)
      (b.phrase.render s.dialect.marker) := by
  cases h with
  | isNull hcolumn | isNotNull hcolumn =>
    refine Gives.congr (gives_lift_bind hcolumn (gives_pure _)) ?_
    simp [BoundCondition.phrase, Phrase.render, Piece.render]
  | slot hcolumn hnull =>
    refine Gives.congr (gives_lift_bind hcolumn (gives_comparison hnull)) ?_
    simp [BoundCondition.phrase, BoundOperand.piece, Phrase.render, Piece.render, Parameter.bound]

/-- The text of a bound condition is that of the condition. -/
theorem Binds.gives {c : Condition} {ps : List Parameter} {b : BoundCondition}
    (h : s.Binds c ps b) :
    Gives (c.print s.metadata) (s.placeholders ps) (b.phrase.render s.dialect.marker) := by
  induction h with
  | and _ _ ihl ihr | or _ _ ihl ihr =>
    rw [placeholders_append]
    refine Gives.congr (gives_bind ihl (gives_bind_pure ihr)) ?_
    simp [BoundCondition.phrase, Phrase.render, Piece.render, String.append_assoc]
  | not _ ih =>
    refine Gives.congr (gives_bind_pure ih) ?_
    simp [BoundCondition.phrase, Phrase.render, Piece.render, String.append_assoc]
  | members hl hr =>
    refine Gives.congr (gives_lift_bind hl (gives_bind_pure (gives_lift hr))) ?_
    simp [BoundCondition.phrase, BoundOperand.piece, Phrase.render, Piece.render]
  | memberFirst h | valueFirst h => exact h.gives
  | isNull hcolumn | isNotNull hcolumn =>
    refine Gives.congr (gives_bind_pure (gives_lift hcolumn)) ?_
    simp [BoundCondition.phrase, Phrase.render, Piece.render]
  | like hcolumn =>
    refine Gives.congr (gives_lift_bind hcolumn (gives_bind_pure (gives_next _))) ?_
    simp [BoundCondition.phrase, Phrase.render, Piece.render, Parameter.bound]
  | @among _ _ vs ps hcolumn _ hparameters =>
    -- each value of the list has its own parameter
    have hlength : (s.placeholders ps).length = vs.length := by
      simpa [placeholders] using hparameters.length_eq
    refine Gives.congr (gives_lift_bind hcolumn
      (gives_lift_bind rfl (gives_bind_pure (gives_mapM_next hlength)))) ?_
    rw [BoundCondition.phrase, Phrase.render_cons, Phrase.render_append, Phrase.render_join]
    simp [Phrase.render, Piece.render, placeholders, Function.comp_def, String.append_assoc]
  | const holds =>
    refine Gives.congr (gives_pure _) ?_
    cases holds <;> rfl

/-- The text of a bound right side is that of the right side. -/
theorem BindsTerm.gives {member : String} {t : Term} {ps : List Parameter} {b : BoundTerm}
    (h : s.BindsTerm member t ps b) :
    Gives (t.print s.metadata) (s.placeholders ps) (b.phrase.render s.dialect.marker) := by
  induction h with
  | null => exact gives_pure _
  | @slot name v hnull =>
    have hprint : (Term.value v).print s.metadata = next := by
      cases v with
      | null => cases hnull
      | _ => rfl
    rw [hprint]
    refine Gives.congr (gives_next _) ?_
    simp [BoundTerm.phrase, Phrase.render, Piece.render, Parameter.bound]
  | column hcolumn =>
    refine Gives.congr (gives_lift hcolumn) ?_
    simp [BoundTerm.phrase, Phrase.render, Piece.render]
  | binary _ _ ihl ihr =>
    rw [placeholders_append]
    refine Gives.congr (gives_bind ihl (gives_bind_pure ihr)) ?_
    simp [BoundTerm.phrase, Phrase.render, Piece.render, String.append_assoc]

/-- The texts of bound assignments are those of the assignments. -/
theorem BindsAssignments.gives {as : List Assignment} {ps : List Parameter}
    {bs : List BoundAssignment} (h : s.BindsAssignments as ps bs) :
    Gives (as.mapM (·.print s.metadata)) (s.placeholders ps)
      (bs.map fun b => b.phrase.render s.dialect.marker) := by
  induction h with
  | nil => exact gives_pure []
  | @cons a as m ps qs t bs hmember _ hterm _ ih =>
    have hcolumn := Metadata.column?_eq_some_iff.mpr ⟨m, hmember, rfl⟩
    have hone : Gives (a.print s.metadata) (s.placeholders ps)
        (BoundAssignment.phrase ⟨m.column, t⟩ |>.render s.dialect.marker) := by
      refine Gives.congr (gives_lift_bind hcolumn (gives_bind_pure hterm.gives)) ?_
      rw [BoundAssignment.phrase, Phrase.render_cons, Piece.render]
    rw [placeholders_append, List.mapM_cons]
    exact gives_bind hone (gives_bind_pure ih)

/-- The text of a projection is that of its columns. -/
theorem gives_of_projectionText {p : Projection} {text : String}
    (h : s.projectionText p = .ok text) :
    Gives ((Expression.projection p).print s.metadata) [] text := by
  obtain ⟨columns, hcolumns, rfl⟩ := map_eq_ok_iff.mp h
  unfold columnsOf at hcolumns
  split at hcolumns
  · cases hcolumns
  · refine gives_bind_pure (gives_mapM ((mapM_eq_ok_iff.mp hcolumns).imp fun m c hc => ?_))
    exact gives_lift (column_eq_ok_iff.mp hc)

/-- The text of an order is that of its sort keys. -/
theorem gives_of_orderText {keys : List SortKey} {text : String}
    (h : s.orderText keys = .ok text) :
    Gives ((Expression.order keys).print s.metadata) [] text := by
  unfold orderText at h
  split at h
  · cases h
  · obtain ⟨texts, htexts, rfl⟩ := map_eq_ok_iff.mp h
    refine gives_bind_pure (gives_mapM ((mapM_eq_ok_iff.mp htexts).imp fun k text hk => ?_))
    obtain ⟨c, hc, rfl⟩ := map_eq_ok_iff.mp hk
    exact gives_bind_pure (gives_lift (column_eq_ok_iff.mp hc))

/-! ### What steps add -/

/-- Writing an expression adds the parameters that its text has placeholders for. -/
theorem write_adds (s : Surroundings) (e : Expression) :
    s.Adds (s.write e) fun ps text => Gives (e.print s.metadata) (s.placeholders ps) text := by
  cases e with
  | condition c =>
    refine adds_bind (s.bindCondition_adds c) fun ps b hb => adds_pure ?_
    rw [List.append_nil]
    exact hb.gives
  | projection p => exact adds_lift fun text htext => gives_of_projectionText htext
  | assignments as =>
    refine adds_bind (s.bindAssignments_adds as) fun ps bs ⟨_, hbs⟩ => adds_pure ?_
    rw [List.append_nil, BoundAssignment.list, Phrase.render_join, List.map_map]
    exact gives_bind_pure hbs.gives
  | order keys => exact adds_lift fun text htext => gives_of_orderText htext

/-- Writing what holds no value leaves the binder as it was. -/
theorem runFrom_write_of_holdsNoValue {e : Expression} (h : e.holdsNoValue = true) (b : Binder) :
    ((s.write e).runFrom b).2 = b := by
  cases e with
  | condition c | assignments as => cases h
  | projection p | order keys => rfl

/-- Several steps only add parameters. -/
theorem after_grows (s : Surroundings) (b : Binder) (es : List Expression) :
    ∃ ps, s.Grows b ps (s.after b es) := by
  induction es generalizing b with
  | nil => exact ⟨[], .none b⟩
  | cons e es ih =>
    obtain ⟨ps, hstep, -⟩ := s.write_adds e b
    obtain ⟨qs, hrest⟩ := ih ((s.write e).runFrom b).2
    exact ⟨ps ++ qs, hstep.append hrest⟩

/-- Several steps are the first of them and then the rest. -/
theorem after_append (s : Surroundings) (b : Binder) (es es' : List Expression) :
    s.after b (es ++ es') = s.after (s.after b es) es' :=
  List.foldl_append

end Surroundings

/-- A parameter as an engine takes it: no list, a truth value only where there are such, and
declared to be what it is. -/
structure Parameter.Fits (d : Dialect) (p : Parameter) : Prop where
  scalar : p.value.isList = false
  encoded : p.value.isBool = true → d.hasBooleans = true
  declared : p.type = p.value.dataType?

/-- A value that is no list is bound to a parameter as the engine takes it. -/
theorem Parameter.fits_bound {d : Dialect} {v : Value} (h : v.isList = false) (name : String) :
    (Parameter.bound d name v).Fits d := by
  refine ⟨?_, fun hbool => ?_, rfl⟩
  · show (d.encode v).isList = false
    unfold Dialect.encode
    split
    · exact h
    · cases v <;> first | rfl | cases h
  · by_contra hnone
    have hencode := Dialect.isBool_encode (Bool.eq_false_iff.mpr hnone) v
    exact Bool.false_ne_true (hencode.symm.trans hbool)

/-- What is added is as the engine takes it. -/
theorem Surroundings.Grows.fits {s : Surroundings} {b b' : Binder} {ps : List Parameter}
    (h : s.Grows b ps b') : ∀ p ∈ ps, p.Fits s.dialect := by
  induction h with
  | none => simp
  | more _ hvalue _ ih => exact List.forall_mem_cons.mpr ⟨Parameter.fits_bound hvalue _, ih⟩

/-- The names of the parameters of a binder differ from each other and from reserved names,
whatever the case of their letters, and each parameter is as the engine takes it. -/
structure Binder.Sound (d : Dialect) (reserved : List String) (b : Binder) : Prop where
  distinct : (foldedNames b.parameters).Nodup
  apart : ∀ name ∈ reserved, Text.foldCase name ∉ foldedNames b.parameters
  fits : ∀ p ∈ b.parameters, p.Fits d

/-- What is added to a binder without parameters makes it sound. -/
theorem Surroundings.Grows.sound {s : Surroundings} {reserved : List String} {b : Binder}
    {ps : List Parameter} (h : s.Grows (Binder.avoiding reserved) ps b) :
    b.Sound s.dialect reserved := by
  have hparameters : b.parameters = ps := by simpa [Binder.avoiding] using h.parameters_eq
  obtain ⟨hnodup, hfresh⟩ := h.names_fresh
  refine ⟨hparameters ▸ hnodup, fun name hname hmem => ?_, hparameters ▸ h.fits⟩
  exact hfresh _ (hparameters ▸ hmem)
    (Binder.mem_taken_avoiding.mpr (List.mem_map_of_mem hname))

/-- After any steps the binder is sound, and further steps leave its parameters at the front. One
more step adds parameters behind them, none for a projection or an order, and a text that it
succeeds with is the expression, printed with the placeholders of just these. -/
theorem steps_keep_binder_sound (s : Surroundings) (reserved : List String)
    (es : List Expression) :
    (s.after (Binder.avoiding reserved) es).Sound s.dialect reserved ∧
    (∀ es', (s.after (Binder.avoiding reserved) es).parameters <+:
      (s.after (Binder.avoiding reserved) (es ++ es')).parameters) ∧
    ∀ e, ∃ ps,
      (s.after (Binder.avoiding reserved) (es ++ [e])).parameters =
        (s.after (Binder.avoiding reserved) es).parameters ++ ps ∧
      (e.holdsNoValue = true → ps = []) ∧
      ∀ text, ((s.write e).runFrom (s.after (Binder.avoiding reserved) es)).1 = .ok text →
        (e.print s.metadata).run (s.placeholders ps) = some (text, []) := by
  obtain ⟨_, hbefore⟩ := s.after_grows (Binder.avoiding reserved) es
  refine ⟨hbefore.sound, fun es' => ?_, fun e => ?_⟩
  · obtain ⟨qs, hmore⟩ := s.after_grows (s.after (Binder.avoiding reserved) es) es'
    rw [s.after_append, hmore.parameters_eq]
    exact List.prefix_append _ qs
  · obtain ⟨ps, hstep, hprinted⟩ := s.write_adds e (s.after (Binder.avoiding reserved) es)
    have hafter := hstep.parameters_eq
    refine ⟨ps, by rw [s.after_append]; exact hafter, fun hnone => ?_, fun text htext => ?_⟩
    · rw [Surroundings.runFrom_write_of_holdsNoValue hnone] at hafter
      simpa using hafter
    · simpa using hprinted text htext []

end EntitySql
