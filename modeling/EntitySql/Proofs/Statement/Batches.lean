import EntitySql.Proofs.Fallible
import EntitySql.Proofs.Sql.Placeholder
import EntitySql.Proofs.Statement.Drafts
import Mathlib.Algebra.Order.Floor.Div

/-!
# Batches and their parts

A batch drafts its items one by one, each with its place in the whole batch, and joins
the drafts of each chunk. Where the chunks end does not matter for the parts.
-/

namespace EntitySql

variable {ε α β γ : Type}

/-- The chunks of a list make up the list. -/
theorem flatten_chunks (size : Nat) (items : List α) :
    (chunks size items).flatten = items := by
  fun_induction chunks size items with
  | case1 items hempty => rw [List.isEmpty_iff.mp hempty, List.flatten_nil]
  | case2 items _ ih => rw [List.flatten_cons, ih, List.take_append_drop]

/-- A first chunk that is full, or is the last, stands in front of the chunks of the rest. -/
theorem chunks_append {size : Nat} {xs ys : List α} (hne : xs ≠ []) (hle : xs.length ≤ max size 1)
    (hfull : ys ≠ [] → xs.length = max size 1) :
    chunks size (xs ++ ys) = xs :: chunks size ys := by
  have hsome : ¬(xs ++ ys).isEmpty := by simp [hne]
  rw [chunks, if_neg hsome]
  cases ys with
  | nil => simp [List.take_of_length_le hle, List.drop_eq_nil_of_le hle]
  | cons y ys =>
    have hlength := hfull (List.cons_ne_nil y ys)
    rw [← hlength, List.take_left, List.drop_left]

/-- Steps chunk by chunk are steps for the whole list, whose results are then cut into chunks. -/
theorem mapM_chunks {f : α → Except ε β} (g : List β → γ) (size : Nat) (items : List α) :
    (chunks size items).mapM (fun chunk => do return g (← chunk.mapM f)) =
      (items.mapM f).map fun results => (chunks size results).map g := by
  fun_induction chunks size items with
  | case1 items hempty =>
    rw [List.isEmpty_iff.mp hempty]
    show _ = Except.ok ((chunks size ([] : List β)).map g)
    rw [chunks]
    rfl
  | case2 items hempty ih =>
    have hsplit : items.mapM f = (do
        let first ← (items.take (max size 1)).mapM f
        let rest ← (items.drop (max size 1)).mapM f
        return first ++ rest) := by
      rw [← List.mapM_append, List.take_append_drop]
    rw [List.mapM_cons, ih, hsplit]
    cases hfirst : (items.take (max size 1)).mapM f with
    | error e => rfl
    | ok first =>
      cases hrest : (items.drop (max size 1)).mapM f with
      | error e => rfl
      | ok rest =>
        have hlength := (mapM_eq_ok_iff.mp hfirst).length_eq
        have hlength' := (mapM_eq_ok_iff.mp hrest).length_eq
        have hitems : 0 < items.length := List.length_pos_iff.mpr (by simpa using hempty)
        rw [List.length_take] at hlength
        rw [List.length_drop] at hlength'
        have hchunks : chunks size (first ++ rest) = first :: chunks size rest := by
          refine chunks_append (List.length_pos_iff.mp (by omega)) (by omega) fun hne => ?_
          have := List.length_pos_iff.mpr hne
          omega
        show Except.ok (g first :: (chunks size rest).map g) =
          Except.ok ((chunks size (first ++ rest)).map g)
        rw [hchunks, List.map_cons]

/-- There are as many chunks as it takes to hold all items. -/
theorem length_chunks (size : Nat) (items : List α) :
    (chunks size items).length = items.length ⌈/⌉ max size 1 := by
  fun_induction chunks size items with
  | case1 items hempty => simp [List.isEmpty_iff.mp hempty]
  | case2 items hempty ih =>
    have hitems : 0 < items.length := List.length_pos_iff.mpr (by simpa using hempty)
    rw [List.length_cons, ih, List.length_drop, Nat.ceilDiv_eq_add_pred_div,
      Nat.ceilDiv_eq_add_pred_div]
    have hsize : 0 < max size 1 := by omega
    have hone : items.length + max size 1 - 1 = items.length - 1 + max size 1 := by omega
    rw [hone, Nat.add_div_right _ hsize]
    rcases le_total items.length (max size 1) with hle | hle
    · rw [Nat.div_eq_of_lt (by omega), Nat.div_eq_of_lt (by omega)]
    · congr 2
      omega

/-- There are several chunks when one does not hold all items. -/
theorem one_lt_length_chunks_iff {size : Nat} {items : List α} :
    1 < (chunks size items).length ↔ max size 1 < items.length := by
  have hsize : 0 < max size 1 := by omega
  rw [length_chunks, ← not_iff_not, not_lt, not_lt, ceilDiv_le_iff_le_smul hsize, smul_eq_mul,
    Nat.mul_one]

/-- Items that one chunk holds are that chunk. -/
theorem chunks_of_length_le {size : Nat} {items : List α} (hne : items ≠ [])
    (hle : items.length ≤ max size 1) : chunks size items = [items] := by
  have hrest : chunks size ([] : List α) = [] := by
    rw [chunks]
    rfl
  have happend : chunks size (items ++ []) = items :: chunks size [] :=
    chunks_append hne hle nofun
  rwa [List.append_nil, hrest] at happend

/-- A chunk is neither empty nor greater than asked for. -/
theorem length_of_mem_chunks {size : Nat} {items chunk : List α} (h : chunk ∈ chunks size items) :
    1 ≤ chunk.length ∧ chunk.length ≤ max size 1 := by
  fun_induction chunks size items with
  | case1 => cases h
  | case2 items hempty ih =>
    have hitems : 0 < items.length := List.length_pos_iff.mpr (by simpa using hempty)
    rcases List.mem_cons.mp h with rfl | h
    · rw [List.length_take]
      omega
    · exact ih h

/-- A successful batch consists of the drafts of its items in order, joined in groups. -/
theorem draftBatch_eq_ok {α : Type} {d : Dialect} {size : Nat}
    {draft : String → α → Except Fault Draft} {items : List α} {ds : List Draft}
    (h : draftBatch d size draft items = .ok ds) :
    ∃ groups : List (List Draft),
      List.Forall₂ (fun item part => draftAt draft item = .ok part) items.zipIdx groups.flatten ∧
        ds = groups.map (Draft.join d.terminator) := by
  have hgroups {cs : List (List (α × Nat))} {ds : List Draft}
      (h : List.Forall₂ (fun chunk x => (do
        let drafts ← chunk.mapM (draftAt draft)
        return Draft.join d.terminator drafts : Except Fault Draft) = .ok x) cs ds) :
      ∃ groups : List (List Draft),
        List.Forall₂ (fun item part => draftAt draft item = .ok part) cs.flatten groups.flatten ∧
          ds = groups.map (Draft.join d.terminator) := by
    induction h with
    | nil => exact ⟨[], .nil, rfl⟩
    | cons hchunk _ ih =>
      obtain ⟨groups, hparts, rfl⟩ := ih
      obtain ⟨parts, hmap, hjoin⟩ := bind_eq_ok_iff.mp hchunk
      cases hjoin
      exact ⟨parts :: groups, List.rel_append (mapM_eq_ok_iff.mp hmap) hparts, rfl⟩
  unfold draftBatch at h
  have hitems := hgroups (mapM_eq_ok_iff.mp h)
  rwa [flatten_chunks] at hitems

/-- The parameters of a batch are those of its parts in order. -/
theorem flatMap_parameters_join (terminator : String) (groups : List (List Draft)) :
    (groups.map (Draft.join terminator)).flatMap (·.parameters) =
      groups.flatten.flatMap (·.parameters) := by
  induction groups with
  | nil => rfl
  | cons parts groups ih =>
    rw [List.map_cons, List.flatMap_cons, ih, List.flatten_cons, List.flatMap_append]
    rfl

variable {d : Dialect} {rows : List Draft}

/-- Joining the texts of groups joins the texts of all their members. -/
theorem intercalate_flatten (separator : String) {groups : List (List String)}
    (hsome : ∀ g ∈ groups, g ≠ []) :
    separator.intercalate (groups.map separator.intercalate) =
      separator.intercalate groups.flatten := by
  have happend (xs ys : List String) (hxs : xs ≠ []) (hys : ys ≠ []) :
      separator.intercalate (xs ++ ys) =
        separator.intercalate xs ++ separator ++ separator.intercalate ys := by
    induction xs with
    | nil => exact absurd rfl hxs
    | cons x xs ih =>
      by_cases hnil : xs = []
      · subst hnil
        simp [String.intercalate_cons_of_ne_nil hys]
      · have hmore : xs ++ ys ≠ [] := by simp [hnil]
        rw [List.cons_append, String.intercalate_cons_of_ne_nil hmore,
          String.intercalate_cons_of_ne_nil hnil, ih hnil]
        simp only [String.append_assoc]
  induction groups with
  | nil => rfl
  | cons g groups ih =>
    have hg : g ≠ [] := hsome g List.mem_cons_self
    have hrest : ∀ g ∈ groups, g ≠ [] := fun g hg => hsome g (List.mem_cons_of_mem _ hg)
    by_cases hnil : groups = []
    · subst hnil
      simp
    · have hmap : groups.map separator.intercalate ≠ [] := by simpa using hnil
      have hflatten : groups.flatten ≠ [] := by
        obtain ⟨first, others, rfl⟩ := List.exists_cons_of_ne_nil hnil
        simp [hrest first List.mem_cons_self]
      rw [List.map_cons, String.intercalate_cons_of_ne_nil hmap, ih hrest, List.flatten_cons,
        happend g _ hg hflatten]

/-- The statements of rows in groups of one to `size` rows, a size of zero counting as one, and as
few groups as can hold them. -/
def Cut (d : Dialect) (size : Nat) (rows : List Draft) (ss : List Statement) : Prop :=
  ∃ groups : List (List Draft), groups.flatten = rows ∧
    groups.length = rows.length ⌈/⌉ max size 1 ∧
    (∀ g ∈ groups, 1 ≤ g.length ∧ g.length ≤ max size 1) ∧
    ss = groups.map fun g => (Draft.join d.terminator g).statement d

/-- Chunks are a cut. -/
theorem cut_chunks (d : Dialect) (size : Nat) (rows : List Draft) :
    Cut d size rows
      ((chunks size rows).map fun part => (Draft.join d.terminator part).statement d) :=
  ⟨chunks size rows, flatten_chunks size rows, length_chunks size rows,
    fun _ => length_of_mem_chunks, rfl⟩

/-- The joined texts of a cut are the joined texts of the rows. -/
theorem Cut.text_eq {size : Nat} {ss : List Statement} (h : Cut d size rows ss) :
    d.terminator.intercalate (ss.map (·.text)) =
      d.terminator.intercalate (rows.map fun row => row.phrase.render d.marker) := by
  obtain ⟨groups, rfl, -, hlength, rfl⟩ := h
  have htexts : (groups.map fun g => (Draft.join d.terminator g).statement d).map (·.text) =
      (groups.map (·.map fun row => row.phrase.render d.marker)).map d.terminator.intercalate := by
    simp only [List.map_map]
    refine List.map_congr_left fun g _ => ?_
    simp [Draft.statement, Draft.join, Phrase.render_join, Function.comp_def]
  have hsome : ∀ g ∈ groups.map (·.map fun row => row.phrase.render d.marker), g ≠ [] := by
    intro g hg
    obtain ⟨part, hpart, rfl⟩ := List.mem_map.mp hg
    have := (hlength part hpart).1
    simp only [ne_eq, List.map_eq_nil_iff]
    rintro rfl
    simp at this
  rw [htexts, intercalate_flatten _ hsome, List.map_flatten]

/-- The parameters of a cut are those of the rows. -/
theorem Cut.parameters_eq {size : Nat} {ss : List Statement} (h : Cut d size rows ss) :
    ss.flatMap (·.parameters) = rows.flatMap (·.parameters) := by
  obtain ⟨groups, rfl, -, -, rfl⟩ := h
  rw [← flatMap_parameters_join d.terminator groups, List.flatMap_map, List.flatMap_map]
  rfl

end EntitySql
