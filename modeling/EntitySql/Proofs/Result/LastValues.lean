import EntitySql.Proofs.Result.Columns
import Mathlib.Data.List.Nodup

/-!
# Which values of a row count

A row is read from left to right: every value that is not null goes into the member that
its column leads to, and a later value takes the place of an earlier one. So each member
holds what the last of its values becomes, the first value that does not fit is the fault,
and values that go into no member might as well not be there.
-/

namespace EntitySql

namespace Metadata

/-- The member that a value of a row goes into: the one that its column leads to, unless the value
is null. -/
def target? (m : Metadata) (cell : String × Value) : Option Member :=
  if cell.2.isNull then none else m.resolve? cell.1

/-- A value fits when it goes into no member, or the member that it goes into accepts it. -/
def Fits (m : Metadata) (cell : String × Value) : Prop :=
  ∀ f, m.target? cell = some f → ∃ w, f.type.store cell.2 = .ok w

/-- The last of the values that go into a member. -/
def lastValue? (m : Metadata) (cells : List (String × Value)) (f : Member) : Option Value :=
  (cells.reverse.find? fun cell => m.target? cell == some f).map Prod.snd

/-- What a member holds after values were read: what its last value becomes, or what it held before
if it has none. -/
def heldAfter (m : Metadata) (start : Member → Value) (cells : List (String × Value)) (f : Member) :
    Except Fault Value :=
  match m.lastValue? cells f with
  | none => .ok (start f)
  | some v => f.type.store v

/-- What a value becomes in the member that it goes into, if there is one. -/
def convert (m : Metadata) (cell : String × Value) : Except Fault (Option Value) :=
  match m.target? cell with
  | none => .ok none
  | some f => (f.type.store cell.2).map some

variable {mapping : Mapping} {m : Metadata} {f : Member} {cell : String × Value}
  {cells : List (String × Value)} {start : Member → Value} {w : Value}

/-- The value before all others is the last one of a member if there is no other. -/
theorem lastValue?_cons (m : Metadata) (cell : String × Value) (cells : List (String × Value))
    (f : Member) : m.lastValue? (cell :: cells) f =
      (m.lastValue? cells f).or (if m.target? cell = some f then some cell.2 else none) := by
  rw [lastValue?, lastValue?, List.reverse_cons, List.find?_append, Option.map_or]
  by_cases htarget : m.target? cell = some f
  · simp [htarget]
  · simp [htarget]

/-- A value that goes into no member is not the last value of a member. -/
theorem heldAfter_cons_of_none (h : m.target? cell = none) :
    m.heldAfter start (cell :: cells) = m.heldAfter start cells := by
  funext f
  rw [heldAfter, heldAfter, lastValue?_cons, h, if_neg nofun, Option.or_none]

/-- A value that a member accepted is what the member held before the later values. -/
theorem heldAfter_cons_of_some (h : m.target? cell = some f)
    (hstore : f.type.store cell.2 = .ok w) :
    m.heldAfter start (cell :: cells) = m.heldAfter (Function.update start f w) cells := by
  funext g
  rw [heldAfter, heldAfter, lastValue?_cons, h]
  cases m.lastValue? cells g with
  | some v => rfl
  | none =>
    by_cases hg : f = g
    · subst hg
      simp [hstore]
    · simp [hg, Ne.symm hg]

/-- The members of a valid mapping differ. -/
theorem nodup_members (hm : ofMapping mapping = .ok m) : m.members.Nodup :=
  (nodup_names hm).of_map _

/-- A value fits exactly when it is converted. -/
theorem fits_iff : m.Fits cell ↔ ∃ y, m.convert cell = .ok y := by
  unfold Fits convert
  cases m.target? cell with
  | none => simp
  | some f => cases hstore : f.type.store cell.2 <;> simp [hstore, Except.map]

end Metadata

/-- Steps for items in a row are the first step and then the others. -/
theorem mapM_cons_bind {ε α β γ : Type} (f : α → Except ε β) (x : α) (xs : List α)
    (r : Except ε γ) :
    ((x :: xs).mapM f >>= fun _ => r) = f x >>= fun _ => xs.mapM f >>= fun _ => r := by
  rw [List.mapM_cons]
  cases f x with
  | error e => rfl
  | ok y => cases xs.mapM f <;> rfl

/-- Of values that differ, one is given a new image by its place. -/
theorem set_map_of_nodup {α β : Type} [DecidableEq α] {before after : List α} {a : α} {f : α → β}
    {b : β} (h : (before ++ a :: after).Nodup) :
    ((before ++ a :: after).map f).set before.length b =
      (before ++ a :: after).map (Function.update f a b) := by
  have hfirst : a ∉ before := fun ha => (List.nodup_append.mp h).2.2 a ha a List.mem_cons_self rfl
  rw [h.map_update, if_pos List.mem_append_cons_self,
    List.idxOf_append_of_notMem hfirst, List.idxOf_cons_self, Nat.add_zero]

namespace Reader

variable {t : EntityType} {m : Metadata} {f : Member} {cell : String × Value}
  {start : Member → Value} {w : Value}

/-- Each value of a row goes through the accessor that its column is read through. -/
theorem pairs_eq (t : EntityType) (m : Metadata) (row : Row) :
    pairs t m row = row.pairs.map fun cell => (slot t m cell.1, cell.2) := by
  rw [pairs, Row.pairs, List.zip_map_left]
  rfl

/-- A value that goes into no member changes nothing. -/
theorem fill_cons_of_none (h : m.target? cell = none) (x : Instance)
    (rest : List (Option Accessor × Value)) :
    fill x ((slot t m cell.1, cell.2) :: rest) = fill x rest := by
  unfold Metadata.target? at h
  split at h
  · rename_i hnull
    cases slot t m cell.1 with
    | none => rfl
    | some a => rw [fill, if_pos hnull]
  · rw [slot, h, Option.bind_none, fill]

/-- A value that goes into a member takes the place of what the member holds, or is the fault. -/
theorem fill_cons_of_some (hm : Metadata.ofMapping t.mapping = .ok m)
    (h : m.target? cell = some f) (start : Member → Value)
    (rest : List (Option Accessor × Value)) :
    fill ⟨m.members.map start⟩ ((slot t m cell.1, cell.2) :: rest) =
      f.type.store cell.2 >>= fun w => fill ⟨m.members.map (Function.update start f w)⟩ rest := by
  unfold Metadata.target? at h
  split at h
  · cases h
  · rename_i hnull
    obtain ⟨before, after, hsplit⟩ := List.append_of_mem (Metadata.mem_of_resolve?_eq_some h)
    rw [slot_of_resolve? hm hsplit h, fill, if_neg hnull, Accessor.set]
    cases f.type.store cell.2 with
    | error e => rfl
    | ok w =>
      show fill ⟨(m.members.map start).set before.length w⟩ rest =
        fill ⟨m.members.map (Function.update start f w)⟩ rest
      have hnodup := Metadata.nodup_members hm
      rw [hsplit] at hnodup ⊢
      rw [set_map_of_nodup hnodup]

/-- Reading values converts them one after the other, up to the first that does not fit, and then
each member holds what its last value became. -/
theorem fill_cells (hm : Metadata.ofMapping t.mapping = .ok m) (start : Member → Value)
    (cells : List (String × Value)) :
    fill ⟨m.members.map start⟩ (cells.map fun cell => (slot t m cell.1, cell.2)) =
      cells.mapM m.convert >>= fun _ =>
        (m.members.mapM (m.heldAfter start cells)).map Instance.mk := by
  induction cells generalizing start with
  | nil =>
    have hheld : m.members.mapM (m.heldAfter start []) = .ok (m.members.map start) := by
      rw [mapM_eq_ok_iff, List.forall₂_map_right_iff, List.forall₂_same]
      exact fun _ _ => rfl
    rw [hheld]
    rfl
  | cons cell cells ih =>
    rw [List.map_cons, mapM_cons_bind, Metadata.convert]
    cases htarget : m.target? cell with
    | none =>
      rw [fill_cons_of_none htarget, ih, Metadata.heldAfter_cons_of_none htarget]
      rfl
    | some f =>
      rw [fill_cons_of_some hm htarget]
      dsimp only
      cases hstore : f.type.store cell.2 with
      | error e => rfl
      | ok w =>
        rw [Metadata.heldAfter_cons_of_some htarget hstore]
        exact ih _

/-- On a valid type, what is read from a row is settled by its values one after the other. -/
theorem read_eq (hm : Metadata.ofMapping t.mapping = .ok m) (row : Row) :
    read ⟨t.blank, row.columns.map (slot t m)⟩ row =
      row.pairs.mapM m.convert >>= fun _ =>
        (m.members.mapM (m.heldAfter t.initial row.pairs)).map Instance.mk := by
  have hpairs := pairs_eq t m row
  unfold pairs at hpairs
  rw [read, hpairs, EntityType.blank_eq hm, fill_cells hm]

end Reader

namespace Metadata

variable {m : Metadata} {start : Member → Value} {cells : List (String × Value)}

/-- All values are converted exactly when each of them fits. -/
theorem exists_mapM_convert_iff :
    (∃ ys, cells.mapM m.convert = .ok ys) ↔ ∀ cell ∈ cells, m.Fits cell := by
  simp only [exists_mapM_eq_ok_iff, fits_iff]

end Metadata

/-- A row is read exactly when all its values fit, and then each member holds what its last value
became. -/
theorem Reader.read_eq_ok_iff {t : EntityType} {m : Metadata} {row : Row} {x : Instance}
    (hm : Metadata.ofMapping t.mapping = .ok m) :
    Reader.read ⟨t.blank, row.columns.map (slot t m)⟩ row = .ok x ↔
      (∀ cell ∈ row.pairs, m.Fits cell) ∧
        List.Forall₂ (fun f w => m.heldAfter t.initial row.pairs f = .ok w) m.members x.values := by
  rw [read_eq hm, bind_eq_ok_iff, ← Metadata.exists_mapM_convert_iff, ← mapM_eq_ok_iff]
  constructor
  · rintro ⟨ys, hys, hheld⟩
    obtain ⟨ws, hws, rfl⟩ := map_eq_ok_iff.mp hheld
    exact ⟨⟨ys, hys⟩, hws⟩
  · rintro ⟨⟨ys, hys⟩, hheld⟩
    exact ⟨ys, hys, map_eq_ok_iff.mpr ⟨x.values, hheld, rfl⟩⟩

namespace EntityType.jobs

/-- A row with two values for the key, a number of the row, and no number of retries. -/
def row : Row :=
  ⟨["ID", "rn", "ID", "RETRIES"], [.int64 1, .string "x", .int64 7, .null]⟩

end EntityType.jobs

section Jobs

open EntityType.jobs

end Jobs

end EntitySql
