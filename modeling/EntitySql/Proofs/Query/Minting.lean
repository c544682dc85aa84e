import EntitySql.Proofs.Text.Names
import EntitySql.Query.Binding
import Mathlib.Data.List.Nodup
import Mathlib.Data.List.Perm.Subperm

/-!
# Minting names

A binder tries a base, then the base with the numbers from one on, and takes the
first candidate that is free. The candidates differ from each other, so one more
candidate than there are taken names is enough to find a free one.
-/

namespace EntitySql.Binder

/-- Candidates after the first are the base with a number after it. -/
theorem candidate_succ (base : String) (k : Nat) :
    candidate base (k + 1) = base ++ ("_" ++ toString (k + 1)) := by
  simp [candidate, String.append_assoc]

/-- The candidates of a base differ, whatever the case of their letters. -/
theorem foldCase_candidate_inj {base : String} {j k : Nat}
    (h : Text.foldCase (candidate base j) = Text.foldCase (candidate base k)) : j = k := by
  have hlength (n : Nat) : (Text.foldCase base).toList ≠
      (Text.foldCase (candidate base (n + 1))).toList := by
    intro heq
    have hlen := congrArg List.length heq
    rw [candidate_succ, Text.foldCase_append, Text.foldCase_number] at hlen
    simp only [String.toList_append, List.length_append] at hlen
    have : ("_" : String).toList.length = 1 := rfl
    omega
  cases j with
  | zero =>
    cases k with
    | zero => rfl
    | succ k => exact absurd (congrArg String.toList h) (hlength k)
  | succ j =>
    cases k with
    | zero => exact absurd (congrArg String.toList h.symm) (hlength j)
    | succ k =>
      simp only [candidate_succ, Text.foldCase_append base, Text.foldCase_number] at h
      exact (Text.append_number_inj h).2

/-- Looking for a free candidate stops at the first one, or when the tries are used up. -/
theorem firstFree_spec (taken : Std.HashSet String) (base : String) (tries k : Nat) :
    ∃ j ≤ tries, firstFree taken base tries k = candidate base (k + j) ∧
      (∀ i < j, Text.foldCase (candidate base (k + i)) ∈ taken) ∧
      (j < tries → Text.foldCase (candidate base (k + j)) ∉ taken) := by
  induction tries generalizing k with
  | zero => exact ⟨0, Nat.le_refl 0, rfl, by simp, by simp⟩
  | succ tries ih =>
    unfold firstFree
    by_cases hk : Text.foldCase (candidate base k) ∈ taken
    · rw [if_pos (Std.HashSet.contains_iff_mem.mpr hk)]
      obtain ⟨j, hj, heq, hbefore, hfree⟩ := ih (k + 1)
      have hshift (i : Nat) : k + (i + 1) = k + 1 + i := by omega
      refine ⟨j + 1, by omega, by rw [heq, ← hshift], fun i hi => ?_, fun hlt => ?_⟩
      · cases i with
        | zero => exact hk
        | succ i =>
          rw [hshift]
          exact hbefore i (by omega)
      · rw [hshift]
        exact hfree (by omega)
    · rw [if_neg (by simpa using hk)]
      exact ⟨0, by omega, rfl, by simp, fun _ => hk⟩

/-- Not all of as many candidates as there are taken names and one more are taken. -/
theorem exists_free_candidate (taken : Std.HashSet String) (base : String) :
    ∃ k ≤ taken.size, Text.foldCase (candidate base k) ∉ taken := by
  by_contra hnone
  have hall (k : Nat) (hk : k ≤ taken.size) : Text.foldCase (candidate base k) ∈ taken :=
    by_contra fun hfree => hnone ⟨k, hk, hfree⟩
  let tried := (List.range (taken.size + 1)).map fun k => Text.foldCase (candidate base k)
  have hnodup : tried.Nodup :=
    List.Nodup.map (fun _ _ h => foldCase_candidate_inj h) List.nodup_range
  have hsubset : tried ⊆ taken.toList := by
    intro name hname
    obtain ⟨k, hk, rfl⟩ := List.mem_map.mp hname
    exact Std.HashSet.mem_toList.mpr (hall k (by simpa [Nat.lt_succ_iff] using hk))
  have hlength := (hnodup.subperm hsubset).length_le
  simp only [tried, List.length_map, List.length_range, Std.HashSet.length_toList] at hlength
  omega

/-- The minted name is the first candidate that is free, and it is found within as many further
tries as there are taken names. -/
theorem mint_spec (taken : Std.HashSet String) (base : String) :
    ∃ k ≤ taken.size, mint taken base = candidate base k ∧
      (∀ i < k, Text.foldCase (candidate base i) ∈ taken) ∧
      Text.foldCase (candidate base k) ∉ taken := by
  obtain ⟨k, hk, heq, hbefore, hfree⟩ := firstFree_spec taken base taken.size 0
  simp only [Nat.zero_add] at heq hbefore hfree
  refine ⟨k, hk, heq, hbefore, ?_⟩
  rcases Nat.lt_or_eq_of_le hk with hlt | rfl
  · exact hfree hlt
  · obtain ⟨j, hj, hjfree⟩ := exists_free_candidate taken base
    rcases Nat.lt_or_eq_of_le hj with hlt | rfl
    · exact absurd (hbefore j hlt) hjfree
    · exact hjfree

/-- The minted name is not taken, whatever the case of its letters. -/
theorem mint_not_taken (taken : Std.HashSet String) (base : String) :
    Text.foldCase (mint taken base) ∉ taken := by
  obtain ⟨k, _, heq, _, hfree⟩ := mint_spec taken base
  rwa [heq]

/-- The names to avoid are taken from the beginning, whatever the case of their letters. -/
theorem mem_taken_avoiding {names : List String} {folded : String} :
    folded ∈ (avoiding names).taken ↔ folded ∈ names.map Text.foldCase := by
  have hfold (taken : Std.HashSet String) :
      folded ∈ names.foldl (fun s n => s.insert (Text.foldCase n)) taken ↔
        folded ∈ taken ∨ folded ∈ names.map Text.foldCase := by
    induction names generalizing taken with
    | nil => simp
    | cons n names ih =>
      rw [List.foldl_cons, ih, Std.HashSet.mem_insert, beq_iff_eq, List.map_cons, List.mem_cons,
        eq_comm, or_assoc, or_left_comm]
  rw [avoiding, hfold]
  simp

/-- A candidate of a name is a name. -/
theorem isIdentifier_candidate {base : String} (h : Text.isIdentifier base = true) (k : Nat) :
    Text.isIdentifier (candidate base k) = true := by
  cases k with
  | zero => exact h
  | succ k =>
    rw [candidate_succ]
    refine Text.isIdentifier_append h fun c hc => ?_
    rcases List.mem_append.mp (String.toList_append ▸ hc) with hc | hc
    · rw [List.mem_singleton.mp hc]
      decide
    · exact Text.continuesName_of_isDigit (Text.isDigit_of_mem_toString hc)

end EntitySql.Binder
