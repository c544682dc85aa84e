import EntitySql.Proofs.Query.Minting
import Mathlib.Order.Bounds.Basic

/-!
# The search for a free name

A name is searched by trying one after the other, and each try puts its name among those
in use. Nothing in a try bounds how many follow it. The search ends all the same: no two
of the tried names are the same, and only as many of them can be in vain as names are in
use. It ends with the name that a binder gives to its next parameter.
-/

namespace EntitySql

/-- Where a search for a free name stands: the folded names in use, the number of tries so far, and
the name that is tried next. -/
structure Search where
  taken : Std.HashSet String
  repeats : Nat
  name : String

/-- What a try comes to: the search goes on, or a name is found and in use from now on. -/
inductive Search.Outcome where
  | again (s : Search)
  | found (name : String) (taken : Std.HashSet String)

namespace Search

/-- A search starts with the base itself. -/
def start (taken : Std.HashSet String) (base : String) : Search :=
  ⟨taken, 0, base⟩

/-- One try. After a name that is in use, the next one is the base with the number of tries. -/
def attempt (base : String) (s : Search) : Outcome :=
  if s.taken.contains (Text.foldCase s.name) then
    .again ⟨s.taken, s.repeats + 1, base ++ "_" ++ toString (s.repeats + 1)⟩
  else .found s.name (s.taken.insert (Text.foldCase s.name))

/-- A search ends after some tries with a name and the names that are then in use. A search that
goes on for ever does not end. -/
inductive Ends (base : String) : Search → Nat → String → Std.HashSet String → Prop
  | found {s : Search} {name : String} {taken : Std.HashSet String}
      (h : s.attempt base = .found name taken) : Ends base s 1 name taken
  | again {s s' : Search} {tries : Nat} {name : String} {taken : Std.HashSet String}
      (h : s.attempt base = .again s') (hrest : Ends base s' tries name taken) :
      Ends base s (tries + 1) name taken

variable {taken taken' : Std.HashSet String} {base name : String} {k tries : Nat}

/-- A search that has come to a candidate. -/
def reaching (taken : Std.HashSet String) (base : String) (k : Nat) : Search :=
  ⟨taken, k, Binder.candidate base k⟩

/-- A candidate that is in use is followed by the next one. -/
theorem attempt_reaching_of_mem (h : Text.foldCase (Binder.candidate base k) ∈ taken) :
    (reaching taken base k).attempt base = .again (reaching taken base (k + 1)) :=
  if_pos (Std.HashSet.contains_iff_mem.mpr h)

/-- A candidate that is free is found. -/
theorem attempt_reaching_of_not_mem (h : Text.foldCase (Binder.candidate base k) ∉ taken) :
    (reaching taken base k).attempt base =
      .found (Binder.candidate base k) (taken.insert (Text.foldCase (Binder.candidate base k))) :=
  if_neg fun hcontains => h (Std.HashSet.contains_iff_mem.mp hcontains)

/-- The candidates in use are tried in vain, and the first that is free is found. -/
theorem ends_reaching_of_free {j : Nat}
    (hbefore : ∀ i < j, Text.foldCase (Binder.candidate base (k + i)) ∈ taken)
    (hfree : Text.foldCase (Binder.candidate base (k + j)) ∉ taken) :
    Ends base (reaching taken base k) (j + 1) (Binder.candidate base (k + j))
      (taken.insert (Text.foldCase (Binder.candidate base (k + j)))) := by
  induction j generalizing k with
  | zero => exact .found (attempt_reaching_of_not_mem hfree)
  | succ j ih =>
    have hshift (i : Nat) : k + (i + 1) = k + 1 + i := by omega
    refine .again (attempt_reaching_of_mem (hbefore 0 (Nat.zero_lt_succ j))) ?_
    rw [hshift j] at hfree ⊢
    refine ih (fun i hi => ?_) hfree
    rw [← hshift]
    exact hbefore (i + 1) (Nat.succ_lt_succ hi)

/-- A search ends in one way only. -/
theorem Ends.unique {s : Search} {tries' : Nat} {name' : String}
    (h : Ends base s tries name taken) (h' : Ends base s tries' name' taken') :
    tries' = tries ∧ name' = name ∧ taken' = taken := by
  induction h generalizing tries' with
  | found h =>
    cases h' with
    | found h' =>
      obtain ⟨hname, htaken⟩ := Outcome.found.inj (h'.symm.trans h)
      exact ⟨rfl, hname, htaken⟩
    | again h' _ => cases h'.symm.trans h
  | again h _ ih =>
    cases h' with
    | found h' => cases h'.symm.trans h
    | again h' hrest =>
      obtain rfl := Outcome.again.inj (h'.symm.trans h)
      obtain ⟨htries, hname, htaken⟩ := ih hrest
      exact ⟨congrArg (· + 1) htries, hname, htaken⟩

/-- A search from a base ends, with the first candidate that is free, and takes no more tries than
there are names in use and one more. -/
theorem exists_ends (taken : Std.HashSet String) (base : String) :
    ∃ k ≤ taken.size, (∀ i < k, Text.foldCase (Binder.candidate base i) ∈ taken) ∧
      Text.foldCase (Binder.candidate base k) ∉ taken ∧
      Binder.mint taken base = Binder.candidate base k ∧
      Ends base (start taken base) (k + 1) (Binder.candidate base k)
        (taken.insert (Text.foldCase (Binder.candidate base k))) := by
  obtain ⟨k, hk, hmint, hbefore, hfree⟩ := Binder.mint_spec taken base
  refine ⟨k, hk, hbefore, hfree, hmint, ?_⟩
  have hends : Ends base (reaching taken base 0) (k + 1) (Binder.candidate base (0 + k)) _ :=
    ends_reaching_of_free (by simpa using hbefore) (by simpa using hfree)
  rwa [Nat.zero_add] at hends

end Search

namespace Binder

/-- A name is free when it is not in use, whatever the case of its letters. -/
def Free (b : Binder) (name : String) : Prop :=
  Text.foldCase name ∉ b.taken

/-- The names that are free beside given ones differ from each of them in more than the case of
letters. -/
theorem free_avoiding_iff {names : List String} {name : String} :
    (avoiding names).Free name ↔ ∀ used ∈ names, Text.sameName used name = false := by
  simp [Free, mem_taken_avoiding, Text.sameName]

/-- The name that a search from a base finds first: the base itself if it is free, and otherwise the
base with the least number from one on with which it is free. -/
structure FindsFirst (b : Binder) (base : String) (tries : Nat) (name : String) : Prop where
  bare : b.Free base → name = base ∧ tries = 1
  numbered : ¬b.Free base → ∃ k, IsLeast {k : Nat | 1 ≤ k ∧ b.Free (base ++ "_" ++ toString k)} k ∧
    name = base ++ "_" ++ toString k ∧ tries = k + 1

/-- The first candidate that is free is the name that is found. -/
theorem findsFirst_candidate {b : Binder} {base : String} {k : Nat}
    (hbefore : ∀ i < k, Text.foldCase (candidate base i) ∈ b.taken)
    (hfree : Text.foldCase (candidate base k) ∉ b.taken) :
    b.FindsFirst base (k + 1) (candidate base k) := by
  have hnumbered {i : Nat} (hi : 1 ≤ i) : candidate base i = base ++ "_" ++ toString i :=
    if_neg (Nat.ne_of_gt hi)
  cases k with
  | zero => exact ⟨fun _ => ⟨rfl, rfl⟩, fun hnot => absurd hfree hnot⟩
  | succ k =>
    have hk := hnumbered (Nat.le_add_left 1 k)
    refine ⟨fun hbase => absurd (hbefore 0 (Nat.zero_lt_succ k)) hbase, fun _ => ?_⟩
    refine ⟨k + 1, ⟨⟨Nat.le_add_left 1 k, hk ▸ hfree⟩, fun i hi => ?_⟩, hk, rfl⟩
    by_contra hlt
    exact hi.2 (hnumbered hi.1 ▸ hbefore i (Nat.lt_of_not_le hlt))

end Binder

/-- The search for the name of a parameter ends, in one way only and after at most one try more than
there are names in use. It finds the base, which is the member and the scope, or the base with the
least number that is free, and this is the name of the parameter that is added. From then on the
names in use are those from before and this one, so that a name is free if it was before and is not
the same; and what is in use is so in every case of letters. -/
theorem parameter_takes_first_free_name (s : Surroundings) (member : String) (v : Value)
    (b : Binder) :
    ∃ (tries : Nat) (name : String) (taken : Std.HashSet String),
      tries ≤ b.taken.size + 1 ∧
      (∀ tries' name' taken',
        Search.Ends (member ++ s.scope) (.start b.taken (member ++ s.scope)) tries' name' taken' ↔
          tries' = tries ∧ name' = name ∧ taken' = taken) ∧
      b.FindsFirst (member ++ s.scope) tries name ∧
      (s.bindValue member v).runFrom b =
        (.ok name, ⟨taken, b.parameters ++ [Parameter.bound s.dialect name v]⟩) ∧
      (∀ folded, folded ∈ taken ↔ folded ∈ b.taken ∨ folded = Text.foldCase name) ∧
      taken.size = b.taken.size + 1 ∧
      (∀ ps other, Binder.Free ⟨taken, ps⟩ other ↔
        b.Free other ∧ Text.sameName name other = false) ∧
      ∀ names other, (Binder.avoiding names).Free other ↔
        ∀ used ∈ names, Text.sameName used other = false := by
  obtain ⟨k, hk, hbefore, hfree, hmint, hends⟩ :=
    Search.exists_ends b.taken (member ++ s.scope)
  have hmem (folded : String) :
      folded ∈ b.taken.insert (Text.foldCase (Binder.candidate (member ++ s.scope) k)) ↔
        folded ∈ b.taken ∨ folded = Text.foldCase (Binder.candidate (member ++ s.scope) k) := by
    rw [Std.HashSet.mem_insert, beq_iff_eq, eq_comm, or_comm]
  refine ⟨k + 1, _, _, Nat.succ_le_succ hk, fun tries' name' taken' => ⟨hends.unique, ?_⟩,
    Binder.findsFirst_candidate hbefore hfree, ?_, hmem, ?_, fun ps other => ?_,
    fun names other => Binder.free_avoiding_iff⟩
  · rintro ⟨rfl, rfl, rfl⟩
    exact hends
  · rw [← hmint]
    rfl
  · rw [Std.HashSet.size_insert, if_neg hfree]
  · rw [Binder.Free, hmem, not_or, Binder.Free, Text.sameName, beq_eq_false_iff_ne, ne_comm]

end EntitySql
