import EntitySql.Proofs.Text.Digits
import Mathlib.Data.List.Induction
import Mathlib.Data.Nat.Digits.Defs

/-!
# Texts that spell whole numbers

A whole number is spelled by at least one decimal digit behind at most one sign. These texts
are read, each as the number that it spells, and no others.
-/

namespace EntitySql.Text

variable {c : Char} {d : Fin 10} {cs : List Char} {ds : List (Fin 10)} {n : Nat} {s : String}
  {z : Int}

/-- The number of digits by the powers of ten that they weigh, the last digit weighing one. -/
def weighed (ds : List (Fin 10)) : Nat :=
  Nat.ofDigits 10 (ds.reverse.map Fin.val)

/-- The texts that spell a whole number. -/
inductive Spells : List Char → Int → Prop
  | digits {ds : List (Fin 10)} (hsome : ds ≠ []) : Spells (ds.map digitChar) (weighed ds)
  | plus {ds : List (Fin 10)} (hsome : ds ≠ []) : Spells ('+' :: ds.map digitChar) (weighed ds)
  | minus {ds : List (Fin 10)} (hsome : ds ≠ []) : Spells ('-' :: ds.map digitChar) (-weighed ds)

/-- Digits read from the left have the number that they have by their weights. -/
theorem ofDigits_eq_weighed (ds : List (Fin 10)) : ofDigits ds = weighed ds := by
  induction ds using List.reverseRecOn with
  | nil => rfl
  | append_singleton ds d ih =>
    rw [ofDigits_concat, ih, weighed, weighed, List.reverse_concat, List.map_cons,
      Nat.ofDigits_cons, Nat.add_comm]

/-- A character is read as a digit when it is the character of the digit. -/
theorem digit?_eq_some_iff : digit? c = some d ↔ c = digitChar d := by
  constructor
  · intro h
    unfold digit? at h
    split at h
    · rename_i hrange
      have hcode : 48 + d.val = c.toNat := by
        rw [← Option.some.inj h]
        exact Nat.add_sub_cancel' hrange.1
      rw [digitChar, hcode, Char.ofNat_toNat]
    · cases h
  · rintro rfl
    exact digit?_digitChar d

/-- A text is read as digits when it is their text. -/
theorem allDigits?_eq_some_iff : allDigits? cs = some ds ↔ cs = ds.map digitChar := by
  unfold allDigits?
  induction cs generalizing ds with
  | nil => cases ds <;> simp
  | cons c cs ih =>
    cases ds <;> simp [List.mapM_cons, Option.bind_eq_some_iff, digit?_eq_some_iff, ih]

/-- A text of digits is read as the number that it spells without a sign. -/
theorem readDigits?_eq_some_iff :
    readDigits? cs = some n ↔ ∃ ds, ds ≠ [] ∧ cs = ds.map digitChar ∧ weighed ds = n := by
  unfold readDigits?
  split
  · rename_i hempty
    refine ⟨nofun, ?_⟩
    rintro ⟨ds, hsome, rfl, -⟩
    exact absurd (List.map_eq_nil_iff.mp (List.isEmpty_iff.mp hempty)) hsome
  · rename_i hsome
    simp only [Option.map_eq_some_iff, allDigits?_eq_some_iff, ofDigits_eq_weighed]
    constructor
    · rintro ⟨ds, rfl, hn⟩
      exact ⟨ds, by simpa using hsome, rfl, hn⟩
    · rintro ⟨ds, -, hcs, hn⟩
      exact ⟨ds, hcs, hn⟩

/-- The character of a digit is no sign. -/
theorem digitChar_ne_sign (d : Fin 10) : digitChar d ≠ '-' ∧ digitChar d ≠ '+' := by
  revert d
  decide

/-- A text is read as the whole number that it spells. -/
theorem readInt?_eq_some_iff : readInt? s = some z ↔ Spells s.toList z := by
  unfold readInt?
  generalize s.toList = cs
  constructor
  · intro h
    split at h
    · rename_i rest
      obtain ⟨n, hn, rfl⟩ : ∃ n, readDigits? rest = some n ∧ -(n : Int) = z := by
        simpa [Option.bind_eq_some_iff] using h
      obtain ⟨ds, hsome, rfl, rfl⟩ := readDigits?_eq_some_iff.mp hn
      exact .minus hsome
    · obtain ⟨n, hn, rfl⟩ := Option.map_eq_some_iff.mp h
      unfold readNat? at hn
      split at hn
      · obtain ⟨ds, hsome, rfl, rfl⟩ := readDigits?_eq_some_iff.mp hn
        exact .plus hsome
      · obtain ⟨ds, hsome, rfl, rfl⟩ := readDigits?_eq_some_iff.mp hn
        exact .digits hsome
  · intro h
    cases h with
    | @digits ds hsome =>
      have hread := readDigits?_eq_some_iff.mpr ⟨ds, hsome, rfl, rfl⟩
      cases ds with
      | nil => exact absurd rfl hsome
      | cons d ds =>
        obtain ⟨hminus, hplus⟩ := digitChar_ne_sign d
        rw [List.map_cons] at hread ⊢
        simp [readNat?, hminus, hplus, hread]
    | @plus ds hsome =>
      have hread := readDigits?_eq_some_iff.mpr ⟨ds, hsome, rfl, rfl⟩
      simp [readNat?, hread]
    | @minus ds hsome =>
      have hread := readDigits?_eq_some_iff.mpr ⟨ds, hsome, rfl, rfl⟩
      simp [hread]

end EntitySql.Text
