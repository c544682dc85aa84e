import EntitySql.Json.Number
import EntitySql.Proofs.Json.Token

/-!
# Numerals of numbers

Every numeral that is written for a number is one that JSON allows: the shortest digits
of a number other than zero do not begin with a zero. A whole number that fits a word is
read back from its numeral.
-/

namespace EntitySql

namespace Binary

/-- A power of ten scales a positive fraction to a positive one. -/
theorem scaleTen_fst_pos {num : Nat} (hnum : 0 < num) (den : Nat) (e : Int) :
    0 < (scaleTen num den e).1 := by
  cases e with
  | ofNat k => exact Nat.mul_pos hnum (Nat.pow_pos (by decide))
  | negSucc k => exact hnum

/-- A power of two scales a positive fraction to a positive one. -/
theorem scaleTwo_fst_pos {num : Nat} (hnum : 0 < num) (den : Nat) (e : Int) :
    0 < (scaleTwo num den e).1 := by
  cases e with
  | ofNat k => exact Nat.mul_pos hnum (Nat.pow_pos (by decide))
  | negSucc k => exact hnum

/-- The multiple for an interval is one of the two next to its value, and the lower one only if it
reaches the interval. -/
theorem Interval.multiple?_eq_some {i : Interval} {tie : TieRule} {power : Int} {n num den : Nat}
    (hterms : scaleTen (scaleTwo 1 1 i.exponent).1 (scaleTwo 1 1 i.exponent).2 (-power) =
      (num, den))
    (h : i.multiple? tie power = some n) :
    i.value * num / den < n ∨
      (i.value * num / den ≤ n ∧ i.low * num ≤ i.value * num / den * den) := by
  simp only [multiple?, hterms] at h
  generalize i.value * num / den = below at h ⊢
  cases hinclusive : i.inclusive with
  | true =>
    simp only [hinclusive, if_true, Bool.and_eq_true, decide_eq_true_eq] at h
    cases tie <;> grind
  | false =>
    simp only [hinclusive, Bool.false_eq_true, if_false, Bool.and_eq_true, decide_eq_true_eq] at h
    cases tie <;> grind

/-- An interval of positive numbers has no multiple that is zero. -/
theorem Interval.multiple?_ne_zero {i : Interval} {tie : TieRule} {power : Int} {n : Nat}
    (hlow : 0 < i.low) (h : i.multiple? tie power = some n) : n ≠ 0 := by
  obtain ⟨num, den, hterms⟩ : ∃ num den, scaleTen (scaleTwo 1 1 i.exponent).1
    (scaleTwo 1 1 i.exponent).2 (-power) = (num, den) := ⟨_, _, rfl⟩
  have hnum : 0 < num := by
    have := scaleTen_fst_pos (scaleTwo_fst_pos Nat.one_pos 1 i.exponent)
      (scaleTwo 1 1 i.exponent).2 (-power)
    rwa [hterms] at this
  have hpos := Nat.mul_pos hlow hnum
  rcases Interval.multiple?_eq_some hterms h with hlt | ⟨hle, hreach⟩
  · exact Nat.ne_of_gt (Nat.lt_of_le_of_lt (Nat.zero_le _) hlt)
  · rintro rfl
    rw [Nat.le_zero.mp hle, Nat.zero_mul] at hreach
    omega

/-- The shortest decimal of a positive number has digits other than zero, or else is zero itself. -/
theorem digits_shortestOf {f : Format} {tie : TieRule} {m : Nat} (hm : 0 < m) (e : Int) :
    (shortestOf f tie m e).digits ≠ 0 ∨ shortestOf f tie m e = ⟨0, 0⟩ := by
  have hlow : 0 < (interval f m e).low := by
    unfold interval
    dsimp only
    split <;> omega
  unfold shortestOf
  dsimp only
  generalize hfound : List.findSome? _ _ = found
  cases found with
  | none => exact Or.inr rfl
  | some s =>
    refine Or.inl ?_
    obtain ⟨count, -, hcount⟩ := List.exists_of_findSome?_eq_some hfound
    obtain ⟨n, hn, rfl⟩ := Option.map_eq_some_iff.mp hcount
    exact Interval.multiple?_ne_zero hlow hn

end Binary

/-- A decimal has digits before the point, and no zero in front of others if it has digits other
than zero or is zero itself. -/
theorem Scientific.positional_whole {s : Scientific} (hs : s.digits ≠ 0 ∨ s = ⟨0, 0⟩) :
    s.positional.1 ≠ [] ∧
      (s.positional.1.head? = some Text.zeroDigit → s.positional.1.length = 1) := by
  have hsome : s.digitList ≠ [] := Text.digitsOf_ne_nil _
  obtain ⟨d, ds, hds⟩ := List.exists_cons_of_ne_nil hsome
  rcases hs with hdigits | rfl
  · have hhead : d ≠ Text.zeroDigit := by
      rintro rfl
      have := Text.head?_digitsOf hdigits
      rw [← Scientific.digitList, hds] at this
      exact this rfl
    unfold Scientific.positional
    cases s.exponent with
    | ofNat e =>
      rw [hds]
      exact ⟨List.cons_ne_nil _ _, fun h => absurd (Option.some.inj h) hhead⟩
    | negSucc e =>
      dsimp only
      split
      · rename_i hplaces
        obtain ⟨k, hk⟩ := Nat.exists_eq_succ_of_ne_zero (Nat.sub_ne_zero_of_lt hplaces)
        rw [List.splitAt_eq, hk, hds]
        exact ⟨List.cons_ne_nil _ _, fun h => absurd (Option.some.inj h) hhead⟩
      · exact ⟨List.cons_ne_nil _ _, fun _ => rfl⟩
  · decide

namespace Json

/-- The numeral of a whole number is one that JSON allows. -/
theorem Numeral.wellFormed_ofInt (n : Int) : (Numeral.ofInt n).WellFormed := by
  refine ⟨Text.digitsOf_ne_nil _, fun hzero => ?_, by simp [Numeral.ofInt]⟩
  have hn : n.natAbs = 0 := by
    by_contra hne
    exact Text.head?_digitsOf hne hzero
  simp only [Numeral.ofInt, hn]
  decide

/-- A decimal that has digits other than zero, or is zero itself, has a numeral that JSON allows. -/
theorem Numeral.wellFormed_ofScientific {s : Scientific} (hs : s.digits ≠ 0 ∨ s = ⟨0, 0⟩)
    (range : PositionalRange) (negative : Bool) :
    (Numeral.ofScientific range negative s).WellFormed := by
  obtain ⟨hwhole, hzero⟩ := Scientific.positional_whole hs
  have hsome : s.digitList ≠ [] := Text.digitsOf_ne_nil _
  obtain ⟨d, ds, hds⟩ := List.exists_cons_of_ne_nil hsome
  unfold ofScientific
  split
  · split
    all_goals
      rename_i hpositional
      rw [hpositional] at hwhole hzero
      exact ⟨hwhole, hzero, by simp⟩
  · rw [hds]
    exact ⟨List.cons_ne_nil _ _, fun _ => rfl, by simp [Text.digitsOf_ne_nil]⟩

/-- The numeral of a binary number is one that JSON allows. -/
theorem Numeral.wellFormed_ofBinary? {f : Format} {x : Binary f} {n : Numeral}
    (h : Numeral.ofBinary? x = some n) : n.WellFormed := by
  unfold Numeral.ofBinary? at h
  split at h
  · rename_i s m e hview
    split at h
    · cases h
      exact ⟨by simp, by simp, by simp⟩
    · rename_i hm
      cases h
      exact wellFormed_ofScientific (Binary.digits_shortestOf (Nat.pos_of_ne_zero hm) e) _ _
  · cases h

/-- The numeral of a number is one that JSON allows. -/
theorem Number.wellFormed_numeral {x : Number} {n : Numeral} (h : x.numeral = some n) :
    n.WellFormed := by
  cases x with
  | whole k =>
    cases h
    exact Numeral.wellFormed_ofInt k
  | real x => exact Numeral.wellFormed_ofBinary? h

/-- What the numeral of a whole number is read as. -/
theorem number?_ofInt (n : Int) : (Numeral.ofInt n).number? =
    if n < 0 then
      if n.natAbs = 0 ∨ 2 ^ 63 < n.natAbs then (Numeral.ofInt n).real?.map .real
      else some (.whole (-(n.natAbs : Int)))
    else if n.natAbs ≤ maxWord then some (.whole n.natAbs)
    else (Numeral.ofInt n).real?.map .real := by
  simp [Numeral.number?, Numeral.ofInt]

/-- A whole number is read back from its numeral exactly when it fits a word. -/
theorem number?_ofInt_iff {n : Int} :
    (Numeral.ofInt n).number? = some (.whole n) ↔ -(2 ^ 63 : Nat) ≤ n ∧ n ≤ maxWord := by
  have hmax : maxWord = 2 ^ 64 - 1 := by decide
  have hreal : (Numeral.ofInt n).real?.map .real ≠ some (Number.whole n) := by
    cases (Numeral.ofInt n).real? <;> nofun
  rw [number?_ofInt]
  split
  · have hvalue : -(n.natAbs : Int) = n := by omega
    split
    · exact iff_of_false hreal (by omega)
    · exact iff_of_true (by rw [hvalue]) (by omega)
  · have hvalue : (n.natAbs : Int) = n := by omega
    split
    · exact iff_of_true (by rw [hvalue]) (by omega)
    · exact iff_of_false hreal (by omega)

end Json

end EntitySql
