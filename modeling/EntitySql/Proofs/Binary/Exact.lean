import EntitySql.Binary.Basic
import Mathlib.Algebra.Order.Field.Power
import Mathlib.Data.Int.Log
import Mathlib.Data.Rat.Floor
import Mathlib.Tactic.Positivity
import Mathlib.Tactic.Ring

/-!
# Numbers that need no rounding

A fraction that is a number of a format is rounded to that number. So a number keeps its
value in a wider format, and comes back from there with all of its bits.
-/

namespace EntitySql

namespace Format

variable {f g : Format} {m : Nat} {e : Int}

/-- A mantissa and an exponent of a number of a format: the mantissa fills its bits unless the
exponent is the least. -/
structure Holds (f : Format) (m : Nat) (e : Int) : Prop where
  lt : m < 2 ^ (f.fractionBits + 1)
  le : f.minExponent ≤ e
  filled : e = f.minExponent ∨ 2 ^ f.fractionBits ≤ m

/-- The pattern of exponent and fraction of a number. -/
def patternOf (f : Format) (m : Nat) (e : Int) : Nat :=
  (e - f.minExponent).toNat * 2 ^ f.fractionBits + m

/-- A mantissa and an exponent of a finite number of a format. -/
structure HoldsFinite (f : Format) (m : Nat) (e : Int) : Prop extends f.Holds m e where
  finite : f.patternOf m e < f.infinityPattern

/-- Every finite number of one format is a number of the other. -/
def Within (f g : Format) : Prop :=
  ∀ m e, f.HoldsFinite m e → ∃ n d, g.HoldsFinite n d ∧ (m : ℚ) * 2 ^ e = n * 2 ^ d

/-- Half of the patterns of a format have a sign. -/
theorem two_pow_width (f : Format) : 2 ^ f.width = 2 * 2 ^ (f.exponentBits + f.fractionBits) := by
  rw [width, Nat.add_assoc, Nat.pow_add, Nat.pow_one]

end Format

namespace Binary

variable {f g : Format} {s : Bool} {num den m n d : Nat} {e : Int} {x : Binary f}

/-- The fraction of two terms. -/
def quotient (terms : Nat × Nat) : ℚ :=
  terms.1 / terms.2

/-- Scaling by a power of two multiplies the fraction. -/
theorem quotient_scaleTwo (num den : Nat) (e : Int) :
    quotient (scaleTwo num den e) = quotient (num, den) * 2 ^ e := by
  cases e with
  | ofNat k =>
    simp only [scaleTwo, quotient, Nat.pow_eq, Nat.cast_mul, Nat.cast_pow, Nat.cast_ofNat,
      Int.ofNat_eq_natCast, zpow_natCast]
    ring
  | negSucc k =>
    simp only [scaleTwo, quotient, Nat.pow_eq, Nat.cast_mul, Nat.cast_pow, Nat.cast_ofNat,
      zpow_negSucc]
    rw [div_mul_eq_div_div, div_eq_mul_inv _ ((2 : ℚ) ^ (k + 1))]

/-- Scaling by a power of two keeps the lower term positive. -/
theorem scaleTwo_snd_pos (hden : 0 < den) (e : Int) : 0 < (scaleTwo num den e).2 := by
  cases e with
  | ofNat k => exact hden
  | negSucc k => exact Nat.mul_pos hden (Nat.pow_pos (by decide))

/-- The upper term is at least the lower one when the fraction is at least one. -/
theorem le_iff_one_le_quotient (hden : 0 < den) : den ≤ num ↔ 1 ≤ quotient (num, den) := by
  have hpos : (0 : ℚ) < den := by exact_mod_cast hden
  rw [quotient, one_le_div hpos]
  exact Nat.cast_le.symm

/-- A fraction lies between powers of two that the logarithms of its terms give. -/
theorem log_quotient_bounds (hnum : 0 < num) (hden : 0 < den) :
    (num.log2 : Int) - den.log2 - 1 ≤ Int.log 2 (quotient (num, den)) ∧
      Int.log 2 (quotient (num, den)) ≤ (num.log2 : Int) - den.log2 := by
  have hpos : 0 < quotient (num, den) := by
    rw [quotient]
    positivity
  have hden_pos : (0 : ℚ) < den := by exact_mod_cast hden
  have hnum_le : (2 : ℚ) ^ (num.log2 : Int) ≤ num := by
    exact_mod_cast Nat.log2_self_le hnum.ne'
  have hnum_lt : (num : ℚ) < 2 ^ ((num.log2 : Int) + 1) := by
    exact_mod_cast Nat.lt_log2_self (n := num)
  have hden_le : (2 : ℚ) ^ (den.log2 : Int) ≤ den := by
    exact_mod_cast Nat.log2_self_le hden.ne'
  have hden_lt : (den : ℚ) < 2 ^ ((den.log2 : Int) + 1) := by
    exact_mod_cast Nat.lt_log2_self (n := den)
  constructor
  · refine (Int.zpow_le_iff_le_log (by decide) hpos).mp ?_
    rw [quotient, le_div_iff₀ hden_pos]
    calc ((2 : ℕ) : ℚ) ^ ((num.log2 : Int) - den.log2 - 1) * den
        ≤ 2 ^ ((num.log2 : Int) - den.log2 - 1) * 2 ^ ((den.log2 : Int) + 1) := by
          rw [Nat.cast_ofNat]
          gcongr
      _ = 2 ^ (num.log2 : Int) := by
          rw [← zpow_add₀ two_ne_zero]
          congr 1
          ring
      _ ≤ num := hnum_le
  · refine Int.lt_add_one_iff.mp ((Int.lt_zpow_iff_log_lt (by decide) hpos).mp ?_)
    rw [quotient, div_lt_iff₀ hden_pos]
    calc (num : ℚ) < 2 ^ ((num.log2 : Int) + 1) := hnum_lt
      _ = 2 ^ ((num.log2 : Int) - den.log2 + 1) * 2 ^ (den.log2 : Int) := by
          rw [← zpow_add₀ two_ne_zero]
          congr 1
          ring
      _ ≤ ((2 : ℕ) : ℚ) ^ ((num.log2 : Int) - den.log2 + 1) * den := by
          rw [Nat.cast_ofNat]
          gcongr

/-- The power of two below a fraction is the logarithm of the fraction. -/
theorem logTwo_eq (hnum : 0 < num) (hden : 0 < den) :
    logTwo num den = Int.log 2 (quotient (num, den)) := by
  have hpos : 0 < quotient (num, den) := by
    rw [quotient]
    positivity
  obtain ⟨hlow, hhigh⟩ := log_quotient_bounds hnum hden
  let terms := scaleTwo num den (-((num.log2 : Int) - den.log2))
  have hguess : terms.2 ≤ terms.1 ↔
      (num.log2 : Int) - den.log2 ≤ Int.log 2 (quotient (num, den)) := by
    rw [le_iff_one_le_quotient (scaleTwo_snd_pos hden _), Prod.mk.eta, quotient_scaleTwo, zpow_neg,
      ← div_eq_mul_inv, one_le_div (by positivity), ← Int.zpow_le_iff_le_log (by decide) hpos,
      Nat.cast_ofNat]
  have hlogTwo : logTwo num den = if terms.2 ≤ terms.1 then (num.log2 : Int) - den.log2
      else (num.log2 : Int) - den.log2 - 1 := rfl
  rw [hlogTwo]
  by_cases h : (num.log2 : Int) - den.log2 ≤ Int.log 2 (quotient (num, den))
  · rw [if_pos (hguess.mpr h)]
    omega
  · rw [if_neg (hguess.not.mpr h)]
    omega

/-- A whole number is not rounded. -/
theorem roundEven_of_quotient (hden : 0 < den) (h : quotient (num, den) = m) :
    roundEven num den = m := by
  have hpos : (den : ℚ) ≠ 0 := by exact_mod_cast hden.ne'
  have hnum : num = m * den := by
    rw [quotient, div_eq_iff hpos] at h
    exact_mod_cast h
  subst hnum
  simp only [roundEven, Nat.mul_div_cancel _ hden, Nat.mul_mod_left, Nat.mul_zero, hden, if_true]

/-- The logarithm of a number of a format. -/
theorem log_of_holds (h : f.Holds m e) (hm : 0 < m) :
    Int.log 2 ((m : ℚ) * 2 ^ e) ≤ f.fractionBits + e ∧
      (e = f.minExponent ∨ f.fractionBits + e ≤ Int.log 2 ((m : ℚ) * 2 ^ e)) := by
  have hpos : (0 : ℚ) < m * 2 ^ e := by positivity
  constructor
  · refine Int.lt_add_one_iff.mp ((Int.lt_zpow_iff_log_lt (by decide) hpos).mp ?_)
    have hlt : (m : ℚ) < 2 ^ ((f.fractionBits : Int) + 1) := by exact_mod_cast h.lt
    calc (m : ℚ) * 2 ^ e < 2 ^ ((f.fractionBits : Int) + 1) * 2 ^ e := by gcongr
      _ = ((2 : ℕ) : ℚ) ^ ((f.fractionBits : Int) + e + 1) := by
          rw [← zpow_add₀ two_ne_zero, Nat.cast_ofNat]
          congr 1
          ring
  · rcases h.filled with hleast | hfilled
    · exact Or.inl hleast
    · refine Or.inr ((Int.zpow_le_iff_le_log (by decide) hpos).mp ?_)
      have hle : (2 : ℚ) ^ (f.fractionBits : Int) ≤ m := by exact_mod_cast hfilled
      rw [Nat.cast_ofNat, zpow_add₀ two_ne_zero]
      gcongr

/-- A fraction that is a number of the format is not rounded. -/
theorem ofRatio_of_holds (h : f.HoldsFinite m e) (hden : 0 < den)
    (hvalue : quotient (num, den) = m * 2 ^ e) :
    (ofRatio s num den : Binary f) = ofPattern s (f.patternOf m e) := by
  have hden_ne : (den : ℚ) ≠ 0 := by exact_mod_cast hden.ne'
  have hpower : (2 : ℚ) ^ e ≠ 0 := zpow_ne_zero e two_ne_zero
  by_cases hnum : num = 0
  · have hm : m = 0 := by
      rw [hnum, quotient, Nat.cast_zero, zero_div, eq_comm, mul_eq_zero] at hvalue
      exact_mod_cast hvalue.resolve_right hpower
    have hleast : e = f.minExponent := by
      refine h.filled.resolve_right fun hle => ?_
      have := Nat.pow_pos (n := f.fractionBits) (show 0 < 2 by decide)
      omega
    have hpattern : f.patternOf m e = 0 := by simp [Format.patternOf, hm, hleast]
    rw [ofRatio, if_pos hnum, hpattern, zero]
  · have hnum_pos : 0 < num := Nat.pos_of_ne_zero hnum
    have hm_pos : 0 < m := by
      refine Nat.pos_of_ne_zero fun hm => ?_
      rw [hm, quotient, Nat.cast_zero, zero_mul, div_eq_zero_iff] at hvalue
      exact hnum (by exact_mod_cast hvalue.resolve_right hden_ne)
    obtain ⟨hhigh, hlow⟩ := log_of_holds h.toHolds hm_pos
    have hexponent : max f.minExponent (logTwo num den - f.fractionBits) = e := by
      rw [logTwo_eq hnum_pos hden, hvalue]
      have := h.le
      omega
    have hround : roundEven (scaleTwo num den (-e)).1 (scaleTwo num den (-e)).2 = m := by
      refine roundEven_of_quotient (scaleTwo_snd_pos hden _) ?_
      rw [Prod.mk.eta, quotient_scaleTwo, hvalue, mul_assoc, ← zpow_add₀ two_ne_zero,
        Int.add_right_neg, zpow_zero, mul_one]
    rw [ofRatio, if_neg hnum]
    simp only [hexponent, hround]
    exact congrArg (ofPattern s) (min_eq_left (Nat.le_of_lt h.finite))

/-- A scaled mantissa that is a number of the format is not rounded. -/
theorem ofScaled_of_holds {k : Int} (h : f.HoldsFinite m e) (hvalue : (n : ℚ) * 2 ^ k = m * 2 ^ e) :
    (ofScaled s n k : Binary f) = ofPattern s (f.patternOf m e) := by
  have hquotient : quotient (scaleTwo n 1 k) = m * 2 ^ e := by
    rw [quotient_scaleTwo, ← hvalue, quotient, Nat.cast_one, div_one]
  exact ofRatio_of_holds h (scaleTwo_snd_pos Nat.one_pos k) hquotient

/-- The bits of a sign and a pattern. -/
theorem toNat_ofPattern {p : Nat} (hp : p < 2 ^ (f.exponentBits + f.fractionBits)) :
    (ofPattern s p : Binary f).bits.toNat =
      (if s then 2 ^ (f.exponentBits + f.fractionBits) else 0) + p := by
  simp only [ofPattern, BitVec.toNat_ofNat, Nat.pow_eq]
  refine Nat.mod_eq_of_lt ?_
  rw [f.two_pow_width]
  split <;> omega

/-- A pattern is kept. -/
theorem pattern_ofPattern {p : Nat} (hp : p < 2 ^ (f.exponentBits + f.fractionBits)) :
    (ofPattern s p : Binary f).pattern = p := by
  simp only [pattern, toNat_ofPattern hp, Nat.pow_eq]
  cases s with
  | false => rw [if_neg Bool.false_ne_true, Nat.zero_add, Nat.mod_eq_of_lt hp]
  | true => rw [if_pos rfl, Nat.add_mod_left, Nat.mod_eq_of_lt hp]

/-- A sign is kept. -/
theorem negative_ofPattern {p : Nat} (hp : p < 2 ^ (f.exponentBits + f.fractionBits)) :
    (ofPattern s p : Binary f).negative = s := by
  simp only [negative, toNat_ofPattern hp, Nat.pow_eq]
  cases s with
  | false => rw [if_neg Bool.false_ne_true, Nat.zero_add, Nat.div_eq_of_lt hp]; rfl
  | true =>
    rw [if_pos rfl, Nat.add_div_left _ (Nat.two_pow_pos _), Nat.div_eq_of_lt hp]
    rfl

/-- A number is its sign and its pattern. -/
theorem ofPattern_pattern (x : Binary f) : ofPattern x.negative x.pattern = x := by
  have hpos : 0 < 2 ^ (f.exponentBits + f.fractionBits) := Nat.two_pow_pos _
  have hlt : x.pattern < 2 ^ (f.exponentBits + f.fractionBits) := Nat.mod_lt _ hpos
  have hsize : x.bits.toNat < 2 * 2 ^ (f.exponentBits + f.fractionBits) :=
    Nat.lt_of_lt_of_eq x.bits.isLt f.two_pow_width
  have hparts : 2 ^ (f.exponentBits + f.fractionBits) *
      (x.bits.toNat / 2 ^ (f.exponentBits + f.fractionBits)) + x.pattern = x.bits.toNat :=
    Nat.div_add_mod _ _
  have hbit : x.bits.toNat / 2 ^ (f.exponentBits + f.fractionBits) < 2 :=
    Nat.div_lt_of_lt_mul (by omega)
  have hbits : (ofPattern x.negative x.pattern : Binary f).bits.toNat = x.bits.toNat := by
    rw [toNat_ofPattern hlt, ← hparts, negative, Nat.pow_eq]
    generalize x.bits.toNat / 2 ^ (f.exponentBits + f.fractionBits) = bit at hbit ⊢
    obtain rfl | rfl : bit = 0 ∨ bit = 1 := by omega
    · rw [Nat.mul_zero]
      rfl
    · rw [Nat.mul_one]
      rfl
  obtain ⟨bits⟩ := x
  exact congrArg Binary.mk (BitVec.eq_of_toNat_eq hbits)

/-- The pattern of a number fits exponent and fraction. -/
theorem pattern_lt (x : Binary f) : x.pattern < 2 ^ f.exponentBits * 2 ^ f.fractionBits := by
  rw [← Nat.pow_add]
  exact Nat.mod_lt _ (Nat.two_pow_pos _)

/-- The pattern of a number that is not below infinity has all bits of the exponent. -/
theorem field_lt_iff (p : Nat) :
    p / 2 ^ f.fractionBits < 2 ^ f.exponentBits - 1 ↔ p < f.infinityPattern := by
  rw [Format.infinityPattern, Nat.pow_eq, Nat.pow_eq]
  exact Nat.div_lt_iff_lt_mul (Nat.two_pow_pos _)

/-- The pattern of infinity fits exponent and fraction. -/
theorem infinityPattern_lt (f : Format) :
    f.infinityPattern < 2 ^ (f.exponentBits + f.fractionBits) := by
  rw [Format.infinityPattern, Nat.pow_eq, Nat.pow_eq, Nat.pow_add]
  exact Nat.mul_lt_mul_of_pos_right (Nat.sub_lt (Nat.two_pow_pos _) Nat.one_pos) (Nat.two_pow_pos _)

/-- A finite number is given by its sign, its mantissa and its exponent. -/
theorem holds_of_view (h : x.view = .finite s m e) :
    f.HoldsFinite m e ∧ x = ofPattern s (f.patternOf m e) := by
  have hparts : 2 ^ f.fractionBits * (x.pattern / 2 ^ f.fractionBits) +
      x.pattern % 2 ^ f.fractionBits = x.pattern := Nat.div_add_mod _ _
  have hfraction : x.pattern % 2 ^ f.fractionBits < 2 ^ f.fractionBits :=
    Nat.mod_lt _ (Nat.two_pow_pos _)
  have hfield : x.pattern / 2 ^ f.fractionBits < 2 ^ f.exponentBits :=
    (Nat.div_lt_iff_lt_mul (Nat.two_pow_pos _)).mpr x.pattern_lt
  have hdouble : 2 ^ (f.fractionBits + 1) = 2 ^ f.fractionBits + 2 ^ f.fractionBits := by
    rw [Nat.pow_succ, Nat.mul_two]
  have hgiven {n : Nat} {d : Int} (hholds : f.Holds n d) (hpattern : f.patternOf n d = x.pattern)
      (hfinite : x.pattern < f.infinityPattern) :
      f.HoldsFinite n d ∧ x = ofPattern x.negative (f.patternOf n d) :=
    ⟨⟨hholds, hpattern.trans_lt hfinite⟩, by rw [hpattern, ofPattern_pattern]⟩
  simp only [view, Nat.pow_eq] at h
  split at h
  · split at h <;> cases h
  · rename_i hones
    have hfinite : x.pattern < f.infinityPattern := (field_lt_iff _).mp (by omega)
    split at h
    · rename_i hzero
      cases h
      have hpattern : f.patternOf (x.pattern % 2 ^ f.fractionBits) f.minExponent = x.pattern := by
        rw [hzero, Nat.mul_zero, Nat.zero_add] at hparts
        simp [Format.patternOf, hparts]
      exact hgiven ⟨by omega, Int.le_refl _, Or.inl rfl⟩ hpattern hfinite
    · rename_i hzero
      cases h
      have hpattern : f.patternOf (2 ^ f.fractionBits + x.pattern % 2 ^ f.fractionBits)
          (f.minExponent + (x.pattern / 2 ^ f.fractionBits - 1 : Nat)) = x.pattern := by
        obtain ⟨k, hk⟩ := Nat.exists_eq_succ_of_ne_zero hzero
        rw [hk, Nat.mul_succ, Nat.add_assoc, Nat.mul_comm] at hparts
        simp only [Format.patternOf, hk, Nat.succ_sub_one, add_sub_cancel_left,
          Int.toNat_natCast]
        exact hparts
      exact hgiven ⟨by omega, by omega, Or.inr (Nat.le_add_right _ _)⟩ hpattern hfinite

/-- The meaning of the bits of a finite number. -/
theorem view_ofPattern (h : f.HoldsFinite m e) :
    (ofPattern s (f.patternOf m e) : Binary f).view = .finite s m e := by
  have hlt := Nat.lt_trans h.finite (infinityPattern_lt f)
  have hones := Nat.ne_of_lt ((field_lt_iff _).mpr h.finite)
  simp only [view, pattern_ofPattern hlt, negative_ofPattern hlt, Nat.pow_eq, if_neg hones]
  by_cases hm : m < 2 ^ f.fractionBits
  · have hleast : e = f.minExponent := h.filled.resolve_right (Nat.not_le.mpr hm)
    have hpattern : f.patternOf m e = m := by simp [Format.patternOf, hleast]
    rw [hpattern, if_pos (Nat.div_eq_of_lt hm), Nat.mod_eq_of_lt hm, hleast]
  · obtain ⟨r, rfl⟩ := Nat.exists_eq_add_of_le (Nat.not_lt.mp hm)
    have hr : r < 2 ^ f.fractionBits := by
      have := h.lt
      rw [Nat.pow_succ] at this
      omega
    have hpattern : f.patternOf (2 ^ f.fractionBits + r) e =
        2 ^ f.fractionBits * ((e - f.minExponent).toNat + 1) + r := by
      rw [Format.patternOf, Nat.mul_succ, Nat.mul_comm, Nat.add_assoc]
    have hexponent : f.minExponent + ((e - f.minExponent).toNat : Int) = e := by
      have := h.le
      omega
    rw [hpattern, Nat.mul_add_div (Nat.two_pow_pos _), Nat.mul_add_mod, Nat.div_eq_of_lt hr,
      Nat.mod_eq_of_lt hr, Nat.add_zero, if_neg (Nat.succ_ne_zero _), Nat.succ_sub_one, hexponent]

/-- The meaning of the bits of infinity. -/
theorem view_infinity (s : Bool) : (infinity s : Binary f).view = .infinite s := by
  have hlt := infinityPattern_lt f
  have hfield : f.infinityPattern / 2 ^ f.fractionBits = 2 ^ f.exponentBits - 1 :=
    Nat.mul_div_cancel _ (Nat.two_pow_pos _)
  have hfraction : f.infinityPattern % 2 ^ f.fractionBits = 0 := Nat.mul_mod_left _ _
  simp only [view, infinity, pattern_ofPattern hlt, negative_ofPattern hlt, Nat.pow_eq, hfield,
    hfraction, if_true]

/-- Only infinity is infinite. -/
theorem eq_infinity_of_view (h : x.view = .infinite s) : x = infinity s := by
  have hparts : 2 ^ f.fractionBits * (x.pattern / 2 ^ f.fractionBits) +
      x.pattern % 2 ^ f.fractionBits = x.pattern := Nat.div_add_mod _ _
  simp only [view, Nat.pow_eq] at h
  split at h
  · rename_i hones
    split at h
    · rename_i hfraction
      cases h
      have hpattern : f.infinityPattern = x.pattern := by
        rw [← hparts, hones, hfraction, Nat.add_zero, Nat.mul_comm]
        rfl
      rw [infinity, hpattern, ofPattern_pattern]
    · cases h
  · split at h <;> cases h

/-- All numbers of 32 bits are numbers of 64 bits. -/
theorem single_within_double : Format.single.Within .double := by
  intro m e h
  have hleast : Format.single.minExponent = -149 ∧ Format.double.minExponent = -1074 := by decide
  have hlt : m < 2 ^ 24 := h.lt
  have hle := h.le
  have hfinite : (e - Format.single.minExponent).toNat * 2 ^ 23 + m < 255 * 2 ^ 23 := h.finite
  rcases Nat.eq_zero_or_pos m with rfl | hm
  · refine ⟨0, Format.double.minExponent, ⟨⟨by decide, Int.le_refl _, Or.inl rfl⟩, by decide⟩, ?_⟩
    rw [Nat.cast_zero, zero_mul, zero_mul]
  · -- the mantissa moves to the left until it fills the wider format
    have hlog : m.log2 < 24 := (Nat.log2_lt hm.ne').mpr hlt
    obtain ⟨k, hk⟩ := Nat.exists_eq_add_of_le (show m.log2 ≤ 52 by omega)
    have hlow : 2 ^ 52 ≤ m * 2 ^ k := by
      calc 2 ^ 52 = 2 ^ m.log2 * 2 ^ k := by rw [← Nat.pow_add, ← hk]
        _ ≤ m * 2 ^ k := Nat.mul_le_mul_right _ (Nat.log2_self_le hm.ne')
    have hhigh : m * 2 ^ k < 2 ^ 53 := by
      calc m * 2 ^ k < 2 ^ (m.log2 + 1) * 2 ^ k :=
            Nat.mul_lt_mul_of_pos_right Nat.lt_log2_self (Nat.two_pow_pos _)
        _ = 2 ^ 53 := by rw [← Nat.pow_add, Nat.add_right_comm, ← hk]
    have hpattern : Format.double.patternOf (m * 2 ^ k) (e - k) =
        (e - k - Format.double.minExponent).toNat * 2 ^ 52 + m * 2 ^ k := rfl
    have hinfinity : Format.double.infinityPattern = 2047 * 2 ^ 52 := by decide
    refine ⟨m * 2 ^ k, e - k, ⟨⟨hhigh, by omega, Or.inr hlow⟩, by omega⟩, ?_⟩
    rw [Nat.cast_mul, Nat.cast_pow, Nat.cast_ofNat, mul_assoc, ← zpow_natCast,
      ← zpow_add₀ two_ne_zero, add_sub_cancel]

/-- A number that is converted to a format that has all numbers of its own comes back. -/
theorem convert_convert (hwithin : f.Within g) (h : x.isNaN = false) :
    ((x.convert : Binary g).convert : Binary f) = x := by
  cases hview : x.view with
  | nan =>
    rw [isNaN, hview] at h
    cases h
  | infinite s =>
    have hwide : (x.convert : Binary g) = infinity s := by rw [convert, hview]
    rw [hwide, convert, view_infinity, eq_infinity_of_view hview]
  | finite s m e =>
    obtain ⟨hm, hx⟩ := holds_of_view hview
    obtain ⟨n, d, hn, hvalue⟩ := hwithin m e hm
    have hwide : (x.convert : Binary g) = ofPattern s (g.patternOf n d) := by
      rw [convert, hview]
      exact ofScaled_of_holds hn hvalue
    rw [hwide, convert, view_ofPattern hn]
    exact (ofScaled_of_holds hm hvalue.symm).trans hx.symm

end Binary

end EntitySql
