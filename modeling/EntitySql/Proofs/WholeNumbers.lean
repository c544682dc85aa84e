import EntitySql.Proofs.Binary.Exact
import EntitySql.Proofs.Gateway.Store
import EntitySql.Proofs.Text.Numerals

/-!
# Reading whole numbers

A value denotes at most one number, however it is stored: as a truth value, in words, in
binary, in decimal or as text. Read as a whole number it gives the number that it denotes,
or is refused when the type has no such number. One kind of value is neither: a binary
number beyond the words of 64 bits is read as the greatest or the least of them.
-/

namespace EntitySql

namespace Binary

variable {f : Format} {x : Binary f} {s : Bool} {m unit : Nat} {z : Int}

/-- A number with a sign is as great as without. -/
theorem natAbs_signed (s : Bool) (m : Nat) : (signed s m).natAbs = m := by
  cases s <;> simp [signed]

/-- The sign of a product is that of its first factor. -/
theorem signed_mul (s : Bool) (m k : Nat) : signed s (m * k) = signed s m * k := by
  cases s <;> simp [signed]

/-- A fraction is a whole number when its lower term divides the upper one. -/
theorem signed_div_eq_iff (hunit : 0 < unit) :
    (if m % unit = 0 then some (signed s (m / unit)) else none) = some z ↔
      (signed s m : ℚ) / unit = z := by
  have hne : (unit : ℚ) ≠ 0 := by exact_mod_cast hunit.ne'
  have hcast : (signed s m : ℚ) / unit = z ↔ signed s m = z * unit := by
    rw [div_eq_iff hne]
    exact_mod_cast Iff.rfl
  rw [hcast]
  split
  · rename_i hmod
    have hparts : signed s m = signed s (m / unit) * unit := by
      rw [← signed_mul, Nat.div_mul_cancel (Nat.dvd_of_mod_eq_zero hmod)]
    rw [hparts, Option.some_inj, Int.mul_eq_mul_right_iff (by omega)]
  · rename_i hmod
    refine ⟨nofun, fun h => absurd ?_ hmod⟩
    have habs : m = z.natAbs * unit := by
      rw [← natAbs_signed s m, h, Int.natAbs_mul, Int.natAbs_natCast]
    rw [habs, Nat.mul_mod_left]

/-- A number of a format is a whole number when it is finite and has no fraction. -/
theorem toInt?_eq_some_iff :
    x.toInt? = some z ↔ ∃ s m e, x.view = .finite s m e ∧ (signed s m : ℚ) * 2 ^ e = z := by
  unfold toInt?
  cases hview : x.view with
  | nan => simp
  | infinite s => simp
  | finite s m e =>
    have hview' (q : ℚ) : (∃ s' m' e', View.finite s m e = .finite s' m' e' ∧
        (signed s' m' : ℚ) * 2 ^ e' = q) ↔ (signed s m : ℚ) * 2 ^ e = q := by
      constructor
      · rintro ⟨_, _, _, ⟨⟩, h⟩
        exact h
      · exact fun h => ⟨s, m, e, rfl, h⟩
    rw [hview']
    cases e with
    | ofNat k =>
      rw [Option.some_inj, signed_mul, Int.ofNat_eq_natCast, zpow_natCast]
      exact_mod_cast Iff.rfl
    | negSucc k =>
      have hsplit := signed_div_eq_iff (s := s) (m := m) (z := z) (Nat.pow_pos (n := k + 1) two_pos)
      rw [zpow_negSucc, ← div_eq_mul_inv]
      exact_mod_cast hsplit

end Binary

namespace Decimal

variable {d : Decimal} {z : Int}

/-- A decimal is a whole number when it has no fraction. -/
theorem toInt?_eq_some_iff :
    d.toInt? = some z ↔ (Binary.signed d.negative d.mantissa : ℚ) / 10 ^ d.scale = z := by
  have hsplit := Binary.signed_div_eq_iff (s := d.negative) (m := d.mantissa) (z := z)
    (Nat.pow_pos (n := d.scale) (by decide : 0 < 10))
  rw [toInt?]
  exact_mod_cast hsplit

end Decimal

namespace Value

/-- The number that a value denotes, exactly as it is stored. -/
inductive Denotes : Value → ℚ → Prop
  | bool (b : Bool) : Denotes (.bool b) b.toNat
  | int32 (n : Int32) : Denotes (.int32 n) n.toInt
  | int64 (n : Int64) : Denotes (.int64 n) n.toInt
  | single {x : Single} {s : Bool} {m : Nat} {e : Int} (hview : x.view = .finite s m e) :
      Denotes (.single x) (Binary.signed s m * 2 ^ e)
  | double {x : Double} {s : Bool} {m : Nat} {e : Int} (hview : x.view = .finite s m e) :
      Denotes (.double x) (Binary.signed s m * 2 ^ e)
  | string {s : String} {z : Int} (hspells : Text.Spells (Text.trim s).toList z) :
      Denotes (.string s) z
  | decimal (d : Decimal) :
      Denotes (.decimal d) (Binary.signed d.negative d.mantissa / 10 ^ d.scale)

/-- Whether a value is stored in a binary format. -/
def isBinary : Value → Bool
  | .single _ => true
  | .double _ => true
  | _ => false

/-- A binary number that is a whole number beyond the words of 64 bits. -/
structure Overruns (v : Value) (z : Int) : Prop where
  binary : v.isBinary = true
  denotes : v.Denotes z
  outside : z < Int64.minValue.toInt ∨ Int64.maxValue.toInt < z

/-- The word of 64 bits at the end at which a number lies beyond them. -/
def lastWord (z : Int) : Int64 :=
  if z < 0 then Int64.minValue else Int64.maxValue

/-- The whole number that a value denotes, if it is one. -/
def whole? : Value → Option Int
  | .bool b => some b.toNat
  | .int32 n => some n.toInt
  | .int64 n => some n.toInt
  | .single x => x.toInt?
  | .double x => x.toInt?
  | .string s => Text.readInt? (Text.trim s)
  | .decimal d => d.toInt?
  | _ => none

variable {v : Value} {n : Int64} {q r : ℚ} {z : Int}

/-- A value denotes at most one number. -/
theorem Denotes.unique (hq : v.Denotes q) (hr : v.Denotes r) : q = r := by
  cases hq with
  | bool | int32 | int64 | decimal => cases hr; rfl
  | single hview | double hview =>
    cases hr with
    | _ hview' =>
      cases hview.symm.trans hview'
      rfl
  | string hspells =>
    cases hr with
    | string hspells' =>
      have hread := Text.readInt?_eq_some_iff.mpr hspells
      rw [Text.readInt?_eq_some_iff.mpr hspells'] at hread
      rw [Option.some.inj hread]

/-- What a value denotes is known from one number that it denotes. -/
theorem Denotes.iff_eq (hq : v.Denotes q) : v.Denotes r ↔ q = r :=
  ⟨hq.unique, fun h => h ▸ hq⟩

/-- The whole number of a value is the number that it denotes. -/
theorem whole?_eq_some_iff : v.whole? = some z ↔ v.Denotes z := by
  cases v with
  | bool b => rw [whole?, Option.some_inj, (Denotes.bool b).iff_eq]; exact_mod_cast Iff.rfl
  | int32 n => rw [whole?, Option.some_inj, (Denotes.int32 n).iff_eq, Int.cast_inj]
  | int64 n => rw [whole?, Option.some_inj, (Denotes.int64 n).iff_eq, Int.cast_inj]
  | decimal d => rw [whole?, Decimal.toInt?_eq_some_iff, (Denotes.decimal d).iff_eq]
  | single x =>
    rw [whole?, Binary.toInt?_eq_some_iff]
    constructor
    · rintro ⟨s, m, e, hview, h⟩
      exact h ▸ .single hview
    · generalize (z : ℚ) = q
      rintro ⟨⟩
      exact ⟨_, _, _, ‹_›, rfl⟩
  | double x =>
    rw [whole?, Binary.toInt?_eq_some_iff]
    constructor
    · rintro ⟨s, m, e, hview, h⟩
      exact h ▸ .double hview
    · generalize (z : ℚ) = q
      rintro ⟨⟩
      exact ⟨_, _, _, ‹_›, rfl⟩
  | string s =>
    rw [whole?, Text.readInt?_eq_some_iff]
    constructor
    · exact .string
    · generalize hq : (z : ℚ) = q
      rintro ⟨hspells⟩
      rwa [Int.cast_inj.mp hq]
  | _ => exact ⟨nofun, nofun⟩

/-- The word of a number that fits 64 bits has the same number, and no other number has a word. -/
theorem wordOf?_eq_some_iff : wordOf? z = some n ↔ n.toInt = z := by
  unfold wordOf?
  constructor
  · intro h
    split at h
    · rename_i hrange
      rw [← Option.some.inj h]
      exact Int64.toInt_ofInt_of_le hrange.1 (Int.lt_add_one_of_le hrange.2)
    · cases h
  · rintro rfl
    rw [if_pos ⟨n.minValue_le_toInt, n.toInt_le⟩, Int64.ofInt_toInt]

/-- A number that fits 64 bits is brought into their range unchanged. -/
theorem toInt_clampWord (hlow : Int64.minValue.toInt ≤ z) (hhigh : z ≤ Int64.maxValue.toInt) :
    (clampWord z).toInt = z := by
  rw [clampWord, Int.min_eq_left hhigh, Int.max_eq_right hlow]
  exact Int64.toInt_ofInt_of_le hlow (Int.lt_add_one_of_le hhigh)

/-- A number that does not fit 64 bits is brought into their range as the last word on its side. -/
theorem clampWord_eq_lastWord (h : z < Int64.minValue.toInt ∨ Int64.maxValue.toInt < z) :
    clampWord z = lastWord z := by
  have hends : Int64.minValue.toInt < 0 ∧ 0 < Int64.maxValue.toInt := by decide
  rw [clampWord, lastWord]
  rcases h with hbelow | habove
  · rw [Int.max_eq_left (by omega), Int64.ofInt_toInt, if_pos (by omega)]
  · rw [Int.min_eq_right (by omega), Int.max_eq_right (by omega), Int64.ofInt_toInt,
      if_neg (by omega)]

/-- A number that fits 64 bits is brought into their range unchanged, and any other as the last
word on its side. -/
theorem clampWord_eq_iff : clampWord z = n ↔
    n.toInt = z ∨ (z < Int64.minValue.toInt ∨ Int64.maxValue.toInt < z) ∧ n = lastWord z := by
  by_cases houtside : z < Int64.minValue.toInt ∨ Int64.maxValue.toInt < z
  · have hnot : n.toInt ≠ z := by
      have hlow := n.minValue_le_toInt
      have hhigh := n.toInt_le
      omega
    simp only [clampWord_eq_lastWord houtside, houtside, hnot, false_or, true_and]
    exact eq_comm
  · have hfits : (clampWord z).toInt = z := toInt_clampWord (by omega) (by omega)
    rw [← Int64.toInt_inj, hfits, eq_comm]
    simp only [houtside, false_and, or_false]

/-- What overruns 64 bits is the number of no word. -/
theorem Overruns.ne_toInt (h : v.Overruns z) (n : Int64) : z ≠ n.toInt := by
  have hlow := n.minValue_le_toInt
  have hhigh := n.toInt_le
  have houtside := h.outside
  omega

/-- The whole number of a binary number is brought into 64 bits, and that of any other value must
fit them. -/
theorem asInt64?_eq (v : Value) :
    v.asInt64? = if v.isBinary then v.whole?.map clampWord else v.whole?.bind wordOf? := by
  cases v with
  | bool b => cases b <;> rfl
  | int32 n => exact (wordOf?_eq_some_iff.mpr (by simp)).symm
  | int64 n => exact (wordOf?_eq_some_iff.mpr rfl).symm
  | _ => rfl

/-- A value has a whole number of 64 bits when it denotes the number, or is a binary number beyond
64 bits on the side of the number. -/
theorem asInt64?_eq_some_iff : v.asInt64? = some n ↔
    v.Denotes n.toInt ∨ ∃ z, v.Overruns z ∧ n = lastWord z := by
  rw [asInt64?_eq]
  split
  · rename_i hbinary
    simp only [Option.map_eq_some_iff, whole?_eq_some_iff, clampWord_eq_iff]
    constructor
    · rintro ⟨z, hz, rfl | ⟨houtside, hn⟩⟩
      · exact Or.inl hz
      · exact Or.inr ⟨z, ⟨hbinary, hz, houtside⟩, hn⟩
    · rintro (h | ⟨z, hz, hn⟩)
      · exact ⟨_, h, Or.inl rfl⟩
      · exact ⟨z, hz.denotes, Or.inr ⟨hz.outside, hn⟩⟩
  · rename_i hbinary
    simp only [Option.bind_eq_some_iff, whole?_eq_some_iff, wordOf?_eq_some_iff]
    constructor
    · rintro ⟨z, hz, rfl⟩
      exact Or.inl hz
    · rintro (h | ⟨z, hz, -⟩)
      · exact ⟨_, h, rfl⟩
      · exact absurd hz.binary hbinary

end Value

namespace ScalarType

variable {t : ScalarType} {v : Value} {range : Range} {z : Int}

/-- A scalar other than JSON is read when it is found, and refused otherwise. -/
theorem read_eq (ht : t ≠ .json) (v : Value) :
    t.read v = (t.find? v).elim (.error (.conversion t.expected v.described)) .ok := by
  cases t with
  | json => exact absurd rfl ht
  | _ => cases hfind : find? _ v <;> simp only [read, hfind] <;> rfl

/-- A whole number of a range is that of 64 bits. -/
theorem wholeIn?_eq_some_iff : wholeIn? range v = some z ↔
    ∃ k, v.asInt64? = some k ∧ k.toInt = z ∧ range.1 ≤ z ∧ z ≤ range.2 := by
  rw [wholeIn?, Option.bind_eq_some_iff]
  refine exists_congr fun k => and_congr_right fun _ => ?_
  rw [Option.ite_none_right_eq_some]
  constructor
  · rintro ⟨hrange, hz⟩
    obtain rfl := Option.some.inj hz
    exact ⟨rfl, hrange⟩
  · rintro ⟨rfl, hrange⟩
    exact ⟨hrange, rfl⟩

/-- A scalar that stands for the numbers of a range is found as the number of 64 bits. -/
theorem map_wholeIn?_eq_some_iff {α : Type} {toInt : α → Int} {ofInt : Int → α} {n : α}
    (hrange : ∀ n, range.1 ≤ toInt n ∧ toInt n ≤ range.2) (hofInt : ∀ n, ofInt (toInt n) = n)
    (htoInt : ∀ z, range.1 ≤ z → z ≤ range.2 → toInt (ofInt z) = z) :
    (wholeIn? range v).map ofInt = some n ↔ ∃ k, v.asInt64? = some k ∧ toInt n = k.toInt := by
  rw [Option.map_eq_some_iff]
  simp only [wholeIn?_eq_some_iff]
  constructor
  · rintro ⟨_, ⟨k, hk, rfl, hlow, hhigh⟩, rfl⟩
    exact ⟨k, hk, htoInt _ hlow hhigh⟩
  · rintro ⟨k, hk, hn⟩
    exact ⟨toInt n, ⟨k, hk, hn.symm, hrange n⟩, hofInt n⟩

end ScalarType

/-- The types of whole numbers that a value can be read as. -/
inductive WholeType where
  | int16
  | int32
  | int64
  | word32
  deriving DecidableEq, Repr

namespace WholeType

/-- The scalar type of a type of whole numbers. -/
abbrev scalar : WholeType → ScalarType
  | .int16 => .int16
  | .int32 => .int32
  | .int64 => .int64
  | .word32 => .word32

/-- The least and the greatest number of a type of whole numbers. -/
def range : WholeType → ScalarType.Range
  | .int16 => (Int16.minValue.toInt, Int16.maxValue.toInt)
  | .int32 => (Int32.minValue.toInt, Int32.maxValue.toInt)
  | .int64 => (Int64.minValue.toInt, Int64.maxValue.toInt)
  | .word32 => (0, UInt32.size - 1)

/-- The number that a scalar of a type of whole numbers is. -/
def toInt : (w : WholeType) → w.scalar.Carrier → Int
  | .int16, n => Int16.toInt n
  | .int32, n => Int32.toInt n
  | .int64, n => Int64.toInt n
  | .word32, n => UInt32.toNat n

/-- Reading a value is exact or refused: what is read is the number that the value denotes, and a
value that denotes a number beyond the type or between whole numbers is not converted. -/
structure ExactOrRefused (w : WholeType) (v : Value) : Prop where
  exact : ∀ n, w.scalar.read v = .ok n → v.Denotes (w.toInt n)
  refused : ∀ q, v.Denotes q → (¬∃ z : Int, q = z ∧ w.range.1 ≤ z ∧ z ≤ w.range.2) →
    w.scalar.read v = .error (.conversion w.scalar.expected v.described)

variable {w : WholeType} {v : Value} {n : w.scalar.Carrier} {z : Int}

/-- The number of a scalar lies in the range of its type. -/
theorem toInt_mem_range (n : w.scalar.Carrier) :
    w.range.1 ≤ w.toInt n ∧ w.toInt n ≤ w.range.2 := by
  cases w with
  | int16 => exact ⟨Int16.minValue_le_toInt n, Int16.toInt_le n⟩
  | int32 => exact ⟨Int32.minValue_le_toInt n, Int32.toInt_le n⟩
  | int64 => exact ⟨Int64.minValue_le_toInt n, Int64.toInt_le n⟩
  | word32 => exact ⟨Int.natCast_nonneg _, Int.le_sub_one_of_lt (Int.ofNat_lt.mpr n.toNat_lt)⟩

/-- Whole numbers are not read as JSON. -/
theorem scalar_ne_json (w : WholeType) : w.scalar ≠ .json := by
  cases w <;> decide

/-- A value that is not read as a whole number is refused by the name of the type and what the
value is. -/
theorem read_ok_or_refused (w : WholeType) (v : Value) :
    (∃ n, w.scalar.read v = .ok n) ∨
      w.scalar.read v = .error (.conversion w.scalar.expected v.described) := by
  rw [ScalarType.read_eq w.scalar_ne_json]
  cases w.scalar.find? v with
  | none => exact Or.inr rfl
  | some n => exact Or.inl ⟨n, rfl⟩

/-- A value is read as the scalar that is its whole number of 64 bits. -/
theorem read_eq_ok_iff :
    w.scalar.read v = .ok n ↔ ∃ k, v.asInt64? = some k ∧ w.toInt n = k.toInt := by
  have hfind : w.scalar.read v = .ok n ↔ w.scalar.find? v = some n := by
    rw [ScalarType.read_eq w.scalar_ne_json]
    cases w.scalar.find? v <;> simp
  rw [hfind]
  cases w with
  | int16 =>
    exact ScalarType.map_wholeIn?_eq_some_iff (toInt_mem_range (w := .int16)) Int16.ofInt_toInt
      fun z hlow hhigh => Int16.toInt_ofInt_of_le hlow (Int.lt_add_one_of_le hhigh)
  | int32 =>
    exact ScalarType.map_wholeIn?_eq_some_iff (toInt_mem_range (w := .int32)) Int32.ofInt_toInt
      fun z hlow hhigh => Int32.toInt_ofInt_of_le hlow (Int.lt_add_one_of_le hhigh)
  | int64 =>
    constructor
    · exact fun h => ⟨n, h, rfl⟩
    · rintro ⟨k, hk, hn⟩
      rw [Int64.toInt_inj.mp hn]
      exact hk
  | word32 =>
    refine ScalarType.map_wholeIn?_eq_some_iff (toInt_mem_range (w := .word32))
      (fun n => ?_) fun z hlow hhigh => ?_
    · exact UInt32.ofNat_toNat
    · show ((UInt32.ofNat z.toNat).toNat : Int) = z
      rw [UInt32.toNat_ofNat_of_lt' (by omega), Int.toNat_of_nonneg hlow]

/-- Only the type of 64 bits has the last words of 64 bits. -/
theorem toInt_ne_lastWord (hw : w ≠ .int64) (n : w.scalar.Carrier) (z : Int) :
    w.toInt n ≠ (Value.lastWord z).toInt := by
  have hends : (Value.lastWord z).toInt = -2 ^ 63 ∨ (Value.lastWord z).toInt = 2 ^ 63 - 1 := by
    unfold Value.lastWord
    split
    · exact Or.inl rfl
    · exact Or.inr rfl
  have hinner : -2 ^ 63 < w.range.1 ∧ w.range.2 < 2 ^ 63 - 1 := by
    cases w with
    | int64 => exact absurd rfl hw
    | _ => decide
  have hrange := toInt_mem_range n
  omega

/-- A value is read as the number that it denotes, and as a word of 64 bits also as the last one on
the side on which it overruns them. -/
theorem read_eq_ok_iff_denotes : w.scalar.read v = .ok n ↔
    v.Denotes (w.toInt n) ∨
      w = .int64 ∧ ∃ z, v.Overruns z ∧ w.toInt n = (Value.lastWord z).toInt := by
  simp only [read_eq_ok_iff, Value.asInt64?_eq_some_iff]
  constructor
  · rintro ⟨k, hk | ⟨z, hz, rfl⟩, hn⟩
    · exact Or.inl (hn ▸ hk)
    · by_cases hw : w = .int64
      · exact Or.inr ⟨hw, z, hz, hn⟩
      · exact absurd hn (toInt_ne_lastWord hw n z)
  · rintro (h | ⟨rfl, z, hz, hn⟩)
    · have hfits : -2 ^ 63 ≤ w.range.1 ∧ w.range.2 < 2 ^ 63 := by cases w <;> decide
      have hrange := toInt_mem_range n
      have hword : (Int64.ofInt (w.toInt n)).toInt = w.toInt n :=
        Int64.toInt_ofInt_of_le (by omega) (by omega)
      exact ⟨Int64.ofInt (w.toInt n), Or.inl (hword.symm ▸ h), hword.symm⟩
    · exact ⟨Value.lastWord z, Or.inr ⟨z, hz, rfl⟩, hn⟩

/-- What overruns 64 bits is read as the last word on its side. -/
theorem read_of_overruns (h : v.Overruns z) : ScalarType.int64.read v = .ok (Value.lastWord z) :=
  read_eq_ok_iff_denotes (w := .int64).mpr (Or.inr ⟨rfl, z, h, rfl⟩)

end WholeType

/-- The least binary number beyond the words of 64 bits. -/
def Value.binaryLimit : Value :=
  .double ⟨0x43e0000000000000⟩

/-- The limit of the words of 64 bits overruns them. -/
theorem Value.overruns_binaryLimit : Value.binaryLimit.Overruns 9223372036854775808 := by
  refine ⟨rfl, ?_, by decide⟩
  have hview : (⟨0x43e0000000000000⟩ : Double).view = .finite false 4503599627370496 11 := by
    decide
  refine (Value.Denotes.double hview).iff_eq.mpr ?_
  norm_num [Binary.signed]

/-- A value read as a whole number is exact or refused in all cases but one: in 64 bits, a binary
number that is a whole number beyond them is read as the last word on its side. Each number of the
type is read from every value that denotes it, and whatever is not read is refused as a conversion
of the value. -/
theorem whole_number_exact_or_refused_iff (w : WholeType) (v : Value) :
    (w.ExactOrRefused v ↔ ¬(w = .int64 ∧ ∃ z, v.Overruns z)) ∧
    (∀ n, v.Denotes (w.toInt n) → w.scalar.read v = .ok n) ∧
    ((∃ n, w.scalar.read v = .ok n) ∨
      w.scalar.read v = .error (.conversion w.scalar.expected v.described)) ∧
    ∀ z, v.Overruns z → ScalarType.int64.read v = .ok (Value.lastWord z) := by
  refine ⟨⟨?_, fun hfits => ⟨fun n hn => ?_, fun q hq hbeyond => ?_⟩⟩,
    fun n h => WholeType.read_eq_ok_iff_denotes.mpr (Or.inl h), w.read_ok_or_refused v,
    fun z hz => WholeType.read_of_overruns hz⟩
  · rintro hexact ⟨rfl, z, hz⟩
    have hdenotes := hexact.exact _ (WholeType.read_of_overruns hz)
    exact hz.ne_toInt _ (Int.cast_inj.mp (hz.denotes.unique hdenotes))
  · rcases WholeType.read_eq_ok_iff_denotes.mp hn with h | ⟨hw, z, hz, -⟩
    · exact h
    · exact absurd ⟨hw, z, hz⟩ hfits
  · rcases w.read_ok_or_refused v with ⟨n, hn⟩ | hrefused
    · rcases WholeType.read_eq_ok_iff_denotes.mp hn with h | ⟨hw, z, hz, -⟩
      · exact absurd ⟨_, hq.unique h, WholeType.toInt_mem_range n⟩ hbeyond
      · exact absurd ⟨hw, z, hz⟩ hfits
    · exact hrefused

/-- The limit of 64 bits is exact or refused in 32 bits, and read as the greatest word in 64. -/
theorem whole_number_exact_or_refused_limit :
    WholeType.int32.ExactOrRefused .binaryLimit ∧
      ScalarType.int64.read .binaryLimit = .ok Int64.maxValue ∧
      ScalarType.word32.read (.decimal ⟨false, 4294967295, 0, by decide, by decide⟩) =
        .ok 4294967295 := by
  obtain ⟨hexact, -, -, -⟩ := whole_number_exact_or_refused_iff .int32 .binaryLimit
  obtain ⟨-, -, -, hlast⟩ := whole_number_exact_or_refused_iff .int64 .binaryLimit
  obtain ⟨-, hread, -, -⟩ := whole_number_exact_or_refused_iff .word32
    (.decimal ⟨false, 4294967295, 0, by decide, by decide⟩)
  refine ⟨hexact.mpr (by rintro ⟨⟨⟩, -⟩), hlast _ Value.overruns_binaryLimit, hread _ ?_⟩
  refine (Value.Denotes.decimal _).iff_eq.mpr ?_
  show _ = ((4294967295 : Int) : ℚ)
  norm_num [Binary.signed]

/-- Reading in 64 bits is not always exact or refused: the limit denotes a number that is one more
than the greatest word. -/
theorem limit_neither_exact_nor_refused : ¬WholeType.int64.ExactOrRefused .binaryLimit := by
  intro h
  have hread := WholeType.read_of_overruns Value.overruns_binaryLimit
  have hdenotes := h.exact _ hread
  exact Value.overruns_binaryLimit.ne_toInt _
    (Int.cast_inj.mp (Value.overruns_binaryLimit.denotes.unique hdenotes))

end EntitySql
