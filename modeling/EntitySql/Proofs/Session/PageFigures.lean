import EntitySql.Proofs.Fallible
import EntitySql.Proofs.Statement.Pages
import EntitySql.Session.Operations
import Mathlib.Order.Bounds.Basic

/-!
# Page figures in words

The figures of a page are computed here a second time, in words of 64 bits, by steps that
have no result when it does not fit. No step fails for a count that a query can give,
whatever is asked for, and the figures are those of the computation without bounds.
-/

namespace EntitySql

namespace Window

variable {records size : Nat}

/-- One page more than full pages is needed exactly when rows are left. -/
theorem pagesOf_eq (records : Nat) (hsize : 0 < size) :
    pagesOf records size =
      if records % size = 0 then records / size else records / size + 1 := by
  have hparts := Nat.div_add_mod' records size
  have hmod := Nat.mod_lt records hsize
  split
  · exact Nat.div_eq_of_lt_le (by omega) (by rw [Nat.succ_mul]; omega)
  · refine Nat.div_eq_of_lt_le ?_ ?_
    · rw [Nat.succ_mul]
      omega
    · rw [Nat.succ_mul, Nat.succ_mul]
      omega

/-- There are as few pages as hold all rows. -/
theorem isLeast_pagesOf (records : Nat) (hsize : 0 < size) :
    IsLeast {k | records ≤ k * size} (pagesOf records size) := by
  obtain ⟨hhold, hlast⟩ := pagesOf_bounds records hsize
  refine ⟨hhold, fun k (hk : records ≤ k * size) => ?_⟩
  have hlt : pagesOf records size * size < (k + 1) * size := by
    rw [Nat.succ_mul]
    omega
  exact Nat.le_of_lt_succ (Nat.lt_of_mul_lt_mul_right hlt)

end Window

namespace Word

variable {a b : UInt64}

/-- A sum of words, if it fits. -/
def add? (a b : UInt64) : Option UInt64 :=
  if a.toNat + b.toNat < UInt64.size then some (a + b) else none

/-- A difference of words, if it is not negative. -/
def sub? (a b : UInt64) : Option UInt64 :=
  if b ≤ a then some (a - b) else none

/-- A product of words, if it fits. -/
def mul? (a b : UInt64) : Option UInt64 :=
  if a.toNat * b.toNat < UInt64.size then some (a * b) else none

/-- A quotient of words, rounded up by adding one if there is a remainder. Nothing is divided by
zero. -/
def divUp? (a b : UInt64) : Option UInt64 :=
  if b = 0 then none else if a % b = 0 then some (a / b) else add? (a / b) 1

/-- A sum that fits. -/
theorem exists_add? (h : a.toNat + b.toNat < 2 ^ 64) :
    ∃ c, add? a b = some c ∧ c.toNat = a.toNat + b.toNat :=
  ⟨a + b, if_pos h, by rw [UInt64.toNat_add, Nat.mod_eq_of_lt h]⟩

/-- A difference that is not negative. -/
theorem exists_sub? (h : b.toNat ≤ a.toNat) :
    ∃ c, sub? a b = some c ∧ c.toNat = a.toNat - b.toNat := by
  have hle : b ≤ a := UInt64.le_iff_toNat_le.mpr h
  exact ⟨a - b, if_pos hle, UInt64.toNat_sub_of_le a b hle⟩

/-- A product that fits. -/
theorem exists_mul? (h : a.toNat * b.toNat < 2 ^ 64) :
    ∃ c, mul? a b = some c ∧ c.toNat = a.toNat * b.toNat :=
  ⟨a * b, if_pos h, by rw [UInt64.toNat_mul, Nat.mod_eq_of_lt h]⟩

/-- A word is zero when its number is. -/
theorem eq_zero_iff : a = 0 ↔ a.toNat = 0 :=
  UInt64.toNat_inj.symm

/-- Any quotient by a positive word can be rounded up: where a remainder is left, the quotient is
not greater than half of the word. -/
theorem exists_divUp? (hb : 0 < b.toNat) :
    ∃ c, divUp? a b = some c ∧ c.toNat = Window.pagesOf a.toNat b.toNat := by
  rw [divUp?, if_neg (eq_zero_iff.not.mpr hb.ne'), Window.pagesOf_eq a.toNat hb]
  simp only [eq_zero_iff, UInt64.toNat_mod]
  split
  · exact ⟨a / b, rfl, UInt64.toNat_div a b⟩
  · rename_i hrest
    have htwo : 2 ≤ b.toNat := by
      by_contra hone
      rw [show b.toNat = 1 by omega, Nat.mod_one] at hrest
      exact hrest rfl
    have hhalf : a.toNat / b.toNat ≤ a.toNat / 2 := Nat.div_le_div_left htwo (by decide)
    have hfits : (a / b).toNat + (1 : UInt64).toNat < 2 ^ 64 := by
      have ha := a.toNat_lt
      rw [UInt64.toNat_div, UInt64.toNat_one]
      omega
    obtain ⟨c, hc, hvalue⟩ := exists_add? hfits
    exact ⟨c, hc, by rw [hvalue, UInt64.toNat_div, UInt64.toNat_one]⟩

/-- The smaller one of two words. -/
def smaller (a b : UInt64) : UInt64 :=
  if a ≤ b then a else b

/-- The number of the smaller one of two words. -/
theorem toNat_smaller (a b : UInt64) : (smaller a b).toNat = min a.toNat b.toNat := by
  rw [smaller]
  split
  · rename_i hle
    exact (Nat.min_eq_left (UInt64.le_iff_toNat_le.mp hle)).symm
  · rename_i hle
    exact (Nat.min_eq_right (Nat.le_of_not_le (UInt64.le_iff_toNat_le.not.mp hle))).symm

/-- The size of a page in words. -/
def pageSize (size : Int64) (default : UInt64) : UInt64 :=
  if size ≤ 0 then if default = 0 then 1 else default else size.toUInt64

/-- The page nearest to a requested one in words. -/
def pageIndex (index : Int64) (pageCount : UInt64) : UInt64 :=
  smaller (if index ≤ 0 then 1 else index.toUInt64) (if pageCount = 0 then 1 else pageCount)

/-- A signed word keeps its number without the sign if it is not negative. -/
theorem toNat_toUInt64 {n : Int64} (hn : 0 ≤ n.toInt) : n.toUInt64.toNat = n.toInt.toNat :=
  Int64.toNat_toUInt64_of_le (Int64.le_iff_toInt_le.mpr hn)

/-- The size of a page is the same in words. -/
theorem toNat_pageSize (size : Int64) (default : UInt64) :
    (pageSize size default).toNat = Window.sizeOf size.toInt default.toNat := by
  have hsign : size ≤ 0 ↔ size.toInt ≤ 0 := Int64.le_iff_toInt_le
  rw [pageSize, Window.sizeOf]
  by_cases hsize : size.toInt ≤ 0
  · rw [if_pos (hsign.mpr hsize), if_pos hsize]
    split
    · rename_i hzero
      rw [hzero]
      rfl
    · rename_i hzero
      have hpos := eq_zero_iff.not.mp hzero
      omega
  · rw [if_neg (hsign.not.mpr hsize), if_neg hsize, toNat_toUInt64 (by omega)]

/-- The page nearest to a requested one is the same in words. -/
theorem toNat_pageIndex (index : Int64) (pageCount : UInt64) :
    (pageIndex index pageCount).toNat =
      min (max index.toInt 1).toNat (max pageCount.toNat 1) := by
  have hlast : (if pageCount = 0 then 1 else pageCount).toNat = max pageCount.toNat 1 := by
    split
    · rename_i hzero
      rw [hzero]
      rfl
    · rename_i hzero
      have hpos := eq_zero_iff.not.mp hzero
      omega
  have hsign : index ≤ 0 ↔ index.toInt ≤ 0 := Int64.le_iff_toInt_le
  have hwanted : (if index ≤ 0 then 1 else index.toUInt64).toNat = (max index.toInt 1).toNat := by
    split
    · rename_i hindex
      have hnot := hsign.mp hindex
      rw [UInt64.toNat_one]
      omega
    · rename_i hindex
      have hpos := hsign.not.mp hindex
      rw [toNat_toUInt64 (by omega)]
      omega
  rw [pageIndex, toNat_smaller, hlast, hwanted]

end Word

namespace Window

/-- The figures of a page in words of 64 bits. There are none if a step of the computation has a
result that does not fit. -/
def ofWords? (records : UInt64) (index size : Int64) (default : UInt64) : Option Window := do
  let pageSize := Word.pageSize size default
  let pageCount ← Word.divUp? records pageSize
  let pageIndex := Word.pageIndex index pageCount
  let before ← Word.sub? pageIndex 1
  let start ← Word.mul? before pageSize
  let stop ← Word.mul? pageIndex pageSize
  return ⟨records.toNat, pageCount.toNat, pageIndex.toNat, pageSize.toNat, start.toNat, stop.toNat⟩

/-- As many rows as a signed count has never take the figures of a page out of their words. -/
theorem ofWords?_eq {records : UInt64} (hrecords : records.toNat < 2 ^ 63) (index size : Int64)
    (default : UInt64) : ofWords? records index size default =
      some (ofRequest records.toNat index.toInt size.toInt default.toNat) := by
  have hsize := Word.toNat_pageSize size default
  have hpos : 0 < (Word.pageSize size default).toNat := hsize ▸ sizeOf_pos _ _
  obtain ⟨count, hcount, hcount_eq⟩ := Word.exists_divUp? (a := records) hpos
  have hindex := Word.toNat_pageIndex index count
  rw [hcount_eq, hsize] at hindex
  have hstop_lt : (Word.pageIndex index count).toNat * (Word.pageSize size default).toNat <
      2 ^ 64 := by
    rw [hindex, hsize]
    exact stop_lt records.toNat index.toInt size.toInt default.toNat hrecords size.toInt_lt
      default.toNat_lt
  have hfirst : (1 : UInt64).toNat ≤ (Word.pageIndex index count).toNat := by
    rw [UInt64.toNat_one]
    omega
  obtain ⟨before, hbefore, hbefore_eq⟩ := Word.exists_sub? hfirst
  have hstart_lt : before.toNat * (Word.pageSize size default).toNat < 2 ^ 64 :=
    Nat.lt_of_le_of_lt (Nat.mul_le_mul_right _ (by omega)) hstop_lt
  obtain ⟨start, hstart, hstart_eq⟩ := Word.exists_mul? hstart_lt
  obtain ⟨stop, hstop, hstop_eq⟩ := Word.exists_mul? hstop_lt
  simp only [ofWords?, hcount, hbefore, hstart, hstop, Option.bind_eq_bind, Option.bind_some]
  rw [hstart_eq, hstop_eq, hbefore_eq, hcount_eq, hindex, hsize]
  rfl

/-- A count close to the greatest word would take the end of a page out of its word. -/
example : ofWords? 18446744073709551615 3 9223372036854775807 20 = none := by decide

end Window

namespace Session

/-- A count query gives every number of a signed word that is not negative, and no other. -/
theorem exists_countOf_iff (records : Nat) :
    (∃ v, countOf v = .ok records) ↔ records < 2 ^ 63 := by
  constructor
  · rintro ⟨v, h⟩
    obtain ⟨n, -, hn⟩ := map_eq_ok_iff.mp h
    cases n with
    | none =>
      cases hn
      decide
    | some n =>
      have hlt := Int64.toInt_lt n
      have hrecords : n.toInt.toNat = records := hn
      omega
  · intro h
    refine ⟨some (.int64 (Int64.ofNat records)), ?_⟩
    show Except.ok (Int64.ofNat records).toInt.toNat = _
    rw [Int64.toInt_ofNat_of_lt h, Int.toNat_natCast]

end Session

/-- The figures of a page never leave their words. Of all counts that a query can give, and for any
request and default, each step of the computation in words has a result: nothing is divided by zero,
no product is too great and nothing is less than zero. The figures are those of a page of the asked
or the usual size, which is at least one, among as few pages as hold all rows, and the page starts
before the rows end if there are any. -/
theorem page_figures_fit_words (records : Nat) (index size : Int64) (default : UInt64) :
    ((∃ v, Session.countOf v = .ok records) ↔ records < 2 ^ 63) ∧
    (records < 2 ^ 63 → ∃ w,
      w = Window.ofRequest records index.toInt size.toInt default.toNat ∧
      Window.ofWords? (UInt64.ofNat records) index size default = some w ∧
      w.recordCount = records ∧ w.start + w.pageSize = w.stop ∧ 1 ≤ w.pageSize ∧
      1 ≤ w.pageIndex ∧ w.pageIndex ≤ max w.pageCount 1 ∧
      IsLeast {k | records ≤ k * w.pageSize} w.pageCount ∧
      (0 < records → w.start < records)) := by
  refine ⟨Session.exists_countOf_iff records, fun hrecords => ?_⟩
  have hword : (UInt64.ofNat records).toNat = records :=
    UInt64.toNat_ofNat_of_lt' (Nat.lt_trans hrecords (by decide))
  have hwords := Window.ofWords?_eq (hword.symm ▸ hrecords) index size default
  rw [hword] at hwords
  have hpos := Window.sizeOf_pos size.toInt default.toNat
  obtain ⟨hfirst, hlast⟩ :=
    Window.pageIndex_bounds records index.toInt size.toInt default.toNat
  exact ⟨_, rfl, hwords, rfl,
    Window.start_add_pageSize records index.toInt size.toInt default.toNat, hpos, hfirst, hlast,
    Window.isLeast_pagesOf records hpos,
    Window.start_lt records index.toInt size.toInt default.toNat⟩

/-- The greatest count has a last page, also for the greatest default. -/
theorem page_figures_fit_words_greatest :
    (∃ v, Session.countOf v = .ok 9223372036854775807) ∧
      Window.ofWords? 9223372036854775807 Int64.maxValue 0 18446744073709551615 =
        some ⟨9223372036854775807, 1, 1, 18446744073709551615, 0, 18446744073709551615⟩ ∧
      Window.ofWords? 9223372036854775807 Int64.maxValue 2 0 =
        some ⟨9223372036854775807, 4611686018427387904, 4611686018427387904, 2,
          9223372036854775806, 9223372036854775808⟩ := by
  obtain ⟨hcount, hfits⟩ :=
    page_figures_fit_words 9223372036854775807 Int64.maxValue 0 18446744073709551615
  obtain ⟨_, rfl, hlong, -⟩ := hfits (by decide)
  obtain ⟨_, rfl, hshort, -⟩ :=
    (page_figures_fit_words 9223372036854775807 Int64.maxValue 2 0).2 (by decide)
  exact ⟨hcount.mpr (by decide), hlong, hshort⟩

end EntitySql
