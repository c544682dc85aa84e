import EntitySql.Decimal.Reader
import EntitySql.Proofs.Text.Digits
import Mathlib.Data.List.TakeWhile

/-!
# Decimals that are read back

The text of a decimal has the digits of its mantissa, as many after the point as its
scale says. Reading takes them digit by digit, for each of which there is room, so that
the decimal comes back, except that a zero loses its sign.
-/

namespace EntitySql.Decimal

/-- What has been read after one more digit that finds room. -/
def Taken.push (p : Taken) (d : Fin 10) : Taken :=
  ⟨10 * p.mantissa + d.val, if p.pointed then p.scale + 1 else 0, p.pointed, true⟩

namespace Taken

variable {p : Taken} {ds : List (Fin 10)}

/-- What has been read after digits that find room, if there are any. -/
theorem foldl_push (p : Taken) (hsome : ds ≠ []) :
    ds.foldl push p =
      ⟨ds.foldl (fun n d => 10 * n + d.val) p.mantissa,
        if p.pointed then p.scale + ds.length else 0, p.pointed, true⟩ := by
  induction ds generalizing p with
  | nil => exact absurd rfl hsome
  | cons d ds ih =>
    cases ds with
    | nil => rfl
    | cons e es =>
      have hplaces : p.scale + 1 + (e :: es).length = p.scale + (d :: e :: es).length := by
        simp only [List.length_cons]
        omega
      rw [List.foldl_cons, ih (p.push d) (List.cons_ne_nil e es)]
      cases hp : p.pointed with
      | false => simp only [push, hp, List.foldl_cons, Bool.false_eq_true, if_false]
      | true => simp only [push, hp, List.foldl_cons, if_true, hplaces]

/-- Digits do not make a mantissa less. -/
theorem mantissa_le_foldl_push (p : Taken) (ds : List (Fin 10)) :
    p.mantissa ≤ (ds.foldl push p).mantissa := by
  induction ds generalizing p with
  | nil => exact Nat.le_refl _
  | cons d ds ih =>
    have hstep : p.mantissa ≤ (p.push d).mantissa := by
      simp only [push]
      omega
    exact Nat.le_trans hstep (ih (p.push d))

/-- Digits are taken one after the other while there is room for them. -/
theorem readDigits?_append {rest : List Char} (hlt : (ds.foldl push p).mantissa < mantissaLimit)
    (hscale : p.pointed = true → p.scale + ds.length ≤ maxScale) :
    p.readDigits? (ds.map Text.digitChar ++ rest) = (ds.foldl push p).readDigits? rest := by
  induction ds generalizing p with
  | nil => rfl
  | cons d ds ih =>
    rw [List.length_cons] at hscale
    have hmantissa : 10 * p.mantissa + d.val < mantissaLimit :=
      Nat.lt_of_le_of_lt (mantissa_le_foldl_push (p.push d) ds) hlt
    have hroom : p.hasRoom d.val = true := by
      cases hp : p.pointed with
      | false => simp [hasRoom, hmantissa, hp]
      | true =>
        have hplace : ¬maxScale ≤ p.scale := by
          have := hscale hp
          omega
        simp [hasRoom, hmantissa, hplace]
    have hrest : (p.push d).pointed = true → (p.push d).scale + ds.length ≤ maxScale := by
      intro hp
      have hpointed : p.pointed = true := hp
      have := hscale hpointed
      simp only [push, hpointed, if_true]
      omega
    rw [List.map_cons, List.cons_append, readDigits?, Text.digit?_digitChar]
    simp only [hroom, if_true]
    exact ih hlt hrest

end Taken

variable (d : Decimal)

/-- The digits of a decimal: at least one more than stand after the point. -/
def digits : List (Fin 10) :=
  Text.paddedDigits (d.scale + 1) d.mantissa

/-- The digits before the point. -/
def whole : List (Fin 10) :=
  d.digits.take (d.digits.length - d.scale)

/-- The digits after the point. -/
def fraction : List (Fin 10) :=
  d.digits.drop (d.digits.length - d.scale)

/-- The text of a decimal without its sign. -/
def magnitude : List Char :=
  d.whole.map Text.digitChar ++
    if d.scale = 0 then [] else '.' :: d.fraction.map Text.digitChar

/-- There are more digits than stand after the point. -/
theorem scale_lt_length_digits : d.scale < d.digits.length := by
  simp only [digits, Text.paddedDigits, List.length_append, List.length_replicate]
  omega

/-- As many digits stand after the point as the scale says. -/
theorem length_fraction : d.fraction.length = d.scale := by
  have := d.scale_lt_length_digits
  rw [fraction, List.length_drop]
  omega

/-- There is a digit before the point. -/
theorem whole_ne_nil : d.whole ≠ [] := by
  have := d.scale_lt_length_digits
  refine List.ne_nil_of_length_pos ?_
  rw [whole, List.length_take]
  omega

/-- The characters of the text of a decimal. -/
theorem toList_text : d.text.toList = if d.negative then '-' :: d.magnitude else d.magnitude := by
  have hzero : Text.digitChar Text.zeroDigit = '0' := by decide
  have hfilled : List.replicate (d.scale + 1 - (Nat.toDigits 10 d.mantissa).length) '0' ++
      Nat.toDigits 10 d.mantissa = d.digits.map Text.digitChar := by
    rw [← Text.map_digitChar_digitsOf, digits, Text.paddedDigits, List.map_append,
      List.map_replicate, hzero, List.length_map]
  have hmagnitude : (if d.scale = 0 then d.whole.map Text.digitChar
      else d.whole.map Text.digitChar ++ '.' :: d.fraction.map Text.digitChar) = d.magnitude := by
    rw [magnitude]
    split
    · rw [List.append_nil]
    · rfl
  simp only [text, hfilled, List.splitAt_eq, String.toList_ofList, List.length_map,
    ← List.map_take, ← List.map_drop]
  rw [← hmagnitude]
  rfl

/-- The digits of a decimal, before and after the point, spell its mantissa. -/
theorem ofDigits_whole_append_fraction : Text.ofDigits (d.whole ++ d.fraction) = d.mantissa := by
  rw [whole, fraction, List.take_append_drop, digits, Text.ofDigits_paddedDigits]

/-- What has been read after the digits before the point. -/
theorem foldl_push_whole : d.whole.foldl Taken.push ⟨0, 0, false, false⟩ =
    ⟨Text.ofDigits d.whole, 0, false, true⟩ :=
  Taken.foldl_push _ d.whole_ne_nil

/-- What has been read after the digits behind the point, if there are any. -/
theorem foldl_push_fraction (hscale : d.scale ≠ 0) :
    d.fraction.foldl Taken.push ⟨Text.ofDigits d.whole, 0, true, true⟩ =
      ⟨d.mantissa, d.scale, true, true⟩ := by
  have hfraction : d.fraction ≠ [] := by
    refine List.ne_nil_of_length_pos ?_
    rw [d.length_fraction]
    exact Nat.pos_of_ne_zero hscale
  have hmantissa : d.fraction.foldl (fun n d => 10 * n + d.val) (Text.ofDigits d.whole) =
      d.mantissa := by
    rw [← d.ofDigits_whole_append_fraction, Text.ofDigits, Text.ofDigits, List.foldl_append]
  rw [Taken.foldl_push _ hfraction, hmantissa, if_pos rfl, d.length_fraction, Nat.zero_add]

/-- The digits before the point spell no more than the mantissa. -/
theorem ofDigits_whole_le : Text.ofDigits d.whole ≤ d.mantissa := by
  by_cases hscale : d.scale = 0
  · have hfraction : d.fraction = [] :=
      List.eq_nil_of_length_eq_zero (d.length_fraction.trans hscale)
    rw [← d.ofDigits_whole_append_fraction, hfraction, List.append_nil]
  · have hle := Taken.mantissa_le_foldl_push ⟨Text.ofDigits d.whole, 0, true, true⟩ d.fraction
    rwa [d.foldl_push_fraction hscale] at hle

/-- The digits before the point are all taken. -/
theorem readDigits?_whole (rest : List Char) :
    Taken.readDigits? ⟨0, 0, false, false⟩ (d.whole.map Text.digitChar ++ rest) =
      Taken.readDigits? ⟨Text.ofDigits d.whole, 0, false, true⟩ rest := by
  have hlt : (d.whole.foldl Taken.push ⟨0, 0, false, false⟩).mantissa < mantissaLimit := by
    rw [d.foldl_push_whole]
    exact Nat.lt_of_le_of_lt d.ofDigits_whole_le d.mantissa_lt
  rw [Taken.readDigits?_append hlt (by simp), d.foldl_push_whole]

/-- The digits behind the point are all taken. -/
theorem readDigits?_fraction (hscale : d.scale ≠ 0) :
    Taken.readDigits? ⟨Text.ofDigits d.whole, 0, true, true⟩ (d.fraction.map Text.digitChar) =
      some ⟨d.mantissa, d.scale, true, true⟩ := by
  have hlt : (d.fraction.foldl Taken.push ⟨Text.ofDigits d.whole, 0, true, true⟩).mantissa <
      mantissaLimit := by
    rw [d.foldl_push_fraction hscale]
    exact d.mantissa_lt
  have hplaces : 0 + d.fraction.length ≤ maxScale := by
    rw [Nat.zero_add, d.length_fraction]
    exact d.scale_le
  rw [← List.append_nil (d.fraction.map Text.digitChar)]
  refine (Taken.readDigits?_append hlt fun _ => hplaces).trans ?_
  rw [d.foldl_push_fraction hscale]
  rfl

/-- The digits of a decimal are all taken. -/
theorem readDigits?_magnitude : Taken.readDigits? ⟨0, 0, false, false⟩ d.magnitude =
    some ⟨d.mantissa, d.scale, d.scale != 0, true⟩ := by
  rw [magnitude, d.readDigits?_whole]
  by_cases hscale : d.scale = 0
  · have hfraction : d.fraction = [] :=
      List.eq_nil_of_length_eq_zero (d.length_fraction.trans hscale)
    have hnumber := d.ofDigits_whole_append_fraction
    rw [hfraction, List.append_nil] at hnumber
    rw [if_pos hscale, hscale, hnumber]
    rfl
  · have hpoint : Text.digit? '.' = none := by decide
    have hscaled : (d.scale != 0) = true := by simpa using hscale
    rw [if_neg hscale, Taken.readDigits?, hpoint, hscaled]
    exact d.readDigits?_fraction hscale

/-- A character of a decimal without its sign is a digit or the point. -/
theorem of_mem_magnitude {c : Char} (h : c ∈ d.magnitude) :
    c = '.' ∨ ∃ digit, c = Text.digitChar digit := by
  have hdigit {ds : List (Fin 10)} (h : c ∈ ds.map Text.digitChar) :
      ∃ digit, c = Text.digitChar digit := by
    obtain ⟨digit, -, rfl⟩ := List.mem_map.mp h
    exact ⟨digit, rfl⟩
  rw [magnitude] at h
  rcases List.mem_append.mp h with h | h
  · exact Or.inr (hdigit h)
  · split at h
    · cases h
    · rcases List.mem_cons.mp h with rfl | h
      · exact Or.inl rfl
      · exact Or.inr (hdigit h)

/-- The digits of a decimal are read as the decimal, without the sign of a zero. -/
theorem readMagnitude?_magnitude : readMagnitude? d.negative d.magnitude =
    some ⟨d.negative && d.mantissa != 0, d.mantissa, d.scale, d.mantissa_lt, d.scale_le⟩ := by
  have hdigit : ∀ digit : Fin 10, Text.digitChar digit ≠ 'e' ∧ Text.digitChar digit ≠ 'E' := by
    decide
  have hunmarked : ∀ c ∈ d.magnitude, (!(c == 'e' || c == 'E')) = true := by
    intro c hc
    rcases d.of_mem_magnitude hc with rfl | ⟨digit, rfl⟩
    · decide
    · simp [hdigit digit]
  have hbase := List.takeWhile_eq_self_iff.mpr hunmarked
  have hrest := List.dropWhile_eq_nil_iff.mpr hunmarked
  simp only [readMagnitude?, hbase, hrest, readDigits?_magnitude]
  have hmantissa := d.mantissa_lt
  have hscale := d.scale_le
  simp [Taken.shift?, ofParts?, hmantissa, hscale]

/-- The text of a decimal is read by its sign and its digits. -/
theorem read?_text_eq : read? d.text = readMagnitude? d.negative d.magnitude := by
  rw [read?, toList_text]
  cases hnegative : d.negative with
  | true => rfl
  | false =>
    have hsign : ∀ digit : Fin 10, Text.digitChar digit ≠ '-' ∧ Text.digitChar digit ≠ '+' := by
      decide
    obtain ⟨digit, ds, hds⟩ := List.exists_cons_of_ne_nil d.whole_ne_nil
    obtain ⟨cs, hcs⟩ : ∃ cs, d.magnitude = Text.digitChar digit :: cs := by
      rw [magnitude, hds]
      exact ⟨_, rfl⟩
    simp only [Bool.false_eq_true, if_false, hcs]
    split
    · rename_i heq
      exact absurd (List.cons.inj heq).1 (hsign digit).1
    · rename_i heq
      exact absurd (List.cons.inj heq).1 (hsign digit).2
    · rfl

/-- The text of a decimal spells the decimal exactly when it is no zero with a sign. -/
theorem read?_text_iff : read? d.text = some d ↔ (d.negative = true → d.mantissa ≠ 0) := by
  rw [read?_text_eq, readMagnitude?_magnitude, Option.some_inj, Decimal.mk.injEq]
  cases d.negative <;> simp

/-- The text of a decimal spells the decimal, unless it is a zero with a sign. -/
theorem read?_text (h : d.negative = true → d.mantissa ≠ 0) : read? d.text = some d :=
  d.read?_text_iff.mpr h

/-- There is no white space in the text of a decimal. -/
theorem trim_text : Text.trim d.text = d.text := by
  have hmagnitude : ∀ c ∈ d.magnitude, Text.isBlank c = false := by
    intro c hc
    rcases d.of_mem_magnitude hc with rfl | ⟨digit, rfl⟩
    · decide
    · exact Text.isBlank_digitChar digit
  refine Text.trim_of_forall fun c hc => ?_
  rw [toList_text] at hc
  split at hc
  · rcases List.mem_cons.mp hc with rfl | hc
    · decide
    · exact hmagnitude c hc
  · exact hmagnitude c hc

end EntitySql.Decimal
