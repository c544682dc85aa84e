import EntitySql.Text.Letters

/-!
# Names, folding and numbers

Folding the case of letters keeps the shape of a name. A number written after an
underscore can be read off the end of a name, so that names of two numbers differ.
-/

namespace EntitySql.Text

/-- Folding works character by character. -/
theorem toList_foldCase (s : String) : (foldCase s).toList = s.toList.map Char.toLower :=
  String.toList_map

/-- Folding two names in a row folds each. -/
theorem foldCase_append (a b : String) : foldCase (a ++ b) = foldCase a ++ foldCase b := by
  apply String.toList_inj.mp
  simp [toList_foldCase]

private theorem isUpper_eq (c : Char) :
    c.isUpper = decide (c.val ≥ 'A'.val ∧ c.val ≤ 'Z'.val) := rfl

private theorem isLower_eq (c : Char) :
    c.isLower = (decide (c.val ≥ 'a'.val) && decide (c.val ≤ 'z'.val)) := rfl

private theorem isAlpha_eq (c : Char) : c.isAlpha = (c.isUpper || c.isLower) := rfl

private theorem isUpper_iff {c : Char} : c.isUpper = true ↔ 65 ≤ c.toNat ∧ c.toNat ≤ 90 := by
  simp [isUpper_eq, UInt32.le_iff_toNat_le, ← Char.toNat_val]

private theorem isLower_iff {c : Char} : c.isLower = true ↔ 97 ≤ c.toNat ∧ c.toNat ≤ 122 := by
  simp [isLower_eq, UInt32.le_iff_toNat_le, ← Char.toNat_val]

private theorem isDigit_iff {c : Char} : c.isDigit = true ↔ 48 ≤ c.toNat ∧ c.toNat ≤ 57 := by
  simp [Char.isDigit, UInt32.le_iff_toNat_le, ← Char.toNat_val]

private theorem toNat_toLower {c : Char} (h : c.isUpper = true) :
    c.toLower.toNat = c.toNat + 32 := by
  have hu : c.val ≥ 'A'.val ∧ c.val ≤ 'Z'.val := by simpa [isUpper_eq] using h
  obtain ⟨_, hle⟩ := isUpper_iff.mp h
  unfold Char.toLower
  rw [dif_pos hu]
  rw [← Char.toNat_val] at hle
  rw [← Char.toNat_val, ← Char.toNat_val, UInt32.toNat_add]
  exact Nat.mod_eq_of_lt (show c.val.toNat + 32 < 2 ^ 32 by omega)

/-- Every character that is no capital letter stays as it is. -/
theorem toLower_of_not_isUpper {c : Char} (h : c.isUpper = false) : c.toLower = c := by
  have hu : ¬(c.val ≥ 'A'.val ∧ c.val ≤ 'Z'.val) := by simpa [isUpper_eq] using h
  unfold Char.toLower
  rw [dif_neg hu]

/-- Folding a letter gives a letter, and nothing else becomes one. -/
theorem isAlpha_toLower (c : Char) : c.toLower.isAlpha = c.isAlpha := by
  cases h : c.isUpper with
  | false => rw [toLower_of_not_isUpper h]
  | true =>
    have hlower : c.toLower.isLower = true := by
      obtain ⟨hge, hle⟩ := isUpper_iff.mp h
      rw [isLower_iff, toNat_toLower h]
      omega
    simp [isAlpha_eq, hlower, h]

/-- Folding neither makes nor removes a start of a name. -/
theorem startsName_toLower (c : Char) : startsName c.toLower = startsName c := by
  cases h : c.isUpper with
  | false => rw [toLower_of_not_isUpper h]
  | true =>
    have halpha : c.isAlpha = true := by simp [isAlpha_eq, h]
    simp only [startsName, isAlpha_toLower, halpha, Bool.true_or]

/-- Folding neither makes nor removes a character of a name. -/
theorem continuesName_toLower (c : Char) : continuesName c.toLower = continuesName c := by
  cases h : c.isUpper with
  | false => rw [toLower_of_not_isUpper h]
  | true =>
    have halpha : c.isAlpha = true := by simp [isAlpha_eq, h]
    simp only [continuesName, Char.isAlphanum, isAlpha_toLower, halpha, Bool.true_or]

/-- Whatever can start a name can continue one. -/
theorem continuesName_of_startsName {c : Char} (h : startsName c = true) :
    continuesName c = true := by
  simp only [startsName, continuesName, Char.isAlphanum, Bool.or_eq_true] at h ⊢
  exact h.imp_left Or.inl

/-- A name is a first character and characters that continue it. -/
theorem isIdentifier_iff {s : String} :
    isIdentifier s = true ↔
      ∃ c cs, s.toList = c :: cs ∧ startsName c = true ∧ ∀ d ∈ cs, continuesName d = true := by
  unfold isIdentifier
  cases hs : s.toList with
  | nil => simp
  | cons c cs =>
    simp only [Bool.and_eq_true, List.all_eq_true, List.cons.injEq]
    exact ⟨fun h => ⟨c, cs, ⟨rfl, rfl⟩, h⟩, fun ⟨_, _, ⟨hc, hcs⟩, h⟩ => hc ▸ hcs ▸ h⟩

/-- Every character of a name continues one. -/
theorem continuesName_of_mem {s : String} (h : isIdentifier s = true) {c : Char}
    (hc : c ∈ s.toList) : continuesName c = true := by
  obtain ⟨first, rest, hs, hfirst, hrest⟩ := isIdentifier_iff.mp h
  rw [hs] at hc
  rcases List.mem_cons.mp hc with rfl | hc
  · exact continuesName_of_startsName hfirst
  · exact hrest c hc

/-- Characters of a name before a text that does not go on with it are the longest name there. -/
theorem span_continuesName {cs rest : List Char} (hall : ∀ c ∈ cs, continuesName c = true)
    (hend : ∀ c ∈ rest.head?, continuesName c = false) :
    (cs ++ rest).takeWhile continuesName = cs ∧
      (cs ++ rest).dropWhile continuesName = rest := by
  rw [List.takeWhile_append_of_pos hall, List.dropWhile_append_of_pos hall]
  cases rest with
  | nil => simp
  | cons c rest => simp [hend c rfl]

/-- A folded name is a name exactly when the name is one. -/
theorem isIdentifier_foldCase (s : String) : isIdentifier (foldCase s) = isIdentifier s := by
  unfold isIdentifier
  rw [toList_foldCase]
  cases s.toList with
  | nil => rfl
  | cons c cs =>
    simp only [List.map_cons, startsName_toLower, List.all_map]
    congr 2
    funext d
    exact continuesName_toLower d

/-- Being a name does not depend on the case of letters. -/
theorem isIdentifier_of_sameName {a b : String} (h : sameName a b = true)
    (ha : isIdentifier a = true) : isIdentifier b = true := by
  rw [← isIdentifier_foldCase, ← sameName_eq_true_iff.mp h, isIdentifier_foldCase]
  exact ha

/-- A name stays a name with characters after it that continue it. -/
theorem isIdentifier_append {a b : String} (ha : isIdentifier a = true)
    (hb : ∀ c ∈ b.toList, continuesName c = true) : isIdentifier (a ++ b) = true := by
  obtain ⟨c, cs, hs, hc, hcs⟩ := isIdentifier_iff.mp ha
  refine isIdentifier_iff.mpr ⟨c, cs ++ b.toList, by simp [hs], hc, fun d hd => ?_⟩
  rcases List.mem_append.mp hd with hd | hd
  · exact hcs d hd
  · exact hb d hd

/-- The text of a number holds digits only. -/
theorem isDigit_of_mem_toString {n : Nat} {c : Char} (h : c ∈ (toString n).toList) :
    c.isDigit = true := by
  rw [Nat.toString_eq_repr, Nat.toList_repr] at h
  exact Nat.isDigit_of_mem_toDigits (by decide) (by decide) h

/-- A digit can continue a name. -/
theorem continuesName_of_isDigit {c : Char} (h : c.isDigit = true) : continuesName c = true := by
  simp [continuesName, Char.isAlphanum, h]

/-- Numbers with the same text are the same. -/
theorem toString_nat_inj {m n : Nat} : toString m = toString n ↔ m = n := by
  refine ⟨fun h => ?_, fun h => h ▸ rfl⟩
  have hdigits : Nat.toDigits 10 m = Nat.toDigits 10 n := by
    rw [← Nat.toList_repr, ← Nat.toList_repr, ← Nat.toString_eq_repr, h, Nat.toString_eq_repr]
  rw [← Nat.ofDigitChars_ten_toDigits (n := m), hdigits, Nat.ofDigitChars_ten_toDigits]

/-- A text without capital letters stays as it is. -/
theorem foldCase_of_not_isUpper {s : String} (h : ∀ c ∈ s.toList, c.isUpper = false) :
    foldCase s = s := by
  apply String.toList_inj.mp
  rw [toList_foldCase]
  rw [List.map_congr_left fun c hc => toLower_of_not_isUpper (h c hc), List.map_id']

/-- A number and the underscore before it hold no capital letter. -/
theorem foldCase_number (n : Nat) : foldCase ("_" ++ toString n) = "_" ++ toString n := by
  refine foldCase_of_not_isUpper fun c hc => ?_
  rcases List.mem_append.mp (String.toList_append ▸ hc) with hc | hc
  · rw [List.mem_singleton.mp hc]
    decide
  · have hdigit := isDigit_iff.mp (isDigit_of_mem_toString hc)
    rw [← Bool.not_eq_true, isUpper_iff]
    omega

/-- Of two texts that end in an underscore and characters that are no underscore, both the part
before it and the part after it can be read off. -/
theorem append_underscore_inj {a b u v : List Char} (hu : '_' ∉ u) (hv : '_' ∉ v)
    (h : a ++ '_' :: u = b ++ '_' :: v) : a = b ∧ u = v := by
  rcases List.append_eq_append_iff.mp h with ⟨mid, hb, hmid⟩ | ⟨mid, ha, hmid⟩
  · cases mid with
    | nil => simpa [hb] using hmid
    | cons c mid =>
      have : '_' ∈ u := by
        rw [(List.cons.inj hmid).2]
        simp
      exact absurd this hu
  · cases mid with
    | nil => simpa [ha, eq_comm] using hmid
    | cons c mid =>
      have : '_' ∈ v := by
        rw [(List.cons.inj hmid).2]
        simp
      exact absurd this hv

/-- A name and the number after it can be read off the two in a row. -/
theorem append_number_inj {a b : String} {m n : Nat}
    (h : a ++ ("_" ++ toString m) = b ++ ("_" ++ toString n)) : a = b ∧ m = n := by
  have hlist : a.toList ++ '_' :: (toString m).toList = b.toList ++ '_' :: (toString n).toList := by
    simpa using congrArg String.toList h
  have hnone (k : Nat) : '_' ∉ (toString k).toList := by
    rw [Nat.toString_eq_repr, Nat.toList_repr]
    exact Nat.underscore_not_in_toDigits
  obtain ⟨hname, hnumber⟩ := append_underscore_inj (hnone m) (hnone n) hlist
  exact ⟨String.toList_inj.mp hname, toString_nat_inj.mp (String.toList_inj.mp hnumber)⟩

end EntitySql.Text
