import EntitySql.Proofs.Text.Digits
import EntitySql.Timestamp

/-!
# Timestamps that are read back

The text of a timestamp fits the first of the patterns by which timestamps are read.
Each part of the pattern takes what was written for it and leaves the rest, so that the
fields read are those of the timestamp, also outside the years of four digits.
-/

namespace EntitySql

namespace Calendar

variable {year : Int} {month day hour minute second nanosecond : Nat}

/-- The month and the day of a date have two digits. -/
theorem lt_of_isDate (h : isDate year month day = true) : month < 10 ^ 2 ∧ day < 10 ^ 2 := by
  simp only [isDate, Bool.and_eq_true, decide_eq_true_eq] at h
  obtain ⟨⟨-, hfirst⟩, hlast⟩ := h
  have hday : daysInMonth year month ≤ 31 ∧ (daysInMonth year month ≠ 0 → month ≤ 12) := by
    unfold daysInMonth
    split <;> (try split) <;> omega
  omega

/-- The parts of a time of day to the second have two digits, its fraction has nine. -/
theorem lt_of_isTime (h : isTime hour minute second nanosecond = true) :
    hour < 10 ^ 2 ∧ minute < 10 ^ 2 ∧ second < 10 ^ 2 ∧ nanosecond < 10 ^ 9 := by
  simp only [isTime, Bool.and_eq_true, decide_eq_true_eq] at h
  omega

end Calendar

namespace Timestamp

variable {r r' : Reading} {rest cs : List Char}

/-- As many digits as are asked for at most are read as their number. -/
theorem readNumber?_digits {width : Nat} {ds : List (Fin 10)} (hsome : ds ≠ [])
    (hwidth : ds.length ≤ width) (hrest : ∀ c ∈ rest.head?, Text.digit? c = none) :
    readNumber? width (ds.map Text.digitChar ++ rest) = some ((Text.ofDigits ds : Int), rest) := by
  have htaken : takeDigits width (ds.map Text.digitChar ++ rest) = (ds, rest) := by
    have hall : ds.take width = ds := List.take_of_length_le hwidth
    have hdrop : (ds.map Text.digitChar ++ rest).drop ds.length = rest :=
      List.drop_left' (List.length_map _)
    simp only [takeDigits, Text.spanDigits_append ds hrest, hall, hdrop]
  have hempty : ds.isEmpty = false := List.isEmpty_eq_false_iff.mpr hsome
  simp only [readNumber?, htaken, hempty]
  rfl

/-- A padded number with as many digits as are asked for at most is read back. -/
theorem readNumber?_padded {width pad n : Nat} (hwidth : (Text.paddedDigits pad n).length ≤ width)
    (hrest : ∀ c ∈ rest.head?, Text.digit? c = none) :
    readNumber? width ((Text.padded pad n).toList ++ rest) = some ((n : Int), rest) := by
  rw [Text.toList_padded, readNumber?_digits (Text.paddedDigits_ne_nil pad n) hwidth hrest,
    Text.ofDigits_paddedDigits]

/-- A padded number begins with no white space and no sign. -/
theorem exists_padded_eq (pad n : Nat) :
    ∃ d cs, (Text.padded pad n).toList = Text.digitChar d :: cs := by
  obtain ⟨d, ds, hds⟩ := List.exists_cons_of_ne_nil (Text.paddedDigits_ne_nil pad n)
  exact ⟨d, ds.map Text.digitChar, by rw [Text.toList_padded, hds, List.map_cons]⟩

/-- There is no white space in front of a padded number. -/
theorem dropWhile_padded (pad n : Nat) (rest : List Char) :
    ((Text.padded pad n).toList ++ rest).dropWhile Text.isBlank =
      (Text.padded pad n).toList ++ rest :=
  Text.dropWhile_isBlank_append (Text.toList_padded_ne_nil pad n)
    (fun _ h => Text.isBlank_of_mem_padded h) rest

/-- A field of two digits is read back. -/
theorem readPart?_field {f : Field} {n : Nat} (hf : f ≠ .year) (hn : n < 10 ^ 2)
    (hrest : ∀ c ∈ rest.head?, Text.digit? c = none) :
    readPart? r (.field f) ((Text.padded 2 n).toList ++ rest) = some (r.set f n, rest) := by
  have hread := readNumber?_padded (Nat.le_of_eq (Text.length_paddedDigits (by decide) hn)) hrest
  cases f with
  | year => exact absurd rfl hf
  | month | day | hour | minute | second =>
    simp only [readPart?, dropWhile_padded, hread, Option.map_some]

/-- A year that begins with a digit has no sign. -/
theorem readYear?_digit (d : Fin 10) (cs : List Char) :
    readYear? (Text.digitChar d :: cs) = readNumber? 4 (Text.digitChar d :: cs) := by
  have hsign : ∀ d : Fin 10, Text.digitChar d ≠ '-' ∧ Text.digitChar d ≠ '+' := by decide
  obtain ⟨hminus, hplus⟩ := hsign d
  unfold readYear?
  split
  · rename_i heq
    exact absurd (List.cons.inj heq).1 hminus
  · rename_i heq
    exact absurd (List.cons.inj heq).1 hplus
  · rfl

/-- The text of a year that has a sign. -/
theorem toList_yearText_of_sign {year : Int} (h : ¬(0 ≤ year ∧ year ≤ 9999)) :
    (yearText year).toList =
      (if year < 0 then '-' else '+') :: (Text.padded 4 year.natAbs).toList := by
  have hminus : "-".toList = ['-'] := by decide
  have hplus : "+".toList = ['+'] := by decide
  rw [yearText, if_neg h, String.toList_append]
  split
  · rw [hminus, List.singleton_append]
  · rw [hplus, List.singleton_append]

/-- A year is read back, with its sign if it has one. -/
theorem readYear?_yearText (year : Int) (hrest : ∀ c ∈ rest.head?, Text.digit? c = none) :
    readYear? ((yearText year).toList ++ rest) = some (year, rest) := by
  by_cases hshort : 0 ≤ year ∧ year ≤ 9999
  · have hlt : year.toNat < 10 ^ 4 := by omega
    have hread := readNumber?_padded (Nat.le_of_eq (Text.length_paddedDigits (by decide) hlt)) hrest
    have hyear : (year.toNat : Int) = year := by omega
    obtain ⟨d, cs, hcs⟩ := exists_padded_eq 4 year.toNat
    rw [hcs, List.cons_append] at hread
    rw [yearText, if_pos hshort, hcs, List.cons_append, readYear?_digit, hread, hyear]
  · -- the digits of a year with a sign go on to the end of its text
    have hread : readNumber? ((Text.padded 4 year.natAbs).toList ++ rest).length
        ((Text.padded 4 year.natAbs).toList ++ rest) = some ((year.natAbs : Int), rest) := by
      refine readNumber?_padded ?_ hrest
      rw [Text.toList_padded, List.length_append, List.length_map]
      exact Nat.le_add_right _ _
    rw [toList_yearText_of_sign hshort, List.cons_append]
    by_cases hnegative : year < 0
    · have hyear : -(year.natAbs : Int) = year := by omega
      rw [if_pos hnegative, readYear?, hread, Option.map_some]
      exact congrArg (fun n => some (n, rest)) hyear
    · have hyear : (year.natAbs : Int) = year := by omega
      rw [if_neg hnegative, readYear?, hread, hyear]

/-- A year has a text without white space. -/
theorem isBlank_of_mem_yearText {year : Int} {c : Char} (h : c ∈ (yearText year).toList) :
    Text.isBlank c = false := by
  by_cases hshort : 0 ≤ year ∧ year ≤ 9999
  · rw [yearText, if_pos hshort] at h
    exact Text.isBlank_of_mem_padded h
  · rw [toList_yearText_of_sign hshort] at h
    rcases List.mem_cons.mp h with rfl | h
    · split <;> decide
    · exact Text.isBlank_of_mem_padded h

/-- The text of a year is not empty. -/
theorem toList_yearText_ne_nil (year : Int) : (yearText year).toList ≠ [] := by
  by_cases hshort : 0 ≤ year ∧ year ≤ 9999
  · rw [yearText, if_pos hshort]
    exact Text.toList_padded_ne_nil 4 _
  · rw [toList_yearText_of_sign hshort]
    exact List.cons_ne_nil _ _

/-- The field of a year is read back. -/
theorem readPart?_year (year : Int) (hrest : ∀ c ∈ rest.head?, Text.digit? c = none) :
    readPart? r (.field .year) ((yearText year).toList ++ rest) =
      some (r.set .year year, rest) := by
  have hblank := Text.dropWhile_isBlank_append (toList_yearText_ne_nil year)
    (fun _ h => isBlank_of_mem_yearText h) rest
  simp only [readPart?, hblank, readYear?_yearText year hrest, Option.map_some]

/-- A fraction of as many digits as it may have is read back as so many nanoseconds. -/
theorem readPart?_fraction {width n : Nat} (hwidth : 0 < width) (hle : width ≤ 9)
    (hn : n < 10 ^ width) (hrest : ∀ c ∈ rest.head?, Text.digit? c = none) :
    readPart? r .fraction ('.' :: ((Text.padded width n).toList ++ rest)) =
      some ({ r with nanosecond := n * 10 ^ (9 - width) }, rest) := by
  have hlength := Text.length_paddedDigits hwidth hn
  have hall : (Text.paddedDigits width n).take 9 = Text.paddedDigits width n :=
    List.take_of_length_le (by omega)
  obtain ⟨d, ds, hds⟩ := List.exists_cons_of_ne_nil (Text.paddedDigits_ne_nil width n)
  have hnumber := Text.ofDigits_paddedDigits width n
  simp only [readPart?, readFraction?, Text.toList_padded, Text.spanDigits_append _ hrest]
  rw [hds] at hall hlength hnumber ⊢
  simp only [hall, hlength, hnumber, Option.map_some]
  rfl

/-- The text of a fraction is read back, also when there is none. -/
theorem readPart?_fractionText {n : Nat} (hn : n < 10 ^ 9) (hr : r.nanosecond = 0) :
    readPart? r .fraction (fractionText n).toList = some ({ r with nanosecond := n }, []) := by
  have hnone : ∀ c ∈ ([] : List Char).head?, Text.digit? c = none := by simp
  have hread {width m : Nat} (hwidth : 0 < width) (hle : width ≤ 9) (hm : m < 10 ^ width)
      (hvalue : m * 10 ^ (9 - width) = n) :
      readPart? r .fraction ("." ++ Text.padded width m).toList =
        some ({ r with nanosecond := n }, []) := by
    have h := readPart?_fraction (r := r) hwidth hle hm hnone
    rw [hvalue, List.append_nil] at h
    rw [String.toList_append]
    exact h
  unfold fractionText
  split
  · rename_i hzero
    subst hzero
    rw [← hr]
    rfl
  · split
    · exact hread (by decide) (by decide) (by omega) (by omega)
    · split
      · exact hread (by decide) (by decide) (by omega) (by omega)
      · exact hread (by decide) (by decide) hn (by omega)

/-- A space in front of a padded number is passed over. -/
theorem readPart?_space (n : Nat) (rest : List Char) :
    readPart? r .space (' ' :: ((Text.padded 2 n).toList ++ rest)) =
      some (r, (Text.padded 2 n).toList ++ rest) := by
  rw [readPart?, List.dropWhile_cons_of_pos (by decide), dropWhile_padded]

/-- A part that is read leaves the others of its pattern to the rest. -/
theorem readParts?_cons {p : Part} {ps : List Part} (h : readPart? r p cs = some (r', rest)) :
    readParts? r (p :: ps) cs = readParts? r' ps rest := by
  rw [readParts?, h, Option.bind_some]

/-- White space that is not there is passed over. -/
theorem readPart?_space_of_not_blank {c : Char} (hc : Text.isBlank c = false) (cs : List Char) :
    readPart? r .space (c :: cs) = some (r, c :: cs) := by
  rw [readPart?, List.dropWhile_cons_of_neg (by simp [hc])]

/-- The characters of the text of a timestamp, part by part. -/
theorem toList_textWith (t : Timestamp) {separator : String} {c : Char}
    (hseparator : separator.toList = [c]) : (t.textWith separator).toList =
    (yearText t.year).toList ++ '-' :: ((Text.padded 2 t.month).toList ++ '-' ::
      ((Text.padded 2 t.day).toList ++ c :: ((Text.padded 2 t.hour).toList ++ ':' ::
        ((Text.padded 2 t.minute).toList ++ ':' :: ((Text.padded 2 t.second).toList ++
          (fractionText t.nanosecond).toList))))) := by
  have hhyphen : "-".toList = ['-'] := by decide
  have hcolon : ":".toList = [':'] := by decide
  simp only [textWith, dateText, clockText, String.toList_append, hhyphen, hseparator, hcolon,
    List.append_assoc, List.cons_append, List.nil_append]

/-- A fraction does not begin with a digit. -/
theorem head?_fractionText (n : Nat) :
    ∀ c ∈ (fractionText n).toList.head?, Text.digit? c = none := by
  have hpoint (s : String) : ∀ c ∈ ("." ++ s).toList.head?, Text.digit? c = none := by
    intro c hc
    rw [String.toList_append] at hc
    cases hc
    decide
  unfold fractionText
  split
  · simp
  · split
    · exact hpoint _
    · split <;> exact hpoint _

/-- A character that is no digit ends a number. -/
theorem head?_of_mark {c : Char} (hc : Text.digit? c = none) (rest : List Char) :
    ∀ c' ∈ (c :: rest).head?, Text.digit? c' = none := by
  intro c' hc'
  cases hc'
  exact hc

/-- The text of a timestamp fits the first pattern, with the fields of the timestamp. -/
theorem readParts?_text (t : Timestamp) :
    readParts? {} (dateParts ++ .space :: clockParts) t.text.toList =
      some ⟨t.year, t.month, t.day, t.hour, t.minute, t.second, t.nanosecond⟩ := by
  obtain ⟨hmonth, hday⟩ := Calendar.lt_of_isDate t.date_valid
  obtain ⟨hhour, hminute, hsecond, hnanosecond⟩ := Calendar.lt_of_isTime t.time_valid
  rw [text, toList_textWith t (c := ' ') (by decide), dateParts, clockParts, minuteParts]
  simp only [List.cons_append, List.nil_append]
  rw [readParts?_cons (readPart?_year t.year (head?_of_mark (by decide) _)), readParts?_cons rfl,
    readParts?_cons (readPart?_field (by decide) hmonth (head?_of_mark (by decide) _)),
    readParts?_cons rfl,
    readParts?_cons (readPart?_field (by decide) hday (head?_of_mark (by decide) _)),
    readParts?_cons (readPart?_space t.hour _),
    readParts?_cons (readPart?_field (by decide) hhour (head?_of_mark (by decide) _)),
    readParts?_cons rfl,
    readParts?_cons (readPart?_field (by decide) hminute (head?_of_mark (by decide) _)),
    readParts?_cons rfl,
    readParts?_cons (readPart?_field (by decide) hsecond (head?_fractionText _)),
    readParts?_cons (readPart?_fractionText hnanosecond rfl)]
  rfl

/-- The serialized text of a timestamp fits its pattern, with the fields of the timestamp. -/
theorem readParts?_isoText (t : Timestamp) :
    readParts? {} isoPattern t.isoText.toList =
      some ⟨t.year, t.month, t.day, t.hour, t.minute, t.second, t.nanosecond⟩ := by
  obtain ⟨hmonth, hday⟩ := Calendar.lt_of_isDate t.date_valid
  obtain ⟨hhour, hminute, hsecond, hnanosecond⟩ := Calendar.lt_of_isTime t.time_valid
  rw [isoText, toList_textWith t (c := 'T') (by decide), isoPattern]
  rw [readParts?_cons (readPart?_year t.year (head?_of_mark (by decide) _)),
    readParts?_cons (readPart?_space_of_not_blank (by decide) _), readParts?_cons rfl,
    readParts?_cons (readPart?_field (by decide) hmonth (head?_of_mark (by decide) _)),
    readParts?_cons (readPart?_space_of_not_blank (by decide) _), readParts?_cons rfl,
    readParts?_cons (readPart?_field (by decide) hday (head?_of_mark (by decide) _)),
    readParts?_cons (readPart?_space_of_not_blank (by decide) _), readParts?_cons rfl,
    readParts?_cons (readPart?_field (by decide) hhour (head?_of_mark (by decide) _)),
    readParts?_cons (readPart?_space_of_not_blank (by decide) _), readParts?_cons rfl,
    readParts?_cons (readPart?_field (by decide) hminute (head?_of_mark (by decide) _)),
    readParts?_cons (readPart?_space_of_not_blank (by decide) _), readParts?_cons rfl,
    readParts?_cons (readPart?_field (by decide) hsecond (head?_fractionText _)),
    readParts?_cons (readPart?_fractionText hnanosecond rfl)]
  rfl

/-- The fields of a timestamp are those of a timestamp. -/
theorem ofFields?_fields (t : Timestamp) :
    ofFields? t.year t.month t.day t.hour t.minute t.second t.nanosecond = some t := by
  rw [ofFields?, dif_pos t.date_valid, dif_pos t.time_valid]

/-- The text of a timestamp spells the timestamp. -/
theorem read?_text (t : Timestamp) : read? t.text = some t := by
  have hfirst : readBy? (dateParts ++ .space :: clockParts) t.text.toList = some t := by
    rw [readBy?, readParts?_text, Option.bind_some, ofFields?_fields]
  rw [read?, patterns, List.findSome?_cons, hfirst]

/-- The serialized text of a timestamp spells the timestamp. -/
theorem readIso?_isoText (t : Timestamp) : readIso? t.isoText = some t := by
  rw [readIso?, readBy?, readParts?_isoText, Option.bind_some, ofFields?_fields]

/-- A fraction has a text without white space. -/
theorem isBlank_of_mem_fractionText {n : Nat} {c : Char} (h : c ∈ (fractionText n).toList) :
    Text.isBlank c = false := by
  have hpoint : ".".toList = ['.'] := by decide
  have hdigits {width m : Nat} (h : c ∈ ("." ++ Text.padded width m).toList) :
      Text.isBlank c = false := by
    rw [String.toList_append, hpoint, List.singleton_append] at h
    rcases List.mem_cons.mp h with rfl | h
    · decide
    · exact Text.isBlank_of_mem_padded h
  unfold fractionText at h
  split at h
  · simp at h
  · split at h
    · exact hdigits h
    · split at h <;> exact hdigits h

/-- There is no white space at the ends of the text of a timestamp. -/
theorem trim_text (t : Timestamp) : Text.trim t.text = t.text := by
  have hfront : (yearText t.year).toList <+: t.text.toList :=
    ⟨_, (toList_textWith t (c := ' ') (by decide)).symm⟩
  have hback : (Text.padded 2 t.second).toList ++ (fractionText t.nanosecond).toList <:+
      t.text.toList := by
    refine ⟨(t.dateText ++ " " ++ Text.padded 2 t.hour ++ ":" ++ Text.padded 2 t.minute ++
      ":").toList, ?_⟩
    simp only [text, textWith, clockText, String.toList_append, List.append_assoc]
  refine Text.trim_of_parts hfront (toList_yearText_ne_nil _)
    (fun _ h => isBlank_of_mem_yearText h) hback
    (List.append_ne_nil_of_left_ne_nil (Text.toList_padded_ne_nil 2 _) _) ?_
  intro c hc
  rcases List.mem_append.mp hc with h | h
  · exact Text.isBlank_of_mem_padded h
  · exact isBlank_of_mem_fractionText h

end Timestamp

end EntitySql
