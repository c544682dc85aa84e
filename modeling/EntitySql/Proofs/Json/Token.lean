import EntitySql.Json.Token
import EntitySql.Proofs.Text.Digits

/-!
# Tokens that are read back

What is written for a token is read as that token, whatever follows it: only a numeral
must not be followed by what would go on with it. So a list of tokens is read from the
text that is made of them.
-/

namespace EntitySql.Json

/-- A text does not go on with a numeral that stands before it. -/
def EndsNumeral (cs : List Char) : Prop :=
  ∀ c ∈ cs.head?, Text.digit? c = none ∧ c ≠ '.' ∧ c ≠ 'e' ∧ c ≠ 'E'

namespace Numeral

/-- A numeral as JSON allows it: digits in every part that it has, and no zero in front of
others. -/
structure WellFormed (n : Numeral) : Prop where
  whole : n.whole ≠ []
  zero : n.whole.head? = some Text.zeroDigit → n.whole.length = 1
  exponent : ∀ e ∈ n.exponent, e.2 ≠ []

/-- The point and the digits after it. -/
def fractionChars (n : Numeral) : List Char :=
  if n.fraction.isEmpty then [] else '.' :: n.fraction.map Text.digitChar

/-- The exponent with its mark and its sign. -/
def exponentChars (n : Numeral) : List Char :=
  match n.exponent with
  | none => []
  | some (negative, ds) => 'e' :: (if negative then '-' else '+') :: ds.map Text.digitChar

/-- A numeral without its sign. -/
def magnitudeChars (n : Numeral) : List Char :=
  n.whole.map Text.digitChar ++ (n.fractionChars ++ n.exponentChars)

/-- A numeral is written as its sign and the rest. -/
theorem chars_eq (n : Numeral) :
    n.chars = if n.negative then '-' :: n.magnitudeChars else n.magnitudeChars := by
  have hparts : n.chars = (if n.negative then ['-'] else []) ++ n.whole.map Text.digitChar ++
      n.fractionChars ++ n.exponentChars := rfl
  rw [hparts, magnitudeChars]
  split <;> simp only [List.append_assoc, List.cons_append, List.nil_append]

end Numeral

variable {n : Numeral} {rest : List Char}

/-- A text that does not begin with the mark of an exponent has none. -/
theorem scanExponent_of_ends (h : EndsNumeral rest) : scanExponent rest = some (none, rest) := by
  unfold scanExponent
  split
  · exact absurd rfl (h _ rfl).2.2.1
  · exact absurd rfl (h _ rfl).2.2.2
  · rfl

/-- The digits of an exponent are read with their sign. -/
theorem scanExponentDigits_signed {negative : Bool} {ds : List (Fin 10)} (hsome : ds ≠ [])
    (h : EndsNumeral rest) :
    scanExponentDigits ((if negative then '-' else '+') :: (ds.map Text.digitChar ++ rest)) =
      some ((negative, ds), rest) := by
  have hsign : splitSign ((if negative then '-' else '+') :: (ds.map Text.digitChar ++ rest)) =
      (negative, ds.map Text.digitChar ++ rest) := by
    cases negative <;> rfl
  have hspan := Text.spanDigits_append ds fun c hc => (h c hc).1
  have hempty : ds.isEmpty = false := List.isEmpty_eq_false_iff.mpr hsome
  simp only [scanExponentDigits, hsign, hspan, hempty, Bool.false_eq_true, if_false]

/-- An exponent is read back. -/
theorem scanExponent_exponentChars (hn : n.WellFormed) (h : EndsNumeral rest) :
    scanExponent (n.exponentChars ++ rest) = some (n.exponent, rest) := by
  have hsome := hn.exponent
  unfold Numeral.exponentChars
  cases hexponent : n.exponent with
  | none => exact scanExponent_of_ends h
  | some e =>
    obtain ⟨negative, ds⟩ := e
    show (scanExponentDigits ((if negative then '-' else '+') ::
      (ds.map Text.digitChar ++ rest))).map _ = _
    rw [scanExponentDigits_signed (hsome _ hexponent) h]
    rfl

/-- An exponent, and what ends a numeral, do not begin with a digit or a point. -/
theorem head?_exponentChars (n : Numeral) (h : EndsNumeral rest) :
    ∀ c ∈ (n.exponentChars ++ rest).head?, Text.digit? c = none ∧ c ≠ '.' := by
  intro c hc
  unfold Numeral.exponentChars at hc
  cases hexponent : n.exponent with
  | none =>
    rw [hexponent] at hc
    exact ⟨(h c hc).1, (h c hc).2.1⟩
  | some e =>
    rw [hexponent] at hc
    cases hc
    decide

/-- A fraction is read back. -/
theorem scanFraction_fractionChars (h : EndsNumeral rest) :
    scanFraction (n.fractionChars ++ (n.exponentChars ++ rest)) =
      some (n.fraction, n.exponentChars ++ rest) := by
  have hhead := head?_exponentChars n h
  unfold Numeral.fractionChars
  cases hempty : n.fraction.isEmpty with
  | true =>
    rw [if_pos rfl, List.nil_append, List.isEmpty_iff.mp hempty]
    unfold scanFraction
    split
    · rename_i heq
      exact absurd rfl (hhead '.' (by rw [heq]; rfl)).2
    · rfl
  | false =>
    have hspan := Text.spanDigits_append n.fraction fun c hc => (hhead c hc).1
    rw [if_neg Bool.false_ne_true, List.cons_append]
    simp only [scanFraction, hspan, hempty, Bool.false_eq_true, if_false]

/-- Neither a fraction nor an exponent begins with a digit. -/
theorem head?_fractionChars (n : Numeral) (h : EndsNumeral rest) :
    ∀ c ∈ (n.fractionChars ++ (n.exponentChars ++ rest)).head?, Text.digit? c = none := by
  intro c hc
  unfold Numeral.fractionChars at hc
  split at hc
  · exact (head?_exponentChars n h c hc).1
  · cases hc
    decide

/-- A numeral is read back. -/
theorem scanNumeral_magnitudeChars (hn : n.WellFormed) (h : EndsNumeral rest) :
    scanNumeral n.negative (n.magnitudeChars ++ rest) = some (n, rest) := by
  have hspan := Text.spanDigits_append n.whole (head?_fractionChars n h)
  have hzero : ¬(n.whole.head? = some Text.zeroDigit ∧ 1 < n.whole.length) := by
    rintro ⟨hhead, hlength⟩
    rw [hn.zero hhead] at hlength
    exact Nat.lt_irrefl 1 hlength
  obtain ⟨d, ds, hwhole⟩ := List.exists_cons_of_ne_nil hn.whole
  rw [Numeral.magnitudeChars, List.append_assoc, List.append_assoc]
  simp only [scanNumeral, hspan]
  rw [hwhole] at hzero ⊢
  simp only [if_neg hzero, scanFraction_fractionChars h, scanExponent_exponentChars hn h,
    Option.map_some]
  rw [← hwhole]

/-- How a character is written in a string: the control characters without a short escape as a unit,
all others as themselves or by a short escape. -/
def Element.ofChar (c : Char) : Element :=
  if c.toNat < 0x20 ∧ c ∉ ['\x08', '\x0c', '\n', '\r', '\t'] then .unit c.toNat else .char c

/-- A short escape is read as the character that it stands for. -/
theorem scanString_short {c c' : Char} (hc : escaped? c = some c') (rest : List Char) :
    scanString ('\\' :: c :: rest) = (scanString rest).map fun p => (.char c' :: p.1, p.2) := by
  have hu : c ≠ 'u' := by
    rintro rfl
    cases hc
  rw [scanString]
  · rw [hc]
    cases scanString rest <;> rfl
  · intro a b c d rest' heq
    exact absurd heq hu

/-- A long escape is read as the unit that it spells. -/
theorem scanString_unit {n : Nat} (hn : n < 16 ^ 4) (rest : List Char) :
    scanString ('\\' :: 'u' :: (Text.hexDigits 4 n ++ rest)) =
      (scanString rest).map fun p => (.unit n :: p.1, p.2) := by
  have hread := Text.readHex?_hexDigits (by decide) hn
  obtain ⟨a, b, c, d, hdigits⟩ : ∃ a b c d, Text.hexDigits 4 n = [a, b, c, d] := ⟨_, _, _, _, rfl⟩
  rw [hdigits] at hread
  simp only [hdigits, List.cons_append, List.nil_append, scanString, hread]
  cases scanString rest <;> rfl

/-- A character that needs no escape is read as itself. -/
theorem scanString_plain {c : Char} (hquote : c ≠ '"') (hescape : c ≠ '\\') (hc : ¬c.toNat < 0x20)
    (rest : List Char) :
    scanString (c :: rest) = (scanString rest).map fun p => (.char c :: p.1, p.2) := by
  rw [scanString, if_neg hc]
  · cases scanString rest <;> rfl
  · exact hquote
  · exact fun a b c' d rest' heq => absurd heq hescape
  · exact fun c' rest' heq => absurd heq hescape

/-- An escaped control character is read as one element. -/
theorem scanString_escapeControl {c : Char} (hc : c.toNat < 0x20) (rest : List Char) :
    scanString (escapeControl c ++ rest) =
      (scanString rest).map fun p => (Element.ofChar c :: p.1, p.2) := by
  unfold escapeControl
  split
  case h_6 =>
    have hchar : Element.ofChar c = .unit c.toNat := if_pos ⟨hc, by simp_all⟩
    rw [hchar]
    exact scanString_unit (by omega) rest
  all_goals exact scanString_short rfl rest

/-- An escaped character is read as one element. -/
theorem scanString_escape (c : Char) (rest : List Char) :
    scanString (escape c ++ rest) =
      (scanString rest).map fun p => (Element.ofChar c :: p.1, p.2) := by
  unfold escape
  split
  · rename_i hquote
    subst hquote
    exact scanString_short rfl rest
  · split
    · rename_i hescape
      subst hescape
      exact scanString_short rfl rest
    · split
      · exact scanString_escapeControl ‹_› rest
      · rename_i hquote hescape hc
        have hchar : Element.ofChar c = .char c := if_neg fun h => hc h.1
        rw [hchar]
        exact scanString_plain hquote hescape hc rest

/-- A unit that is no half of a pair stands for one character. -/
theorem joinElements_unit {n : Nat} (hn : n < 0xd800) (es : List Element) :
    joinElements (.unit n :: es) = (joinElements es).map (Char.ofNat n :: ·) := by
  rw [joinElements.eq_def]
  exact if_pos (Or.inl hn)

/-- The characters of the elements that characters are written as. -/
theorem joinElements_ofChar (cs : List Char) : joinElements (cs.map Element.ofChar) = some cs := by
  induction cs with
  | nil => rfl
  | cons c cs ih =>
    rw [List.map_cons, Element.ofChar]
    split
    · rename_i hcontrol
      rw [joinElements_unit (by omega), ih, Option.map_some, Char.ofNat_toNat]
    · rw [joinElements, ih, Option.map_some]

/-- A string is read up to its closing quote. -/
theorem scanString_flatMap (cs rest : List Char) :
    scanString (cs.flatMap escape ++ '"' :: rest) = some (cs.map Element.ofChar, rest) := by
  induction cs with
  | nil => rfl
  | cons c cs ih =>
    rw [List.flatMap_cons, List.append_assoc, scanString_escape, ih]
    rfl

/-- A token whose written form spells it: a numeral that JSON allows, and a string that is text. -/
def Token.Spelled : Token → Prop
  | .number n => n.WellFormed
  | .string s => s.isSome
  | _ => True

/-- A text that begins with a digit begins with a numeral. -/
theorem nextToken?_digit (d : Fin 10) (cs : List Char) :
    nextToken? (Text.digitChar d :: cs) =
      (scanNumeral false (Text.digitChar d :: cs)).map fun p => (.number p.1, p.2) := by
  have hother : ∀ d : Fin 10, Text.digitChar d ∉
      ['[', ']', '\x7b', '\x7d', ':', ',', 'n', 't', 'f', '"', '-'] := by decide
  have hd := hother d
  unfold nextToken?
  split
  all_goals first
    | rfl
    | rename_i heq
      rw [(List.cons.inj heq).1] at hd
      simp at hd

/-- What is written for a token is read as the token. -/
theorem nextToken?_chars {t : Token} (ht : t.Spelled)
    (hend : ∀ n, t = .number n → EndsNumeral rest) :
    nextToken? (t.chars ++ rest) = some (t, rest) := by
  cases t with
  | beginArray | endArray | beginObject | endObject | colon | comma | null => rfl
  | bool b => cases b <;> rfl
  | number n =>
    have hscan := scanNumeral_magnitudeChars ht (hend n rfl)
    rw [Token.chars, Numeral.chars_eq]
    cases hnegative : n.negative with
    | true =>
      rw [hnegative] at hscan
      rw [if_pos rfl, List.cons_append, nextToken?, hscan]
      rfl
    | false =>
      rw [hnegative] at hscan
      obtain ⟨d, ds, hwhole⟩ := List.exists_cons_of_ne_nil ht.whole
      obtain ⟨cs, hcs⟩ : ∃ cs, n.magnitudeChars ++ rest = Text.digitChar d :: cs := by
        rw [Numeral.magnitudeChars, hwhole]
        exact ⟨_, rfl⟩
      rw [hcs] at hscan
      rw [if_neg Bool.false_ne_true, hcs, nextToken?_digit, hscan]
      rfl
  | string s =>
    obtain ⟨s, rfl⟩ := Option.isSome_iff_exists.mp ht
    have hscan := scanString_flatMap s.toList rest
    rw [Token.chars, List.append_assoc, List.cons_append, nextToken?, List.singleton_append, hscan]
    simp only [Option.map_some, joinElements_ofChar, String.ofList_toList]

/-- What is written for a token begins with no white space. -/
theorem exists_chars_eq {t : Token} (ht : t.Spelled) :
    ∃ c cs, t.chars = c :: cs ∧ isSpace c = false := by
  cases t with
  | beginArray | endArray | beginObject | endObject | colon | comma | null =>
    exact ⟨_, _, rfl, by decide⟩
  | bool b => cases b <;> exact ⟨_, _, rfl, by decide⟩
  | number n =>
    have hdigit : ∀ d : Fin 10, isSpace (Text.digitChar d) = false := by decide
    obtain ⟨d, ds, hwhole⟩ := List.exists_cons_of_ne_nil ht.whole
    rw [Token.chars, Numeral.chars_eq, Numeral.magnitudeChars, hwhole]
    split
    · exact ⟨_, _, rfl, by decide⟩
    · exact ⟨_, _, rfl, hdigit d⟩
  | string s =>
    obtain ⟨s, rfl⟩ := Option.isSome_iff_exists.mp ht
    exact ⟨_, _, rfl, by decide⟩

/-- What is written for a token adds it to the tokens of the text that follows. -/
theorem tokens?_append {t : Token} (ht : t.Spelled)
    (hend : ∀ n, t = .number n → EndsNumeral rest) :
    tokens? (t.chars ++ rest) = (tokens? rest).map (t :: ·) := by
  have hnext := nextToken?_chars ht hend
  obtain ⟨c, cs, hcs, hspace⟩ := exists_chars_eq ht
  rw [hcs, List.cons_append] at hnext ⊢
  rw [tokens?, if_neg (by simp [hspace])]
  split
  · simp_all
  · simp_all

end EntitySql.Json
