import EntitySql.Text.Blank
import EntitySql.Text.Digits
import Mathlib.Algebra.Group.Nat.Defs
import Mathlib.Data.List.Basic
import Mathlib.Data.List.TakeWhile

/-!
# Digits that are read back

A number that is written in digits is read back from them, also when zeros stand in
front, and digits end where a character comes that is none. Trimming leaves a text alone
that neither begins nor ends with white space.
-/

namespace EntitySql.Text

/-- The character of a digit is read as the digit. -/
@[simp]
theorem digit?_digitChar (d : Fin 10) : digit? (digitChar d) = some d := by
  revert d
  decide

/-- The character that the digits of a number have for a digit is read as the digit. -/
theorem digit?_natDigitChar {n : Nat} (h : n < 10) : digit? n.digitChar = some ⟨n, h⟩ := by
  have hall : ∀ d : Fin 10, digit? d.val.digitChar = some d := by decide
  exact hall ⟨n, h⟩

/-- The digits of a number below ten are one digit. -/
theorem digitsOf_of_lt {n : Nat} (h : n < 10) : digitsOf n = [⟨n, h⟩] := by
  rw [digitsOf, Nat.toDigits_of_lt_base h, List.filterMap_cons, digit?_natDigitChar h]
  rfl

/-- The digits of a number from ten on are those of its tenth and one more. -/
theorem digitsOf_of_ge {n : Nat} (h : 10 ≤ n) :
    digitsOf n = digitsOf (n / 10) ++ [⟨n % 10, Nat.mod_lt n (by decide)⟩] := by
  rw [digitsOf, Nat.toDigits_of_base_le (by decide) h, List.filterMap_append, List.filterMap_cons,
    digit?_natDigitChar (Nat.mod_lt n (by decide))]
  rfl

/-- The number of digits and one more digit. -/
theorem ofDigits_concat (ds : List (Fin 10)) (d : Fin 10) :
    ofDigits (ds ++ [d]) = 10 * ofDigits ds + d.val := by
  simp [ofDigits, List.foldl_append]

/-- The number of the digits of a number is the number. -/
@[simp]
theorem ofDigits_digitsOf (n : Nat) : ofDigits (digitsOf n) = n := by
  induction n using Nat.strongRecOn with
  | ind n ih =>
    rcases Nat.lt_or_ge n 10 with hlt | hge
    · simp [digitsOf_of_lt hlt, ofDigits]
    · rw [digitsOf_of_ge hge, ofDigits_concat, ih (n / 10) (by omega)]
      exact Nat.div_add_mod n 10

/-- The characters of the digits of a number are its text. -/
theorem map_digitChar_digitsOf (n : Nat) : (digitsOf n).map digitChar = Nat.toDigits 10 n := by
  have hchar : ∀ d : Fin 10, digitChar d = d.val.digitChar := by decide
  induction n using Nat.strongRecOn with
  | ind n ih =>
    rcases Nat.lt_or_ge n 10 with hlt | hge
    · simp [digitsOf_of_lt hlt, Nat.toDigits_of_lt_base hlt, hchar]
    · rw [digitsOf_of_ge hge, List.map_append, ih (n / 10) (by omega),
        Nat.toDigits_of_base_le (by decide) hge, List.map_singleton, hchar]

/-- Every number has digits. -/
theorem digitsOf_ne_nil (n : Nat) : digitsOf n ≠ [] := by
  intro hnil
  have htext := map_digitChar_digitsOf n
  rw [hnil] at htext
  exact Nat.toDigits_ne_nil htext.symm

/-- A number has at most as many digits as the power of ten above it has zeros. -/
theorem length_digitsOf_le_iff {n k : Nat} (hk : 0 < k) :
    (digitsOf n).length ≤ k ↔ n < 10 ^ k := by
  rw [← Nat.length_toDigits_le_iff (by decide) hk, ← map_digitChar_digitsOf, List.length_map]

/-- Only the digits of zero begin with zero. -/
theorem head?_digitsOf {n : Nat} (hn : n ≠ 0) : (digitsOf n).head? ≠ some zeroDigit := by
  induction n using Nat.strongRecOn with
  | ind n ih =>
    rcases Nat.lt_or_ge n 10 with hlt | hge
    · simp [digitsOf_of_lt hlt, hn]
    · obtain ⟨d, ds, hds⟩ := List.exists_cons_of_ne_nil (digitsOf_ne_nil (n / 10))
      have hrest := ih (n / 10) (by omega) (by omega)
      rw [digitsOf_of_ge hge]
      rw [hds] at hrest ⊢
      exact hrest

/-- Digits end where a character comes that is no digit. -/
theorem spanDigits_append (ds : List (Fin 10)) {rest : List Char}
    (hrest : ∀ c ∈ rest.head?, digit? c = none) :
    spanDigits (ds.map digitChar ++ rest) = (ds, rest) := by
  induction ds with
  | nil =>
    cases rest with
    | nil => rfl
    | cons c rest => simp [spanDigits, hrest c rfl]
  | cons d ds ih => simp [spanDigits, ih]

/-- Zeros in front do not change the number of digits. -/
theorem ofDigits_replicate_append (k : Nat) (ds : List (Fin 10)) :
    ofDigits (List.replicate k zeroDigit ++ ds) = ofDigits ds := by
  induction k with
  | zero => rfl
  | succ k ih =>
    rw [← ih]
    simp [List.replicate_succ, ofDigits]

/-- The digits of a number with zeros in front up to a width. -/
def paddedDigits (width n : Nat) : List (Fin 10) :=
  List.replicate (width - (digitsOf n).length) zeroDigit ++ digitsOf n

/-- Every padded number has digits. -/
theorem paddedDigits_ne_nil (width n : Nat) : paddedDigits width n ≠ [] := by
  simp [paddedDigits, digitsOf_ne_nil]

/-- The number of padded digits. -/
@[simp]
theorem ofDigits_paddedDigits (width n : Nat) : ofDigits (paddedDigits width n) = n := by
  rw [paddedDigits, ofDigits_replicate_append, ofDigits_digitsOf]

/-- Padding a number that fits the width makes it fill the width. -/
theorem length_paddedDigits {width n : Nat} (hwidth : 0 < width) (hn : n < 10 ^ width) :
    (paddedDigits width n).length = width := by
  have hle := (length_digitsOf_le_iff hwidth).mpr hn
  simp [paddedDigits, hle]

/-- The text of a number. -/
theorem toList_toString (n : Nat) : (toString n).toList = (digitsOf n).map digitChar := by
  rw [map_digitChar_digitsOf, Nat.toString_eq_repr, Nat.toList_repr]

/-- A number at the end of a text is read off the text, if what stands before it does not end in
a digit. -/
theorem append_toString_inj {s t : String} {a b : Nat}
    (hs : ∀ c ∈ s.toList.getLast?, digit? c = none)
    (ht : ∀ c ∈ t.toList.getLast?, digit? c = none) (h : s ++ toString a = t ++ toString b) :
    s = t ∧ a = b := by
  have hreverse := congrArg (fun u : String => spanDigits u.toList.reverse) h
  simp only [String.toList_append, List.reverse_append, toList_toString, ← List.map_reverse]
    at hreverse
  rw [spanDigits_append _ (by rwa [List.head?_reverse]),
    spanDigits_append _ (by rwa [List.head?_reverse])] at hreverse
  obtain ⟨hdigits, htext⟩ := Prod.mk.inj hreverse
  refine ⟨String.toList_inj.mp (List.reverse_inj.mp htext), ?_⟩
  rw [← ofDigits_digitsOf a, List.reverse_inj.mp hdigits, ofDigits_digitsOf]

/-- The text of a padded number. -/
theorem toList_padded (width n : Nat) :
    (padded width n).toList = (paddedDigits width n).map digitChar := by
  have hlength : (toString n).length = (digitsOf n).length := by
    rw [← String.length_toList, toList_toString, List.length_map]
  have hzero : digitChar zeroDigit = '0' := by decide
  simp only [padded, paddedDigits, String.toList_append, String.toList_ofList, List.map_append,
    List.map_replicate, toList_toString, hlength, hzero]

/-- A digit is no white space. -/
theorem isBlank_digitChar (d : Fin 10) : isBlank (digitChar d) = false := by
  revert d
  decide

/-- A padded number has no white space. -/
theorem isBlank_of_mem_padded {width n : Nat} {c : Char} (h : c ∈ (padded width n).toList) :
    isBlank c = false := by
  rw [toList_padded] at h
  obtain ⟨d, -, rfl⟩ := List.mem_map.mp h
  exact isBlank_digitChar d

/-- The text of a padded number is not empty. -/
theorem toList_padded_ne_nil (width n : Nat) : (padded width n).toList ≠ [] := by
  rw [toList_padded]
  exact List.map_eq_nil_iff.not.mpr (paddedDigits_ne_nil width n)

/-- The hexadecimal digits of a number are read as its remainder. -/
theorem foldlM_hexDigits (width n start : Nat) :
    (hexDigits width n).foldlM (fun n c => (hexDigit? c).map (16 * n + ·)) start =
      some (16 ^ width * start + n % 16 ^ width) := by
  have hchar : ∀ k < 16, hexDigit? (hexChar k) = some k := by decide
  induction width generalizing n with
  | zero => simp [hexDigits, Nat.mod_one]
  | succ width ih =>
    rw [hexDigits, List.foldlM_append, ih]
    simp only [Option.bind_eq_bind, Option.bind_some, List.foldlM_cons, List.foldlM_nil,
      hchar _ (Nat.mod_lt n (by decide)), Option.map_some, Option.pure_def, Option.some.injEq]
    rw [Nat.pow_succ', Nat.mod_mul, Nat.mul_assoc]
    omega

/-- Hexadecimal digits are read back, if there are any and the number has no more. -/
theorem readHex?_hexDigits {width n : Nat} (hwidth : 0 < width) (hn : n < 16 ^ width) :
    readHex? (hexDigits width n) = some n := by
  have hsome : (hexDigits width n).isEmpty = false := by
    cases width with
    | zero => cases hwidth
    | succ width => simp [hexDigits]
  rw [readHex?, hsome, foldlM_hexDigits, Nat.mod_eq_of_lt hn]
  simp

/-- As many hexadecimal digits are written as are asked for. -/
@[simp]
theorem length_hexDigits (width n : Nat) : (hexDigits width n).length = width := by
  induction width generalizing n with
  | zero => rfl
  | succ width ih => simp [hexDigits, ih]

/-- A hexadecimal digit is no white space. -/
theorem isBlank_of_mem_hexDigits {width n : Nat} {c : Char} (h : c ∈ hexDigits width n) :
    isBlank c = false := by
  have hchar : ∀ k < 16, isBlank (hexChar k) = false := by decide
  induction width generalizing n with
  | zero => cases h
  | succ width ih =>
    rcases List.mem_append.mp h with h | h
    · exact ih h
    · rw [List.mem_singleton.mp h]
      exact hchar _ (Nat.mod_lt n (by decide))

/-- Dropping white space stops at a text that has none. -/
theorem dropWhile_isBlank_append {cs : List Char} (hsome : cs ≠ [])
    (h : ∀ c ∈ cs, isBlank c = false) (rest : List Char) :
    (cs ++ rest).dropWhile isBlank = cs ++ rest := by
  obtain ⟨c, cs, rfl⟩ := List.exists_cons_of_ne_nil hsome
  rw [List.cons_append, List.dropWhile_cons_of_neg (by simp [h c List.mem_cons_self])]

/-- Dropping white space keeps what does not start with it. -/
theorem dropWhile_isBlank_of_head {cs : List Char} (h : ∀ c ∈ cs.head?, isBlank c = false) :
    cs.dropWhile isBlank = cs := by
  cases cs with
  | nil => rfl
  | cons c cs => simp [h c rfl]

/-- Trimming keeps a text with no white space at its ends. -/
theorem trim_of_ends {s : String} (hhead : ∀ c ∈ s.toList.head?, isBlank c = false)
    (hlast : ∀ c ∈ s.toList.getLast?, isBlank c = false) : trim s = s := by
  have hreverse : ∀ c ∈ s.toList.reverse.head?, isBlank c = false := by
    rwa [List.head?_reverse]
  rw [trim, trimmed, dropWhile_isBlank_of_head hhead, dropWhile_isBlank_of_head hreverse,
    List.reverse_reverse, String.ofList_toList]

/-- Trimming a text whose end has no white space around it drops only white space in front of all of
the text. -/
theorem trim_append {front back : String} (hback : back ≠ "")
    (hhead : ∀ c ∈ back.toList.head?, isBlank c = false)
    (hlast : ∀ c ∈ back.toList.getLast?, isBlank c = false) :
    trim (front ++ back) = String.ofList (front.toList.dropWhile isBlank) ++ back := by
  have hfront : (front ++ back).toList.dropWhile isBlank =
      front.toList.dropWhile isBlank ++ back.toList := by
    rw [String.toList_append, List.dropWhile_append, dropWhile_isBlank_of_head hhead]
    split
    · rename_i hnothing
      rw [List.isEmpty_iff.mp hnothing, List.nil_append]
    · rfl
  have hreverse : ∀ c ∈ (front.toList.dropWhile isBlank ++ back.toList).reverse.head?,
      isBlank c = false := by
    have hsome : back.toList ≠ [] := by simpa using hback
    rwa [List.head?_reverse, List.getLast?_append_of_ne_nil _ hsome]
  rw [trim, trimmed, hfront, dropWhile_isBlank_of_head hreverse, List.reverse_reverse,
    String.ofList_append, String.ofList_toList]

/-- Trimming keeps a text that begins and ends with something without white space. -/
theorem trim_of_parts {s : String} {front back : List Char} (hfront : front <+: s.toList)
    (hfront_ne : front ≠ []) (hfront_blank : ∀ c ∈ front, isBlank c = false)
    (hback : back <:+ s.toList) (hback_ne : back ≠ [])
    (hback_blank : ∀ c ∈ back, isBlank c = false) : trim s = s := by
  obtain ⟨after, hafter⟩ := hfront
  obtain ⟨before, hbefore⟩ := hback
  refine trim_of_ends (fun c hc => ?_) (fun c hc => ?_)
  · rw [← hafter, List.head?_append_of_ne_nil _ hfront_ne] at hc
    exact hfront_blank c (List.mem_of_mem_head? hc)
  · rw [← hbefore, List.getLast?_append_of_ne_nil _ hback_ne] at hc
    exact hback_blank c (List.mem_of_mem_getLast? hc)

/-- Trimming keeps a text without white space. -/
theorem trim_of_forall {s : String} (h : ∀ c ∈ s.toList, isBlank c = false) : trim s = s :=
  trim_of_ends (fun c hc => h c (List.mem_of_mem_head? hc))
    fun c hc => h c (List.mem_of_mem_getLast? hc)

/-- Trimming leaves something of a text with more in it than white space. -/
theorem trim_ne_empty_of_mem {s : String} {c : Char} (hc : c ∈ s.toList)
    (hblank : isBlank c = false) : trim s ≠ "" := by
  have hfront : s.toList.dropWhile isBlank ≠ [] := by
    intro hnil
    rw [List.dropWhile_eq_nil_iff.mp hnil c hc] at hblank
    cases hblank
  obtain ⟨x, xs, hxs⟩ := List.exists_cons_of_ne_nil hfront
  -- what is left starts with no white space, so the end is not trimmed beyond it
  have hx : isBlank x = false := by
    have hhead := List.head_dropWhile_not isBlank hfront
    simpa [hxs] using hhead
  intro hempty
  have hnil : ((s.toList.dropWhile isBlank).reverse.dropWhile isBlank).reverse = [] := by
    rw [← String.toList_ofList (l := List.reverse _), ← trimmed, ← trim, hempty]
    rfl
  rw [List.reverse_eq_nil_iff, List.dropWhile_eq_nil_iff, hxs] at hnil
  rw [hnil x (by simp)] at hx
  cases hx

end EntitySql.Text
