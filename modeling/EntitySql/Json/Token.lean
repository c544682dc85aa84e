import EntitySql.Text.Digits

/-!
# Tokens of JSON text

A text is cut into punctuation, words, numerals and strings. Reading is strict:
white space is space, tab, line feed and carriage return, a numeral has no
superfluous zero in front, and a string holds no bare control character.
-/

namespace EntitySql.Json

/-- A numeral as it is written. -/
structure Numeral where
  /-- Whether a minus sign stands in front. -/
  negative : Bool
  /-- The digits before the point. -/
  whole : List (Fin 10)
  /-- The digits after the point, none if there is no point. -/
  fraction : List (Fin 10)
  /-- The exponent, if there is one: whether it is negative, and its digits. -/
  exponent : Option (Bool × List (Fin 10))
  deriving DecidableEq, Repr

/-- A token. A string is `none` when an escape stands for half a surrogate pair, so that it is no
text. -/
inductive Token where
  | beginArray
  | endArray
  | beginObject
  | endObject
  | colon
  | comma
  | null
  | bool (b : Bool)
  | number (n : Numeral)
  | string (s : Option String)
  deriving DecidableEq, Repr

/-- An element of a string as it is written: a character, or an escaped unit of 16 bits. -/
inductive Element where
  | char (c : Char)
  | unit (n : Nat)
  deriving DecidableEq, Repr

/-- The character that a backslash and a character other than `u` stand for. -/
def escaped? : Char → Option Char
  | '"' => some '"'
  | '\\' => some '\\'
  | '/' => some '/'
  | 'b' => some '\x08'
  | 'f' => some '\x0c'
  | 'n' => some '\n'
  | 'r' => some '\r'
  | 't' => some '\t'
  | _ => none

/-- The elements of a string up to its closing quote, and the text after the quote. -/
def scanString : List Char → Option (List Element × List Char)
  | [] => none
  | '"' :: rest => some ([], rest)
  | '\\' :: 'u' :: a :: b :: c :: d :: rest =>
    match Text.readHex? [a, b, c, d], scanString rest with
    | some n, some (es, after) => some (.unit n :: es, after)
    | _, _ => none
  | '\\' :: c :: rest =>
    match escaped? c, scanString rest with
    | some c', some (es, after) => some (.char c' :: es, after)
    | _, _ => none
  | c :: rest =>
    if c.toNat < 0x20 then none
    else
      match scanString rest with
      | some (es, after) => some (.char c :: es, after)
      | none => none

/-- The characters of a string; each pair of surrogates stands for one character. -/
def joinElements : List Element → Option (List Char)
  | [] => some []
  | .char c :: rest => (joinElements rest).map (c :: ·)
  | .unit n :: rest =>
    if n < 0xd800 ∨ 0xdfff < n then (joinElements rest).map (Char.ofNat n :: ·)
    else
      match rest with
      | .unit m :: rest' =>
        if n < 0xdc00 ∧ 0xdc00 ≤ m ∧ m ≤ 0xdfff then
          (joinElements rest').map
            (Char.ofNat (0x10000 + (n - 0xd800) * 0x400 + (m - 0xdc00)) :: ·)
        else none
      | _ => none

/-- The digits after a point, at least one; none if no point follows. -/
def scanFraction : List Char → Option (List (Fin 10) × List Char)
  | '.' :: rest =>
    let (ds, after) := Text.spanDigits rest
    if ds.isEmpty then none else some (ds, after)
  | cs => some ([], cs)

/-- Whether a minus sign comes first, and the text after the sign, if there is one. -/
def splitSign : List Char → Bool × List Char
  | '-' :: rest => (true, rest)
  | '+' :: rest => (false, rest)
  | cs => (false, cs)

/-- The exponent after its mark: an optional sign and at least one digit. -/
def scanExponentDigits (cs : List Char) : Option ((Bool × List (Fin 10)) × List Char) :=
  let (ds, after) := Text.spanDigits (splitSign cs).2
  if ds.isEmpty then none else some (((splitSign cs).1, ds), after)

/-- An exponent, if its mark follows. -/
def scanExponent : List Char → Option (Option (Bool × List (Fin 10)) × List Char)
  | 'e' :: rest => (scanExponentDigits rest).map fun (e, after) => (some e, after)
  | 'E' :: rest => (scanExponentDigits rest).map fun (e, after) => (some e, after)
  | cs => some (none, cs)

/-- A numeral without its sign; a zero in front stands alone before the point. -/
def scanNumeral (negative : Bool) (cs : List Char) : Option (Numeral × List Char) :=
  match Text.spanDigits cs with
  | ([], _) => none
  | (whole, rest) =>
    if whole.head? = some Text.zeroDigit ∧ 1 < whole.length then none
    else
      match scanFraction rest with
      | none => none
      | some (fraction, rest) =>
        (scanExponent rest).map fun (exponent, after) =>
          (⟨negative, whole, fraction, exponent⟩, after)

/-- The token at the start of a text without white space in front, and the text after it. -/
def nextToken? : List Char → Option (Token × List Char)
  | '[' :: rest => some (.beginArray, rest)
  | ']' :: rest => some (.endArray, rest)
  | '\x7b' :: rest => some (.beginObject, rest)
  | '\x7d' :: rest => some (.endObject, rest)
  | ':' :: rest => some (.colon, rest)
  | ',' :: rest => some (.comma, rest)
  | 'n' :: 'u' :: 'l' :: 'l' :: rest => some (.null, rest)
  | 't' :: 'r' :: 'u' :: 'e' :: rest => some (.bool true, rest)
  | 'f' :: 'a' :: 'l' :: 's' :: 'e' :: rest => some (.bool false, rest)
  | '"' :: rest =>
    (scanString rest).map fun (es, after) =>
      (.string ((joinElements es).map String.ofList), after)
  | '-' :: rest => (scanNumeral true rest).map fun (n, after) => (.number n, after)
  | cs => (scanNumeral false cs).map fun (n, after) => (.number n, after)

/-- White space between tokens. -/
def isSpace (c : Char) : Bool :=
  c == ' ' || c == '\t' || c == '\n' || c == '\r'

/-- A string leaves less text than it is found in. -/
theorem scanString_length {cs after : List Char} {es : List Element}
    (hscan : scanString cs = some (es, after)) : after.length < cs.length := by
  fun_induction scanString cs generalizing es after with
  | case1 => simp at hscan
  | case2 => simp_all
  | case3 a b c d rest n found left hrest hn ih =>
    have := ih hrest
    simp_all
    omega
  | case4 => simp at hscan
  | case5 c rest _ c' found left hrest hc ih =>
    have := ih hrest
    simp_all
    omega
  | case6 => simp at hscan
  | case7 => simp at hscan
  | case8 c rest _ _ _ _ found left hrest ih =>
    have := ih hrest
    simp_all
    omega
  | case9 => simp at hscan

/-- The digits at the start of a text leave no more text than there was. -/
theorem spanDigits_length (cs : List Char) : (Text.spanDigits cs).2.length ≤ cs.length :=
  (Text.spanDigits_snd_suffix cs).length_le

/-- Digits that were found leave less text than there was. -/
theorem spanDigits_length_lt {cs : List Char} (hdigits : (Text.spanDigits cs).1 ≠ []) :
    (Text.spanDigits cs).2.length < cs.length := by
  cases cs with
  | nil => simp [Text.spanDigits] at hdigits
  | cons c cs =>
    simp only [Text.spanDigits] at hdigits ⊢
    split <;> simp_all
    have := spanDigits_length cs
    omega

/-- A fraction leaves no more text than there was. -/
theorem scanFraction_length {cs after : List Char} {ds : List (Fin 10)}
    (hscan : scanFraction cs = some (ds, after)) : after.length ≤ cs.length := by
  unfold scanFraction at hscan
  split at hscan
  · rename_i rest
    have := spanDigits_length rest
    grind
  · grind

/-- The digits of an exponent leave no more text than there was. -/
theorem scanExponentDigits_length {cs after : List Char} {e : Bool × List (Fin 10)}
    (hscan : scanExponentDigits cs = some (e, after)) : after.length ≤ cs.length := by
  have hsign : (splitSign cs).2.length ≤ cs.length := by unfold splitSign; split <;> simp
  have hdigits := spanDigits_length (splitSign cs).2
  simp only [scanExponentDigits] at hscan
  split at hscan <;> simp_all
  omega

/-- An exponent leaves no more text than there was. -/
theorem scanExponent_length {cs after : List Char} {e : Option (Bool × List (Fin 10))}
    (hscan : scanExponent cs = some (e, after)) : after.length ≤ cs.length := by
  unfold scanExponent at hscan
  split at hscan
  · obtain ⟨⟨x, y⟩, hx, hy⟩ := Option.map_eq_some_iff.1 hscan
    have := scanExponentDigits_length hx
    simp_all
    omega
  · obtain ⟨⟨x, y⟩, hx, hy⟩ := Option.map_eq_some_iff.1 hscan
    have := scanExponentDigits_length hx
    simp_all
    omega
  · simp_all

/-- A numeral leaves less text than it is found in. -/
theorem scanNumeral_length {negative : Bool} {cs after : List Char} {n : Numeral}
    (hscan : scanNumeral negative cs = some (n, after)) : after.length < cs.length := by
  unfold scanNumeral at hscan
  split at hscan
  · simp at hscan
  · rename_i whole rest hne hspan
    split at hscan
    · simp at hscan
    · split at hscan
      · simp at hscan
      · rename_i fraction rest' hfraction
        obtain ⟨⟨x, y⟩, hx, hy⟩ := Option.map_eq_some_iff.1 hscan
        have h1 := scanExponent_length hx
        have h2 := scanFraction_length hfraction
        have h3 : (Text.spanDigits cs).2.length < cs.length :=
          spanDigits_length_lt (by rw [hspan]; exact hne)
        rw [hspan] at h3
        simp_all
        omega

/-- A token leaves less text than it is found in. -/
theorem nextToken?_length {cs after : List Char} {t : Token}
    (hnext : nextToken? cs = some (t, after)) : after.length < cs.length := by
  unfold nextToken? at hnext
  split at hnext <;> try (simp_all; done)
  all_goals try (simp_all; omega)
  · obtain ⟨⟨x, y⟩, hx, hy⟩ := Option.map_eq_some_iff.1 hnext
    have := scanString_length hx
    simp_all
    omega
  · obtain ⟨⟨x, y⟩, hx, hy⟩ := Option.map_eq_some_iff.1 hnext
    have := scanNumeral_length hx
    simp_all
    omega
  · obtain ⟨⟨x, y⟩, hx, hy⟩ := Option.map_eq_some_iff.1 hnext
    have := scanNumeral_length hx
    simp_all

/-- The tokens of a text, if it is made of tokens and white space only. -/
def tokens? (cs : List Char) : Option (List Token) :=
  match cs with
  | [] => some []
  | c :: rest =>
    if isSpace c then tokens? rest
    else
      match _h : nextToken? (c :: rest) with
      | none => none
      | some (t, after) => (tokens? after).map (t :: ·)
termination_by cs.length
decreasing_by
  · simp
  · exact nextToken?_length ‹_›

/-- A control character as a string writes it. -/
def escapeControl (c : Char) : List Char :=
  match c with
  | '\x08' => ['\\', 'b']
  | '\x0c' => ['\\', 'f']
  | '\n' => ['\\', 'n']
  | '\r' => ['\\', 'r']
  | '\t' => ['\\', 't']
  | c => ['\\', 'u'] ++ Text.hexDigits 4 c.toNat

/-- A character as a string writes it: only quotes, backslashes and control characters are
escaped. -/
def escape (c : Char) : List Char :=
  if c = '"' then ['\\', '"']
  else if c = '\\' then ['\\', '\\']
  else if c.toNat < 0x20 then escapeControl c
  else [c]

/-- The written form of a numeral; an exponent always has a sign. -/
def Numeral.chars (n : Numeral) : List Char :=
  let sign := if n.negative then ['-'] else []
  let whole := n.whole.map Text.digitChar
  let fraction := if n.fraction.isEmpty then [] else '.' :: n.fraction.map Text.digitChar
  let exponent :=
    match n.exponent with
    | none => []
    | some (negative, ds) => 'e' :: (if negative then '-' else '+') :: ds.map Text.digitChar
  sign ++ whole ++ fraction ++ exponent

/-- The written form of a token. -/
def Token.chars : Token → List Char
  | .beginArray => ['[']
  | .endArray => [']']
  | .beginObject => ['\x7b']
  | .endObject => ['\x7d']
  | .colon => [':']
  | .comma => [',']
  | .null => ['n', 'u', 'l', 'l']
  | .bool true => ['t', 'r', 'u', 'e']
  | .bool false => ['f', 'a', 'l', 's', 'e']
  | .number n => n.chars
  | .string (some s) => '"' :: s.toList.flatMap escape ++ ['"']
  | .string none => ['"', '\\', 'u', 'd', '8', '0', '0', '"']

end EntitySql.Json
