/-!
# Digits

Numbers written in decimal and hexadecimal digits of the ASCII range.
-/

namespace EntitySql.Text

/-- The value of a decimal digit. -/
def digit? (c : Char) : Option (Fin 10) :=
  if h : '0'.toNat ≤ c.toNat ∧ c.toNat ≤ '9'.toNat then
    some ⟨c.toNat - '0'.toNat, by
      have := h.1
      have := h.2
      simp only [Char.reduceToNat] at *
      omega⟩
  else none

/-- The digit zero. -/
abbrev zeroDigit : Fin 10 := ⟨0, by decide⟩

/-- The character of a decimal digit. -/
def digitChar (d : Fin 10) : Char :=
  Char.ofNat (48 + d)

/-- The number that a list of decimal digits spells, the first digit weighing most. -/
def ofDigits (ds : List (Fin 10)) : Nat :=
  ds.foldl (fun n d => 10 * n + d.val) 0

/-- The digits at the start of a text, and the text that follows them. -/
def spanDigits : List Char → List (Fin 10) × List Char
  | [] => ([], [])
  | c :: cs =>
    match digit? c with
    | some d => ((spanDigits cs).map (d :: ·) id)
    | none => ([], c :: cs)

/-- The digits of a text that holds digits only. -/
def allDigits? (cs : List Char) : Option (List (Fin 10)) :=
  cs.mapM digit?

/-- The decimal digits of a number, `[0]` for zero. -/
def digitsOf (n : Nat) : List (Fin 10) :=
  (Nat.toDigits 10 n).filterMap digit?

/-- The text of a list of digits. -/
def digitText (ds : List (Fin 10)) : String :=
  String.ofList (ds.map digitChar)

/-- The number that a text of at least one digit spells. -/
def readDigits? (cs : List Char) : Option Nat :=
  if cs.isEmpty then none else (allDigits? cs).map ofDigits

/-- A whole number that is not negative: at most one plus sign, then digits, and nothing else. -/
def readNat? : List Char → Option Nat
  | '+' :: cs => readDigits? cs
  | cs => readDigits? cs

/-- A whole number: at most one sign, then digits, and nothing else. -/
def readInt? (s : String) : Option Int :=
  match s.toList with
  | '-' :: cs => (readDigits? cs).map fun n => -(n : Int)
  | cs => (readNat? cs).map Int.ofNat

/-- The value of a hexadecimal digit in either case. -/
def hexDigit? (c : Char) : Option Nat :=
  let n := c.toNat
  if 48 ≤ n ∧ n ≤ 57 then some (n - 48)
  else if 97 ≤ n ∧ n ≤ 102 then some (n - 87)
  else if 65 ≤ n ∧ n ≤ 70 then some (n - 55)
  else none

/-- The number that hexadecimal digits spell. -/
def readHex? (cs : List Char) : Option Nat :=
  if cs.isEmpty then none
  else cs.foldlM (fun n c => (hexDigit? c).map (16 * n + ·)) 0

/-- The character of a hexadecimal digit, letters being small. -/
def hexChar (n : Nat) : Char :=
  if n < 10 then Char.ofNat (48 + n) else Char.ofNat (87 + n)

/-- The last `width` hexadecimal digits of a number. -/
def hexDigits (width n : Nat) : List Char :=
  match width with
  | 0 => []
  | w + 1 => hexDigits w (n / 16) ++ [hexChar (n % 16)]

/-- A number padded with zeros on the left to at least `width` digits. -/
def padded (width n : Nat) : String :=
  let text := toString n
  String.ofList (List.replicate (width - text.length) '0') ++ text

/-- The part before the first digit run ends and the part after it make up the text. -/
theorem spanDigits_snd_suffix (cs : List Char) : (spanDigits cs).2 <:+ cs := by
  induction cs with
  | nil => simp [spanDigits]
  | cons c cs ih =>
    simp only [spanDigits]
    split
    · exact ih.trans (List.suffix_cons c cs)
    · exact List.suffix_refl _

end EntitySql.Text
