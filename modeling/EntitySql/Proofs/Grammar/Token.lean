import EntitySql.Query.Operator
import EntitySql.Text.Letters

/-!
# Tokens of conditions

The words, numbers, parameters and symbols that conditions and right sides of
assignments are written with in SQL, and a scanner that cuts a text into them. The
longest word counts, and keywords are known in any case of their letters.
-/

namespace EntitySql.Grammar

/-- The keywords of conditions. -/
inductive Keyword where
  | and
  | or
  | not
  | is
  | null
  | like
  /-- The word for membership in a list. -/
  | among
  deriving DecidableEq, Repr

namespace Keyword

/-- All keywords. -/
def all : List Keyword := [.and, .or, .not, .is, .null, .like, .among]

/-- A keyword as it is written in capital letters. -/
def word : Keyword → String
  | .and => "AND"
  | .or => "OR"
  | .not => "NOT"
  | .is => "IS"
  | .null => "NULL"
  | .like => "LIKE"
  | .among => "IN"

/-- The keyword that a word is, in any case of its letters. -/
def ofWord? (s : String) : Option Keyword :=
  all.find? fun k => Text.sameName k.word s

end Keyword

/-- A token. -/
inductive Token where
  | word (name : String)
  | keyword (k : Keyword)
  | number (digits : String)
  | parameter (name : String)
  | comparison (c : Comparison)
  | arithmetic (a : Arithmetic)
  | opening
  | closing
  | comma
  deriving DecidableEq, Repr

/-- A character of words, numbers and parameters. -/
def isWordChar (c : Char) : Bool :=
  c.isAlphanum || c == '_' || decide (128 ≤ c.toNat)

/-- The token of the characters of a word: a number has digits only, and no other word begins with
a digit. -/
def wordToken? (cs : List Char) : Option Token :=
  if cs.head?.any Char.isDigit then
    if cs.all Char.isDigit then some (.number (String.ofList cs)) else none
  else
    match Keyword.ofWord? (String.ofList cs) with
    | some k => some (.keyword k)
    | none => some (.word (String.ofList cs))

/-- The symbol that begins with a character, and what follows it; the longest symbol counts. -/
def symbol? (c : Char) (rest : List Char) : Option (Token × List Char) :=
  match c, rest with
  | '(', _ => some (.opening, rest)
  | ')', _ => some (.closing, rest)
  | ',', _ => some (.comma, rest)
  | '=', _ => some (.comparison .equal, rest)
  | '<', '>' :: after => some (.comparison .notEqual, after)
  | '<', '=' :: after => some (.comparison .lessEqual, after)
  | '<', _ => some (.comparison .less, rest)
  | '>', '=' :: after => some (.comparison .greaterEqual, after)
  | '>', _ => some (.comparison .greater, rest)
  | '+', _ => some (.arithmetic .add, rest)
  | '-', _ => some (.arithmetic .sub, rest)
  | '*', _ => some (.arithmetic .mul, rest)
  | '/', _ => some (.arithmetic .div, rest)
  | _, _ => none

/-- A symbol takes characters away. -/
theorem symbol?_length {c : Char} {rest after : List Char} {tok : Token}
    (h : symbol? c rest = some (tok, after)) : after.length ≤ rest.length := by
  unfold symbol? at h
  split at h <;> cases h <;> simp

/-- The tokens of a text, given the mark in front of parameters; there are none for a text with
anything else in it. -/
def lex (mark : Char) (cs : List Char) : Option (List Token) :=
  match cs with
  | [] => some []
  | c :: rest =>
    if c = ' ' then lex mark rest
    else if isWordChar c then
      match wordToken? (c :: rest.takeWhile isWordChar) with
      | some tok => (lex mark (rest.dropWhile isWordChar)).map (tok :: ·)
      | none => none
    else if c = mark then
      if rest.takeWhile isWordChar = [] then none
      else
        (lex mark (rest.dropWhile isWordChar)).map
          (.parameter (String.ofList (rest.takeWhile isWordChar)) :: ·)
    else
      match _h : symbol? c rest with
      | some (tok, after) => (lex mark after).map (tok :: ·)
      | none => none
termination_by cs.length
decreasing_by
  · exact Nat.lt_succ_self _
  · exact Nat.lt_succ_of_le (List.dropWhile_suffix _).length_le
  · exact Nat.lt_succ_of_le (List.dropWhile_suffix _).length_le
  · exact Nat.lt_succ_of_le (symbol?_length _h)

/-- A text that no word goes on with. -/
def Stops (cs : List Char) : Prop :=
  ∀ c ∈ cs.head?, isWordChar c = false

/-- A text reads as tokens before whatever no word goes on with. -/
def Spells (mark : Char) (cs : List Char) (ts : List Token) : Prop :=
  ∀ rest, Stops rest → lex mark (cs ++ rest) = (lex mark rest).map (ts ++ ·)

/-- A text reads as tokens before anything. -/
def SpellsFreely (mark : Char) (cs : List Char) (ts : List Token) : Prop :=
  ∀ rest, lex mark (cs ++ rest) = (lex mark rest).map (ts ++ ·)

variable {mark : Char} {as bs : List Char} {ts us : List Token}

/-- A text that reads as tokens by itself has them as its tokens. -/
theorem Spells.lex_eq (h : Spells mark as ts) : lex mark as = some ts := by
  have hnil := h [] (by simp [Stops])
  have hend : lex mark [] = some [] := by rw [lex]
  rw [List.append_nil, hend] at hnil
  simpa using hnil

/-- What reads as tokens before anything does so before some things. -/
theorem SpellsFreely.spells (h : SpellsFreely mark as ts) : Spells mark as ts :=
  fun rest _ => h rest

/-- What stops a word stops it with anything after it. -/
theorem Stops.append (ha : Stops as) (hb : Stops bs) : Stops (as ++ bs) := by
  intro c hc
  rw [List.head?_append] at hc
  rcases Option.or_eq_some_iff.mp hc with hc | ⟨_, hc⟩
  · exact ha c hc
  · exact hb c hc

/-- A first character that belongs to no word stops every word. -/
theorem stops_cons {c : Char} (hc : isWordChar c = false) (cs : List Char) : Stops (c :: cs) := by
  intro c' hc'
  obtain rfl : c = c' := by simpa using hc'
  exact hc

private theorem map_append (x : Option (List Token)) (ts us : List Token) :
    (x.map (us ++ ·)).map (ts ++ ·) = x.map (ts ++ us ++ ·) := by
  cases x <;> simp

/-- Two texts in a row read as the tokens of both when no word runs from one into the other. -/
theorem Spells.append (ha : Spells mark as ts) (hb : Spells mark bs us) (hstop : Stops bs) :
    Spells mark (as ++ bs) (ts ++ us) := by
  intro rest hrest
  rw [List.append_assoc, ha _ (hstop.append hrest), hb rest hrest, map_append]

/-- The same for a first text that is read before anything. -/
theorem SpellsFreely.append (ha : SpellsFreely mark as ts) (hb : Spells mark bs us) :
    Spells mark (as ++ bs) (ts ++ us) := by
  intro rest hrest
  rw [List.append_assoc, ha, hb rest hrest, map_append]

/-- Two texts in a row are read before anything when the second is. -/
theorem SpellsFreely.append_freely (ha : SpellsFreely mark as ts) (hb : SpellsFreely mark bs us) :
    SpellsFreely mark (as ++ bs) (ts ++ us) := by
  intro rest
  rw [List.append_assoc, ha, hb, map_append]

/-- A text before one that stops words and is read before anything. -/
theorem Spells.append_freely (ha : Spells mark as ts) (hb : SpellsFreely mark bs us)
    (hstop : ∀ rest, Stops (bs ++ rest)) : SpellsFreely mark (as ++ bs) (ts ++ us) := by
  intro rest
  rw [List.append_assoc, ha _ (hstop rest), hb, map_append]

/-- A blank is no token. -/
theorem spellsFreely_blank (mark : Char) : SpellsFreely mark [' '] [] := by
  intro rest
  rw [List.cons_append, List.nil_append, lex, if_pos rfl]
  simp

/-- The longest run of characters of a word ends where a word stops. -/
private theorem takeWhile_dropWhile {w rest : List Char} (hw : ∀ c ∈ w, isWordChar c = true)
    (hrest : Stops rest) : (w ++ rest).takeWhile isWordChar = w ∧
      (w ++ rest).dropWhile isWordChar = rest := by
  have hstop : rest.takeWhile isWordChar = [] ∧ rest.dropWhile isWordChar = rest := by
    cases rest with
    | nil => exact ⟨rfl, rfl⟩
    | cons c cs =>
      have hc := hrest c rfl
      simp [hc]
  rw [List.takeWhile_append_of_pos hw, List.dropWhile_append_of_pos hw, hstop.1, hstop.2,
    List.append_nil]
  exact ⟨rfl, rfl⟩

/-- The characters of a word read as its token. -/
theorem spells_word {w : List Char} {tok : Token} (hne : w ≠ [])
    (hw : ∀ c ∈ w, isWordChar c = true) (htok : wordToken? w = some tok) :
    Spells mark w [tok] := by
  intro rest hrest
  cases w with
  | nil => exact absurd rfl hne
  | cons c cs =>
    have hc : isWordChar c = true := hw c List.mem_cons_self
    have hblank : c ≠ ' ' := by
      rintro rfl
      exact absurd hc (by decide)
    obtain ⟨htake, hdrop⟩ :=
      takeWhile_dropWhile (fun c' hc' => hw c' (List.mem_cons_of_mem c hc')) hrest
    rw [List.cons_append, lex, if_neg hblank, if_pos hc, htake, hdrop, htok]
    rfl

/-- A mark and the characters of a name read as a parameter. -/
theorem spells_parameter {w : List Char} (hmark : isWordChar mark = false) (hblank : mark ≠ ' ')
    (hne : w ≠ []) (hw : ∀ c ∈ w, isWordChar c = true) :
    Spells mark (mark :: w) [.parameter (String.ofList w)] := by
  intro rest hrest
  obtain ⟨htake, hdrop⟩ := takeWhile_dropWhile hw hrest
  rw [List.cons_append, lex, if_neg hblank, if_neg (by simp [hmark]), if_pos rfl, htake, hdrop,
    if_neg hne]
  rfl

/-- A symbol reads as its token. -/
theorem lex_symbol {c : Char} {rest after : List Char} {tok : Token} (hblank : c ≠ ' ')
    (hword : isWordChar c = false) (hmark : c ≠ mark) (h : symbol? c rest = some (tok, after)) :
    lex mark (c :: rest) = (lex mark after).map (tok :: ·) := by
  rw [lex, if_neg hblank, if_neg (by simp [hword]), if_neg hmark]
  split
  · rename_i tok' after' h'
    rw [h] at h'
    cases h'
    rfl
  · rename_i h'
    rw [h] at h'
    cases h'

/-- A symbol of one character that begins no longer one. -/
theorem spellsFreely_symbol {c : Char} {tok : Token} (hblank : c ≠ ' ')
    (hword : isWordChar c = false) (hmark : c ≠ mark)
    (h : ∀ rest, symbol? c rest = some (tok, rest)) : SpellsFreely mark [c] [tok] :=
  fun rest => lex_symbol hblank hword hmark (h rest)

end EntitySql.Grammar
