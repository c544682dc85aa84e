import EntitySql.Proofs.Grammar.Tree
import EntitySql.Proofs.Sql.Placeholder

/-!
# How names, symbols and keywords are read

Columns, parameters and the fixed texts between them read as their tokens, also with other
text around them. A column must be a word and no keyword; parameters come after the mark
of the engine.
-/

namespace EntitySql.Grammar

/-- An identifier that is no keyword. -/
structure IsColumnName (s : String) : Prop where
  first : ∃ c cs, s.toList = c :: cs ∧ c.isDigit = false
  chars : ∀ c ∈ s.toList, isWordChar c = true
  keyword : Keyword.ofWord? s = none

/-- A text that can stand behind the mark of a parameter. -/
structure IsParameterName (s : String) : Prop where
  nonempty : s.toList ≠ []
  chars : ∀ c ∈ s.toList, isWordChar c = true

/-- Characters of ASCII names are characters of words. -/
theorem isWordChar_of_continuesName {c : Char} (h : Text.continuesName c = true) :
    isWordChar c = true := by
  unfold isWordChar
  unfold Text.continuesName at h
  rw [h]
  rfl

/-- An ASCII name can stand behind the mark of a parameter, with characters of words after it. -/
theorem IsParameterName.of_isIdentifier {a b : String} (ha : Text.isIdentifier a = true)
    (hb : ∀ c ∈ b.toList, isWordChar c = true) : IsParameterName (a ++ b) := by
  constructor
  · obtain ⟨c, cs, hs, -, -⟩ := Text.isIdentifier_iff.mp ha
    simp [hs]
  · intro c hc
    rcases List.mem_append.mp (String.toList_append ▸ hc) with hc | hc
    · exact isWordChar_of_continuesName (Text.continuesName_of_mem ha hc)
    · exact hb c hc

variable (d : Dialect)

/-- The mark of an engine is no character of words. -/
theorem isWordChar_mark : isWordChar d.mark = false ∧ d.mark ≠ ' ' := by
  cases d <;> decide

/-- The name of a column reads as a word. -/
theorem spells_column {s : String} (h : IsColumnName s) : Spells d.mark s.toList [.word s] := by
  obtain ⟨c, cs, hs, hdigit⟩ := h.first
  have hne : s.toList ≠ [] := by simp [hs]
  have hhead : s.toList.head?.any Char.isDigit = false := by simp [hs, hdigit]
  refine spells_word hne h.chars ?_
  simp [wordToken?, hhead, String.ofList_toList, h.keyword]

/-- A mark and a name read as a parameter. -/
theorem spells_slot {s : String} (h : IsParameterName s) :
    Spells d.mark (d.mark :: s.toList) [.parameter s] := by
  obtain ⟨hword, hblank⟩ := isWordChar_mark d
  have hspells := spells_parameter hword hblank h.nonempty h.chars
  rwa [String.ofList_toList] at hspells

/-- A keyword reads as itself. -/
theorem spells_keyword (k : Keyword) : Spells d.mark k.word.toList [.keyword k] := by
  have htoken : wordToken? k.word.toList = some (.keyword k) := by cases k <;> decide +kernel
  have hne : k.word.toList ≠ [] := by cases k <;> decide
  have hchars : k.word.toList.all isWordChar = true := by cases k <;> decide
  exact spells_word hne (List.all_eq_true.mp hchars) htoken

/-- A keyword with blanks around it is read before anything. -/
theorem spellsFreely_keyword (k : Keyword) :
    SpellsFreely d.mark (' ' :: (k.word.toList ++ [' '])) [.keyword k] := by
  have hword := (spells_keyword d k).append_freely (spellsFreely_blank d.mark)
    fun rest => stops_cons (by decide) rest
  exact (spellsFreely_blank d.mark).append_freely hword

/-- A parenthesis that opens. -/
theorem spellsFreely_opening : SpellsFreely d.mark ['('] [.opening] :=
  spellsFreely_symbol (by decide) (by decide) (by cases d <;> decide) fun _ => rfl

/-- A parenthesis that closes. -/
theorem spellsFreely_closing : SpellsFreely d.mark [')'] [.closing] :=
  spellsFreely_symbol (by decide) (by decide) (by cases d <;> decide) fun _ => rfl

/-- A comma and a blank. -/
theorem spellsFreely_comma : SpellsFreely d.mark [',', ' '] [.comma] := by
  have hcomma : SpellsFreely d.mark [','] [.comma] :=
    spellsFreely_symbol (by decide) (by decide) (by cases d <;> decide) fun _ => rfl
  exact hcomma.append_freely (spellsFreely_blank d.mark)

/-- The equals sign. -/
theorem spellsFreely_equal : SpellsFreely d.mark ['='] [.comparison .equal] :=
  spellsFreely_symbol (by decide) (by decide) (by cases d <;> decide) fun _ => rfl

/-- A comparison with blanks around it. -/
theorem spellsFreely_comparison (op : Comparison) :
    SpellsFreely d.mark (' ' :: (op.symbol.toList ++ [' '])) [.comparison op] := by
  have hsymbol : SpellsFreely d.mark (op.symbol.toList ++ [' ']) [.comparison op] := by
    intro rest
    have hblank : lex d.mark (' ' :: rest) = lex d.mark rest := by
      have h := spellsFreely_blank d.mark rest
      simpa using h
    cases op <;>
      exact (lex_symbol (by decide) (by decide) (by cases d <;> decide) rfl).trans
        (congrArg _ hblank)
  exact (spellsFreely_blank d.mark).append_freely hsymbol

/-- An operation of arithmetic with blanks around it. -/
theorem spellsFreely_arithmetic (op : Arithmetic) :
    SpellsFreely d.mark (' ' :: (op.symbol.toList ++ [' '])) [.arithmetic op] := by
  have hsymbol : SpellsFreely d.mark op.symbol.toList [.arithmetic op] := by
    cases op <;> exact spellsFreely_symbol (by decide) (by decide) (by cases d <;> decide)
      fun _ => rfl
  have hblank := spellsFreely_blank d.mark
  exact hblank.append_freely (hsymbol.append_freely hblank)

variable {d} {as bs middle : List Char} {ts us : List Token}

/-- Text in parentheses. -/
theorem Spells.parenthesized (h : Spells d.mark as ts) :
    Spells d.mark ('(' :: (as ++ [')'])) (.opening :: (ts ++ [.closing])) :=
  (spellsFreely_opening d).append
    (h.append (spellsFreely_closing d).spells (stops_cons (by decide) []))

/-- Two texts with a blank between them. -/
theorem Spells.blank (ha : Spells d.mark as ts) (hb : Spells d.mark bs us) :
    Spells d.mark (as ++ ' ' :: bs) (ts ++ us) :=
  ha.append ((spellsFreely_blank d.mark).append hb) (stops_cons (by decide) _)

/-- Two texts with an operator between them. -/
theorem Spells.between {tok : Token} (ha : Spells d.mark as ts)
    (hbetween : SpellsFreely d.mark (' ' :: middle) [tok]) (hb : Spells d.mark bs us) :
    Spells d.mark (as ++ ' ' :: (middle ++ bs)) (ts ++ tok :: us) :=
  ha.append (hbetween.append hb) (stops_cons (by decide) _)

/-- Texts with commas and blanks between them read as their tokens with commas between them. -/
theorem spells_commaJoin {α : Type} {chars : α → List Char} {tokens : α → List Token}
    {items : List α} (h : ∀ item ∈ items, Spells d.mark (chars item) (tokens item)) :
    Spells d.mark ([',', ' '].intercalate (items.map chars)) (commaJoin (items.map tokens)) := by
  induction items with
  | nil =>
    intro rest _
    simp [commaJoin]
  | cons item rest ih =>
    have hitem := h item List.mem_cons_self
    have hrest := ih fun i hi => h i (List.mem_cons_of_mem item hi)
    cases rest with
    | nil => simpa [commaJoin] using hitem
    | cons next rest =>
      have hjoin := hitem.append ((spellsFreely_comma d).append hrest) (stops_cons (by decide) _)
      simpa [commaJoin, List.intercalate_cons_cons] using hjoin

end EntitySql.Grammar
