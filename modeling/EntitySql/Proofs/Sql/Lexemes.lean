import EntitySql.Proofs.Sql.Occurrences
import EntitySql.Proofs.Sql.Placeholder

/-!
# Placeholders among the lexemes of SQL

An engine reads SQL as lexemes: strings, quoted names, comments, host parameters, words and
single characters. Replacing placeholders knows two kinds of quotes and no other lexemes. It
respects the lexemes of a text exactly when its quotes do not get out of step with them.
-/

namespace EntitySql

/-- A character of words: a letter, a digit, an underscore, a dollar sign, or no ASCII character. -/
def isWordChar (c : Char) : Bool :=
  c.isAlphanum || c == '_' || c == '$' || 128 ≤ c.toNat

/-- A character that begins a host parameter. -/
def isSigil (c : Char) : Bool :=
  c == '@' || c == ':' || c == '$' || c == '#'

/-- A character that separates words. -/
def isSpace (c : Char) : Bool :=
  c == ' ' || ('\t' ≤ c && c ≤ '\r')

/-- The kinds of lexemes. What single or double quotes enclose is a string here, and a name is what
backquotes or brackets enclose. -/
inductive LexemeKind where
  | string
  | name
  | comment
  | hostParameter
  | word
  | symbol
  deriving DecidableEq, Repr

/-- A piece of SQL, as it is spelled. -/
structure Lexeme where
  kind : LexemeKind
  text : List Char
  deriving DecidableEq, Repr

/-- What stands between two quotes: the quote itself is doubled there. -/
inductive Quoted (q : Char) : List Char → Prop
  | nil : Quoted q []
  | char {c : Char} {cs : List Char} (hc : c ≠ q) (h : Quoted q cs) : Quoted q (c :: cs)
  | doubled {cs : List Char} (h : Quoted q cs) : Quoted q (q :: q :: cs)

/-- The name of a host parameter: characters of words, and colons in pairs. -/
inductive HostName : List Char → Prop
  | word {c : Char} (hc : isWordChar c = true) : HostName [c]
  | wordBefore {c : Char} {cs : List Char} (hc : isWordChar c = true) (h : HostName cs) :
      HostName (c :: cs)
  | colonsBefore {cs : List Char} (h : HostName cs) : HostName (':' :: ':' :: cs)
  | colonsAfter {cs : List Char} (h : HostName cs) : HostName (cs ++ [':', ':'])

/-- The lexemes that a text can begin with, and what is left of the text. -/
inductive Begins : List Char → Lexeme → List Char → Prop
  | string {q : Char} {body rest : List Char} (hq : q = '\'' ∨ q = '"') (hbody : Quoted q body)
      (hend : rest.head? ≠ some q) :
      Begins (q :: (body ++ q :: rest)) ⟨.string, q :: (body ++ [q])⟩ rest
  | backquoted {body rest : List Char} (hbody : Quoted '`' body) (hend : rest.head? ≠ some '`') :
      Begins ('`' :: (body ++ '`' :: rest)) ⟨.name, '`' :: (body ++ ['`'])⟩ rest
  | bracketed {body : List Char} (hbody : ']' ∉ body) (rest : List Char) :
      Begins ('[' :: (body ++ ']' :: rest)) ⟨.name, '[' :: (body ++ [']'])⟩ rest
  | lineComment {body : List Char} (hbody : '\n' ∉ body) (rest : List Char) :
      Begins ('-' :: '-' :: (body ++ '\n' :: rest)) ⟨.comment, '-' :: '-' :: (body ++ ['\n'])⟩ rest
  | lastLineComment {body : List Char} (hbody : '\n' ∉ body) :
      Begins ('-' :: '-' :: body) ⟨.comment, '-' :: '-' :: body⟩ []
  | blockComment {body : List Char} (hbody : ¬['*', '/'] <:+: body) (rest : List Char) :
      Begins ('/' :: '*' :: (body ++ '*' :: '/' :: rest))
        ⟨.comment, '/' :: '*' :: (body ++ ['*', '/'])⟩ rest
  | lastBlockComment {body : List Char} (hbody : ¬['*', '/'] <:+: body) (hsome : body ≠ []) :
      Begins ('/' :: '*' :: body) ⟨.comment, '/' :: '*' :: body⟩ []
  | hostParameter {sigil : Char} {name rest : List Char} (hsigil : isSigil sigil = true)
      (hname : HostName name) (hend : ∀ c ∈ rest.head?, isWordChar c = false ∧ c ≠ '(')
      (hcolons : ¬[':', ':'] <+: rest) :
      Begins (sigil :: (name ++ rest)) ⟨.hostParameter, sigil :: name⟩ rest
  | indexedHostParameter {sigil : Char} {name index : List Char} (hsigil : isSigil sigil = true)
      (hname : HostName name) (hindex : ∀ c ∈ index, c ≠ ')' ∧ isSpace c = false)
      (rest : List Char) :
      Begins (sigil :: (name ++ '(' :: (index ++ ')' :: rest)))
        ⟨.hostParameter, sigil :: (name ++ '(' :: (index ++ [')']))⟩ rest
  | word {first : Char} {others rest : List Char} (hfirst : isSigil first = false)
      (hword : ∀ c ∈ first :: others, isWordChar c = true)
      (hend : ∀ c ∈ rest.head?, isWordChar c = false) :
      Begins (first :: (others ++ rest)) ⟨.word, first :: others⟩ rest
  | symbol {c : Char} {rest : List Char}
      (hc : c ∉ ['\'', '"', '`', '[']) (hsigil : isSigil c = false) (hword : isWordChar c = false)
      (hline : ¬['-', '-'] <+: c :: rest) (hblock : ['/', '*'] <+: c :: rest → rest = ['*']) :
      Begins (c :: rest) ⟨.symbol, [c]⟩ rest

/-- The lexemes of a text. -/
inductive Lexes : List Char → List Lexeme → Prop
  | nil : Lexes [] []
  | cons {cs rest : List Char} {x : Lexeme} {xs : List Lexeme} (h : Begins cs x rest)
      (hrest : Lexes rest xs) : Lexes cs (x :: xs)

open Placeholder

/-- The name of a lexeme that is a parameter: an at sign and a name. -/
def Lexeme.parameter? (x : Lexeme) : Option String :=
  match x.kind, x.text with
  | .hostParameter, '@' :: name =>
    if Text.isIdentifier (String.ofList name) then some (String.ofList name) else none
  | _, _ => none

/-- A lexeme as it stands after the placeholders were replaced: a parameter is a question mark, and
any other lexeme is as it was. -/
def Lexeme.replaced (x : Lexeme) : List Char :=
  if x.parameter?.isSome then ['?'] else x.text

/-- Replacing the placeholders of a text, whatever the values for its parameters are, replaces the
parameters among its lexemes and leaves all others as they are. -/
def Respects (text : String) (xs : List Lexeme) : Prop :=
  ∀ ps : List Parameter, (∀ name ∈ xs.filterMap Lexeme.parameter?, ∃ p ∈ ps, p.name = name) →
    ∃ values, positional text "@" ps = .ok ⟨String.ofList (xs.flatMap Lexeme.replaced), values⟩ ∧
      List.Forall₂ (IsFirstValue ps) (xs.filterMap Lexeme.parameter?) values

/-- Lexemes whose parameters are outside of quotes and in which no placeholders occur otherwise, for
a reader that knows two kinds of quotes only. -/
def Undisturbed (quote : Option Char) : List Lexeme → Prop
  | [] => True
  | x :: xs =>
    (if x.parameter?.isSome then quote = none else NoneOccurs '@' quote x.text) ∧
      Undisturbed (quoteAfter quote x.text) xs

/-- Text that holds no placeholder and leaves no quote open. -/
def IsQuiet (cs : List Char) : Prop :=
  NoneOccurs '@' none cs ∧ quoteAfter none cs = none

/-- A parameter is a host parameter that is spelled as an at sign and a name. -/
theorem Lexeme.parameter?_eq_some_iff {x : Lexeme} {name : String} : x.parameter? = some name ↔
    x.kind = .hostParameter ∧ x.text = '@' :: name.toList ∧ Text.isIdentifier name = true := by
  obtain ⟨kind, text⟩ := x
  constructor
  · intro h
    unfold parameter? at h
    split at h
    · next hkind htext =>
      obtain ⟨hname, hsome⟩ := Option.ite_none_right_eq_some.mp h
      obtain rfl := Option.some.inj hsome
      exact ⟨hkind, by simpa using htext, hname⟩
    · cases h
  · rintro ⟨rfl, rfl, hname⟩
    simp [parameter?, hname]

/-- Whatever goes on with a name goes on with a word. -/
theorem isWordChar_of_continuesName {c : Char} (h : Text.continuesName c = true) :
    isWordChar c = true := by
  simp only [Text.continuesName, isWordChar, Bool.or_eq_true] at h ⊢
  exact .inl (.inl h)

/-- Words hold neither quotes nor at signs. -/
theorem isQuiet_of_isWordChar {cs : List Char} (h : ∀ c ∈ cs, isWordChar c = true) :
    IsQuiet cs := by
  refine ⟨noneOccurs_of_not_mem fun hmem => ?_, quoteAfter_of_not_isQuote fun c hc => ?_⟩
  · exact absurd (h _ hmem) (by decide)
  · have hword := h c hc
    rw [← Bool.not_eq_true, isQuote, Bool.or_eq_true, beq_iff_eq, beq_iff_eq]
    rintro (rfl | rfl) <;> revert hword <;> decide

/-- Nothing occurs between the quotes of a string, and its quote is closed at its end. -/
theorem isQuiet_of_quoted {q : Char} {body : List Char} (hq : isQuote q = true)
    (h : Quoted q body) : IsQuiet (q :: (body ++ [q])) := by
  have hmark : q ≠ '@' := by
    rintro rfl
    revert hq
    decide
  have hopen : quoteStep none q = some q := by simp [quoteStep, hq]
  have hclose : quoteStep (some q) q = none := by simp [quoteStep]
  -- the two quotes of a pair close and open in a row
  have hinside : NoneOccurs '@' (some q) (body ++ [q]) ∧
      quoteAfter (some q) (body ++ [q]) = none := by
    induction h with
    | nil =>
      refine ⟨noneOccurs_cons_of_quoted noneOccurs_nil, ?_⟩
      simp [quoteAfter, hclose]
    | @char c cs hc h ih =>
      have hstay : quoteStep (some q) c = some q := by simp [quoteStep, hc]
      refine ⟨noneOccurs_cons_of_quoted (by rw [hstay]; exact ih.1), ?_⟩
      rw [List.cons_append, quoteAfter, List.foldl_cons, hstay]
      exact ih.2
    | @doubled cs h ih =>
      have hagain : NoneOccurs '@' none (q :: (cs ++ [q])) :=
        noneOccurs_cons_of_ne hmark (hopen ▸ ih.1)
      refine ⟨noneOccurs_cons_of_quoted (hclose ▸ hagain), ?_⟩
      rw [List.cons_append, List.cons_append, quoteAfter, List.foldl_cons, hclose,
        List.foldl_cons, hopen]
      exact ih.2
  refine ⟨noneOccurs_cons_of_ne hmark (hopen ▸ hinside.1), ?_⟩
  rw [quoteAfter, List.foldl_cons, hopen]
  exact hinside.2

/-- The name of a host parameter holds characters of words and colons. -/
theorem HostName.mem {name : List Char} (h : HostName name) {c : Char} (hc : c ∈ name) :
    isWordChar c = true ∨ c = ':' := by
  induction h with
  | word hd => exact .inl (List.mem_singleton.mp hc ▸ hd)
  | wordBefore hd h ih =>
    rcases List.mem_cons.mp hc with rfl | hc
    · exact .inl hd
    · exact ih hc
  | colonsBefore h ih =>
    simp only [List.mem_cons] at hc
    rcases hc with rfl | rfl | hc
    · exact .inr rfl
    · exact .inr rfl
    · exact ih hc
  | colonsAfter h ih =>
    rcases List.mem_append.mp hc with hc | hc
    · exact ih hc
    · simp only [List.mem_cons, List.not_mem_nil, or_false, or_self] at hc
      exact .inr hc

/-- A host parameter has a name. -/
theorem HostName.ne_nil {name : List Char} (h : HostName name) : name ≠ [] := by
  cases h <;> simp

variable {cs rest : List Char} {x : Lexeme}

namespace Begins

/-- A text is its first lexeme and what is left of it. -/
theorem eq_append (h : Begins cs x rest) : cs = x.text ++ rest := by
  cases h <;> simp

/-- No lexeme but the last ends in an at sign. -/
theorem getLast?_ne (h : Begins cs x rest) : x.text.getLast? ≠ some '@' ∨ rest = [] := by
  cases h
  case string hq hbody hend =>
    left
    rcases hq with rfl | rfl <;> simp [List.getLast?_cons]
  case backquoted hbody hend => simp [List.getLast?_cons]
  case bracketed => simp [List.getLast?_cons]
  case lineComment => simp [List.getLast?_cons]
  case lastLineComment => exact .inr rfl
  case blockComment => simp [List.getLast?_cons]
  case lastBlockComment => exact .inr rfl
  case hostParameter sigil name hsigil hname hend hcolons =>
    left
    obtain ⟨c, hlast⟩ := Option.isSome_iff_exists.mp (List.getLast?_isSome.mpr hname.ne_nil)
    have hkind := hname.mem (List.mem_of_getLast? hlast)
    rw [List.getLast?_cons, hlast]
    rintro h
    cases h
    revert hkind
    decide
  case indexedHostParameter => simp [List.getLast?_cons]
  case word first others hfirst hword hend =>
    left
    intro hlast
    have := hword _ (List.mem_of_getLast? hlast)
    revert this
    decide
  case symbol c hc hsigil hword hline hblock =>
    left
    rintro h
    cases h
    revert hsigil
    decide

/-- What is left after a parameter does not go on with its name. -/
theorem ends (h : Begins cs x rest) {name : String} (hname : x.parameter? = some name) :
    ∀ c ∈ rest.head?, Text.continuesName c = false := by
  obtain ⟨hkind, htext, hidentifier⟩ := Lexeme.parameter?_eq_some_iff.mp hname
  cases h <;> try cases hkind
  case hostParameter hsigil hname hend hcolons =>
    intro c hc
    have hnot := (hend c hc).1
    rw [← Bool.not_eq_true] at hnot ⊢
    exact fun hcontinues => hnot (isWordChar_of_continuesName hcontinues)
  case indexedHostParameter =>
    have hparen : '(' ∈ name.toList := by
      rw [← (List.cons.inj htext).2]
      simp
    exact absurd (Text.continuesName_of_mem hidentifier hparen) (by decide)

/-- Strings, words and symbols hold no placeholders and leave no quote open. -/
theorem isQuiet (h : Begins cs x rest)
    (hkind : x.kind = .string ∨ x.kind = .word ∨ x.kind = .symbol) : IsQuiet x.text := by
  cases h <;> simp at hkind
  case string hq hbody hend =>
    exact isQuiet_of_quoted (by rcases hq with rfl | rfl <;> decide) hbody
  case word hfirst hword hend => exact isQuiet_of_isWordChar hword
  case symbol c hc hsigil hword hline hblock =>
    have hquote : isQuote c = false := by
      simp only [List.mem_cons, not_or] at hc
      simp [isQuote, hc.1, hc.2.1]
    have hmark : '@' ≠ c := by
      rintro rfl
      revert hsigil
      decide
    exact ⟨noneOccurs_of_not_mem (by simpa using hmark),
      quoteAfter_of_not_isQuote (by simpa using hquote)⟩

end Begins

/-- The parts of a lexeme for a reader that finds its parameter and nothing else. -/
def Lexeme.parts (x : Lexeme) : List Segment :=
  match x.parameter? with
  | some name => [.placeholder name]
  | none => x.text.map .plain

/-- Writing a question mark for the parameter of a lexeme. -/
theorem Lexeme.map_char_parts (x : Lexeme) : x.parts.map Segment.char = x.replaced := by
  unfold parts replaced
  cases x.parameter? with
  | some name => rfl
  | none => simp [Function.comp_def, Segment.char]

/-- The names among the parts of lexemes are those of their parameters. -/
theorem names_flatMap_parts (xs : List Lexeme) :
    names (xs.flatMap Lexeme.parts) = xs.filterMap Lexeme.parameter? := by
  induction xs with
  | nil => rfl
  | cons x xs ih =>
    rw [List.flatMap_cons, names_append, ih, Lexeme.parts]
    cases hx : x.parameter? with
    | some name => simp [hx]
    | none => simp [hx, names_map_plain]

/-- Outside of quotes, a parameter is found. -/
theorem Begins.segments_of_parameter (h : Begins cs x rest) {name : String}
    (hname : x.parameter? = some name) :
    segments '@' none cs = .placeholder name :: segments '@' none rest ∧
      quoteAfter none x.text = none := by
  obtain ⟨-, htext, hidentifier⟩ := Lexeme.parameter?_eq_some_iff.mp hname
  have hfound := Phrase.segments_append_of_isIdentifier (d := .sqlite) hidentifier (h.ends hname)
  refine ⟨?_, ?_⟩
  · rw [h.eq_append, htext]
    exact hfound
  · rw [htext]
    refine quoteAfter_of_not_isQuote fun c hc => ?_
    rcases List.mem_cons.mp hc with rfl | hc
    · decide
    · exact isQuote_of_continuesName (Text.continuesName_of_mem hidentifier hc)

/-- Lexemes that are not disturbed are read as their parameters and characters. -/
theorem Lexes.segments_of_undisturbed {xs : List Lexeme} {quote : Option Char}
    (h : Lexes cs xs) (hx : Undisturbed quote xs) :
    segments '@' quote cs = xs.flatMap Lexeme.parts := by
  induction h generalizing quote with
  | nil => simp [segments]
  | @cons cs rest x xs h hrest ih =>
    obtain ⟨hfirst, hlater⟩ := hx
    rw [List.flatMap_cons, Lexeme.parts]
    cases hname : x.parameter? with
    | some name =>
      obtain ⟨hsegments, hquote⟩ := h.segments_of_parameter hname
      obtain rfl : quote = none := by simpa [hname] using hfirst
      rw [hquote] at hlater
      rw [hsegments, ih hlater]
      rfl
    | none =>
      have hnone : NoneOccurs '@' quote x.text := by simpa [hname] using hfirst
      rw [h.eq_append, segments_append_of_noneOccurs hnone h.getLast?_ne, ih hlater]

/-- Lexemes that come out as they should are not disturbed. -/
theorem Lexes.undisturbed_of_map_char {xs : List Lexeme} {quote : Option Char}
    (h : Lexes cs xs)
    (hsame : (segments '@' quote cs).map Segment.char = xs.flatMap Lexeme.replaced) :
    Undisturbed quote xs := by
  have hmark : isQuote '@' = false := by decide
  induction h generalizing quote with
  | nil => trivial
  | @cons cs rest x xs h hrest ih =>
    rw [List.flatMap_cons, Lexeme.replaced] at hsame
    unfold Undisturbed
    cases hname : x.parameter? with
    | some name =>
      obtain ⟨hsegments, hquote⟩ := h.segments_of_parameter hname
      obtain ⟨-, htext, -⟩ := Lexeme.parameter?_eq_some_iff.mp hname
      have hunquoted : quote = none := by
        cases quote with
        | none => rfl
        | some q =>
          rw [h.eq_append, htext, List.cons_append, segments] at hsame
          simp [hname, Segment.char] at hsame
      subst hunquoted
      rw [hsegments, hname] at hsame
      rw [hquote]
      exact ⟨rfl, ih (List.cons.inj hsame).2⟩
    | none =>
      rw [h.eq_append, hname] at hsame
      have hnone := noneOccurs_of_map_char hmark (by decide) hsame
      rw [segments_append_of_noneOccurs hnone h.getLast?_ne, List.map_append, List.map_map] at hsame
      have hkept : x.text.map (Segment.char ∘ .plain) = x.text := List.map_id x.text
      rw [hkept] at hsame
      exact ⟨hnone, ih (List.append_cancel_left hsame)⟩

/-- Of the lexemes that can put the quotes of a reader out of step, the harmless ones are parameters
and those that are quiet. -/
def Lexeme.IsHarmless (x : Lexeme) : Prop :=
  x.kind = .name ∨ x.kind = .comment ∨ x.kind = .hostParameter →
    x.parameter?.isSome = true ∨ IsQuiet x.text

/-- Lexemes among which quoted names, comments and host parameters are harmless are not
disturbed. -/
theorem Lexes.undisturbed_of_isHarmless {xs : List Lexeme} (h : Lexes cs xs)
    (hx : ∀ x ∈ xs, x.IsHarmless) : Undisturbed none xs := by
  induction h with
  | nil => trivial
  | @cons cs rest x xs h hrest ih =>
    have hlater := ih fun y hy => hx y (List.mem_cons_of_mem x hy)
    unfold Undisturbed
    cases hname : x.parameter? with
    | some name =>
      rw [(h.segments_of_parameter hname).2]
      exact ⟨rfl, hlater⟩
    | none =>
      have hquiet : IsQuiet x.text := by
        by_cases hkind : x.kind = .string ∨ x.kind = .word ∨ x.kind = .symbol
        · exact h.isQuiet hkind
        · have hother : x.kind = .name ∨ x.kind = .comment ∨ x.kind = .hostParameter := by
            cases hk : x.kind <;> simp_all
          simpa [hname] using hx x List.mem_cons_self hother
      rw [hquiet.2]
      exact ⟨hquiet.1, hlater⟩

/-- Replacing placeholders respects the lexemes of a text exactly when they are not disturbed: this
is so when quoted names, comments and host parameters are harmless. -/
theorem positional_respects_lexemes_iff {text : String} {xs : List Lexeme}
    (hlexes : Lexes text.toList xs) :
    (Respects text xs ↔ Undisturbed none xs) ∧
      ((∀ x ∈ xs, x.IsHarmless) → Respects text xs) := by
  have hiff : Respects text xs ↔ Undisturbed none xs := by
    constructor
    · intro h
      -- any values for the parameters do
      obtain ⟨values, hrun, -⟩ := h ((xs.filterMap Lexeme.parameter?).map (⟨·, .null, none⟩))
        fun name hname => ⟨_, List.mem_map_of_mem hname, rfl⟩
      obtain ⟨_, -, hsame⟩ := map_eq_ok_iff.mp ((positional_ofList '@' _ _).symm.trans hrun)
      exact hlexes.undisturbed_of_map_char
        (String.ofList_injective (congrArg Positional.text hsame))
    · intro h ps hcovers
      have hsegments := hlexes.segments_of_undisturbed h
      have hnames : names (segments '@' none text.toList) = xs.filterMap Lexeme.parameter? := by
        rw [hsegments, names_flatMap_parts]
      have htext : (segments '@' none text.toList).map Segment.char =
          xs.flatMap Lexeme.replaced := by
        simp only [hsegments, List.map_flatMap, Lexeme.map_char_parts]
      have houtcome := replaces_iff.mpr (positional_ofList '@' text ps).symm
      rw [← hnames] at hcovers ⊢
      rw [← htext]
      generalize positional text "@" ps = outcome at houtcome
      cases houtcome with
      | @unknown earlier later name hcut hearlier hunknown =>
        obtain ⟨p, hp, hname⟩ := hcovers name (by simp [hcut])
        exact absurd hname (hunknown p hp)
      | replaced hvalues => exact ⟨_, rfl, hvalues⟩
  exact ⟨hiff, fun h => hiff.mpr (hlexes.undisturbed_of_isHarmless h)⟩

/-- A string with a doubled quote, and a comment without quotes. -/
theorem positional_respects_lexemes_doubled :
    Lexes "'it''s'/*me*/@id".toList
      [⟨.string, "'it''s'".toList⟩, ⟨.comment, "/*me*/".toList⟩, ⟨.hostParameter, "@id".toList⟩] ∧
    Respects "'it''s'/*me*/@id"
      [⟨.string, "'it''s'".toList⟩, ⟨.comment, "/*me*/".toList⟩,
        ⟨.hostParameter, "@id".toList⟩] := by
  have hstring : Begins "'it''s'/*me*/@id".toList ⟨.string, "'it''s'".toList⟩
      "/*me*/@id".toList :=
    @Begins.string '\'' ['i', 't', '\'', '\'', 's'] _ (.inl rfl)
      (.char (by decide) (.char (by decide) (.doubled (.char (by decide) .nil)))) (by decide)
  have hcomment : Begins "/*me*/@id".toList ⟨.comment, "/*me*/".toList⟩ "@id".toList :=
    @Begins.blockComment ['m', 'e'] (by decide) ['@', 'i', 'd']
  have hparameter : Begins "@id".toList ⟨.hostParameter, "@id".toList⟩ [] :=
    @Begins.hostParameter '@' ['i', 'd'] [] rfl (.wordBefore rfl (.word rfl)) (by simp) (by simp)
  have hlexes := Lexes.cons hstring (.cons hcomment (.cons hparameter .nil))
  refine ⟨hlexes, (positional_respects_lexemes_iff hlexes).2 fun x hx => ?_⟩
  simp only [List.mem_cons, List.not_mem_nil, or_false] at hx
  rcases hx with rfl | rfl | rfl
  · simp [Lexeme.IsHarmless]
  · exact fun _ => .inr ⟨noneOccurs_of_not_mem (by decide), by decide⟩
  · exact fun _ => .inl (by decide)

/-- After the quote of a comment, a parameter is left as it is. -/
theorem quote_in_comment_hides_parameter :
    ¬∀ (text : String) (xs : List Lexeme), Lexes text.toList xs → Respects text xs := by
  intro h
  have hcomment : Begins "-- it's me\nSELECT @id".toList ⟨.comment, "-- it's me\n".toList⟩
      "SELECT @id".toList :=
    @Begins.lineComment " it's me".toList (by decide) "SELECT @id".toList
  have hword : Begins "SELECT @id".toList ⟨.word, "SELECT".toList⟩ " @id".toList :=
    @Begins.word 'S' "ELECT".toList " @id".toList rfl (List.all_eq_true.mp rfl)
      fun c hc => by cases hc; rfl
  have hspace : Begins " @id".toList ⟨.symbol, [' ']⟩ "@id".toList :=
    .symbol (by decide) rfl rfl (by decide) (by decide)
  have hparameter : Begins "@id".toList ⟨.hostParameter, "@id".toList⟩ [] :=
    @Begins.hostParameter '@' ['i', 'd'] [] rfl (.wordBefore rfl (.word rfl)) (by simp) (by simp)
  obtain ⟨values, hrun, -⟩ := h _ _
    (.cons hcomment (.cons hword (.cons hspace (.cons hparameter .nil))))
    [⟨"id", .int32 1, none⟩] (by decide)
  have hparts : segments '@' none "-- it's me\nSELECT @id".toList =
      "-- it's me\nSELECT @id".toList.map .plain := by decide +kernel
  have hkept : positional "-- it's me\nSELECT @id" "@" [⟨"id", .int32 1, none⟩] =
      .ok ⟨"-- it's me\nSELECT @id", []⟩ := by
    refine (positional_ofList '@' _ _).trans ?_
    rw [hparts]
    rfl
  rw [hkept] at hrun
  have htext : "-- it's me\nSELECT @id".toList = "-- it's me\nSELECT ?".toList :=
    String.ofList_injective (congrArg Positional.text (Except.ok.inj hrun))
  exact absurd htext (by decide)

end EntitySql
