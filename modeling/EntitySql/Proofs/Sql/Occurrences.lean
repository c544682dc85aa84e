import EntitySql.Proofs.Fallible
import EntitySql.Proofs.Text.Names
import EntitySql.Sql.Placeholder
import Mathlib.Data.List.TakeWhile

/-!
# Where placeholders occur

A placeholder occurs in a text where, outside of quoted stretches, a mark stands before a
name that goes on as far as it can. Cutting a text finds all of these and nothing else.
-/

namespace EntitySql

/-- The characters of a part as it is written. -/
def Segment.written (mark : Char) : Segment → List Char
  | .plain c => [c]
  | .placeholder name => mark :: name.toList

/-- No part is written as nothing. -/
theorem Segment.written_ne_nil (mark : Char) (x : Segment) : x.written mark ≠ [] := by
  cases x <;> simp [written]

namespace Placeholder

/-- The names of the placeholders among parts, in their order. -/
def names : List Segment → List String
  | [] => []
  | .plain _ :: rest => names rest
  | .placeholder name :: rest => name :: names rest

@[simp] theorem names_nil : names [] = [] := rfl

@[simp] theorem names_plain (c : Char) (rest : List Segment) :
    names (.plain c :: rest) = names rest := rfl

@[simp] theorem names_placeholder (name : String) (rest : List Segment) :
    names (.placeholder name :: rest) = name :: names rest := rfl

/-- Parts in a row have the names of each. -/
theorem names_append (xs ys : List Segment) : names (xs ++ ys) = names xs ++ names ys := by
  induction xs with
  | nil => rfl
  | cons x xs ih => cases x <;> simp [ih]

/-- Characters have no names. -/
theorem names_map_plain (cs : List Char) : names (cs.map .plain) = [] := by
  induction cs with
  | nil => rfl
  | cons c cs ih => exact ih

/-- The quote that a text is inside of after a character. -/
def quoteStep (quote : Option Char) (c : Char) : Option Char :=
  match quote with
  | some q => if c = q then none else some q
  | none => if isQuote c then some c else none

/-- The quote that a text is inside of after characters are read from left to right. -/
def quoteAfter (quote : Option Char) (cs : List Char) : Option Char :=
  cs.foldl quoteStep quote

/-- A placeholder between two stretches of a text that begins inside of a quote or outside of all:
it is not quoted, and its name goes on as far as it can. -/
structure OccursAt (mark : Char) (quote : Option Char) (text before : List Char) (name : String)
    (after : List Char) : Prop where
  eq_append : text = before ++ mark :: (name.toList ++ after)
  unquoted : quoteAfter quote before = none
  isIdentifier : Text.isIdentifier name = true
  ends : ∀ c ∈ after.head?, Text.continuesName c = false

/-- A placeholder among parts, by the characters before and after it. -/
def HoldsAt (mark : Char) (parts : List Segment) (before : List Char) (name : String)
    (after : List Char) : Prop :=
  ∃ pre post, parts = pre ++ .placeholder name :: post ∧
    before = pre.flatMap (Segment.written mark) ∧ after = post.flatMap (Segment.written mark)

/-- Parts that a text is written as, with exactly the placeholders that occur in it. -/
structure IsReading (mark : Char) (quote : Option Char) (text : List Char) (parts : List Segment) :
    Prop where
  written : parts.flatMap (Segment.written mark) = text
  occursAt_iff : ∀ before name after,
    OccursAt mark quote text before name after ↔ HoldsAt mark parts before name after

variable {mark : Char} {quote : Option Char} {text before after : List Char} {name : String}
  {parts : List Segment}

/-- A placeholder occurs first in a text, or it occurs after the first character. -/
theorem occursAt_cons_iff {c : Char} {cs : List Char} :
    OccursAt mark quote (c :: cs) before name after ↔
      (before = [] ∧ OccursAt mark quote (c :: cs) [] name after) ∨
      ∃ rest, before = c :: rest ∧ OccursAt mark (quoteStep quote c) cs rest name after := by
  cases before with
  | nil => simp
  | cons b rest =>
    constructor
    · intro h
      obtain ⟨rfl, htext⟩ := List.cons.inj h.eq_append
      exact .inr ⟨rest, rfl, htext, h.unquoted, h.isIdentifier, h.ends⟩
    · rintro (⟨hnil, -⟩ | ⟨rest', hrest, h⟩)
      · cases hnil
      · obtain ⟨rfl, rfl⟩ := List.cons.inj hrest
        exact ⟨congrArg _ h.eq_append, h.unquoted, h.isIdentifier, h.ends⟩

/-- A placeholder is the first of the parts, or it is among the others. -/
theorem holdsAt_cons_iff {x : Segment} :
    HoldsAt mark (x :: parts) before name after ↔
      (before = [] ∧ x = .placeholder name ∧ after = parts.flatMap (Segment.written mark)) ∨
      ∃ rest, before = x.written mark ++ rest ∧ HoldsAt mark parts rest name after := by
  constructor
  · rintro ⟨pre, post, hparts, rfl, rfl⟩
    cases pre with
    | nil =>
      obtain ⟨rfl, rfl⟩ := List.cons.inj hparts
      exact .inl ⟨rfl, rfl, rfl⟩
    | cons y pre =>
      obtain ⟨rfl, rfl⟩ := List.cons.inj hparts
      exact .inr ⟨_, List.flatMap_cons, pre, post, rfl, rfl, rfl⟩
  · rintro (⟨rfl, rfl, rfl⟩ | ⟨rest, rfl, pre, post, rfl, rfl, rfl⟩)
    · exact ⟨[], parts, rfl, rfl, rfl⟩
    · exact ⟨x :: pre, post, rfl, List.flatMap_cons.symm, rfl⟩

/-- Characters that are no quotes open none. -/
theorem quoteAfter_of_not_isQuote {cs : List Char} (h : ∀ c ∈ cs, isQuote c = false) :
    quoteAfter none cs = none := by
  induction cs with
  | nil => rfl
  | cons c cs ih =>
    rw [quoteAfter, List.foldl_cons, quoteStep, h c List.mem_cons_self]
    exact ih fun d hd => h d (List.mem_cons_of_mem c hd)

/-- The characters of a name are no quotes. -/
theorem isQuote_of_continuesName {c : Char} (h : Text.continuesName c = true) :
    isQuote c = false := by
  rw [← Bool.not_eq_true, isQuote, Bool.or_eq_true, beq_iff_eq, beq_iff_eq]
  rintro (rfl | rfl) <;> revert h <;> decide

/-- No placeholder occurs inside of a name. -/
theorem occursAt_append_iff {cs : List Char} (hmark : Text.continuesName mark = false)
    (h : ∀ c ∈ cs, Text.continuesName c = true) :
    OccursAt mark none (cs ++ text) before name after ↔
      ∃ rest, before = cs ++ rest ∧ OccursAt mark none text rest name after := by
  induction cs generalizing before with
  | nil => simp
  | cons c cs ih =>
    have hc := h c List.mem_cons_self
    have hfirst : ¬OccursAt mark none (c :: (cs ++ text)) [] name after := by
      intro hocc
      rw [(List.cons.inj hocc.eq_append).1, hmark] at hc
      cases hc
    have hstep : quoteStep none c = none := by simp [quoteStep, isQuote_of_continuesName hc]
    rw [List.cons_append, occursAt_cons_iff, hstep]
    simp only [hfirst, and_false, false_or, ih fun d hd => h d (List.mem_cons_of_mem c hd)]
    constructor
    · rintro ⟨_, rfl, rest, rfl, hocc⟩
      exact ⟨rest, rfl, hocc⟩
    · rintro ⟨rest, rfl, hocc⟩
      exact ⟨_, rfl, rest, rfl, hocc⟩

/-- Of the parts after the first, a placeholder is among them as it is among all. -/
theorem holdsAt_cons_append_iff {x : Segment} :
    HoldsAt mark (x :: parts) (x.written mark ++ before) name after ↔
      HoldsAt mark parts before name after := by
  rw [holdsAt_cons_iff]
  constructor
  · rintro (⟨hnil, -⟩ | ⟨rest, hrest, h⟩)
    · exact absurd (List.append_eq_nil_iff.mp hnil).1 (x.written_ne_nil mark)
    · rwa [List.append_cancel_left hrest]
  · exact fun h => .inr ⟨before, rfl, h⟩

/-- The first of the parts is a placeholder when a placeholder is held before everything. -/
theorem holdsAt_cons_nil_iff {x : Segment} :
    HoldsAt mark (x :: parts) [] name after ↔
      x = .placeholder name ∧ after = parts.flatMap (Segment.written mark) := by
  rw [holdsAt_cons_iff]
  refine ⟨?_, fun h => .inl ⟨rfl, h⟩⟩
  rintro (⟨-, h⟩ | ⟨rest, hrest, -⟩)
  · exact h
  · exact absurd (List.append_eq_nil_iff.mp hrest.symm).1 (x.written_ne_nil mark)

/-- Parts are known by what is written and by the placeholders that they hold. -/
theorem parts_eq_of_holdsAt {other : List Segment}
    (hwritten : parts.flatMap (Segment.written mark) = other.flatMap (Segment.written mark))
    (hholds : ∀ before name after,
      HoldsAt mark parts before name after ↔ HoldsAt mark other before name after) :
    parts = other := by
  induction parts generalizing other with
  | nil =>
    cases other with
    | nil => rfl
    | cons y other =>
      exact absurd (List.append_eq_nil_iff.mp hwritten.symm).1 (y.written_ne_nil mark)
  | cons x parts ih =>
    cases other with
    | nil => exact absurd (List.append_eq_nil_iff.mp hwritten).1 (x.written_ne_nil mark)
    | cons y other =>
      have hsame : x = y := by
        cases x with
        | placeholder name =>
          have hfirst := (hholds [] name _).mp (holdsAt_cons_nil_iff.mpr ⟨rfl, rfl⟩)
          exact (holdsAt_cons_nil_iff.mp hfirst).1.symm
        | plain c =>
          cases y with
          | placeholder name =>
            have hfirst := (hholds [] name _).mpr (holdsAt_cons_nil_iff.mpr ⟨rfl, rfl⟩)
            exact (holdsAt_cons_nil_iff.mp hfirst).1
          | plain d => rw [(List.cons.inj hwritten).1]
      subst hsame
      refine congrArg _ (ih (List.append_cancel_left hwritten) fun before name after => ?_)
      rw [← holdsAt_cons_append_iff (x := x), hholds, holdsAt_cons_append_iff]

/-- A text has one reading. -/
theorem IsReading.unique {other : List Segment} (h : IsReading mark quote text parts)
    (hother : IsReading mark quote text other) : parts = other :=
  parts_eq_of_holdsAt (h.written.trans hother.written.symm) fun before name after =>
    (h.occursAt_iff before name after).symm.trans (hother.occursAt_iff before name after)

/-- A text in which no placeholder occurs first is read as a character before the rest. -/
theorem IsReading.cons_plain {c : Char} (hfirst : ∀ name after,
    ¬OccursAt mark quote (c :: text) [] name after)
    (h : IsReading mark (quoteStep quote c) text parts) :
    IsReading mark quote (c :: text) (.plain c :: parts) where
  written := congrArg (c :: ·) h.written
  occursAt_iff before name after := by
    rw [occursAt_cons_iff, holdsAt_cons_iff]
    simp [hfirst, h.occursAt_iff, Segment.written]

/-- A mark and a name that goes on as far as it can are read as a placeholder before the rest. -/
theorem IsReading.cons_placeholder (hquote : isQuote mark = false)
    (hmark : Text.continuesName mark = false) (hname : Text.isIdentifier name = true)
    (hend : ∀ c ∈ text.head?, Text.continuesName c = false)
    (h : IsReading mark none text parts) :
    IsReading mark none (mark :: (name.toList ++ text)) (.placeholder name :: parts) where
  written := by
    rw [List.flatMap_cons, h.written]
    rfl
  occursAt_iff before name' after := by
    have hstep : quoteStep none mark = none := by simp [quoteStep, hquote]
    have hall {s : String} (hs : Text.isIdentifier s = true) :
        ∀ c ∈ s.toList, Text.continuesName c = true := fun c hc => Text.continuesName_of_mem hs hc
    -- both names are the longest at the same place
    have hfirst : OccursAt mark none (mark :: (name.toList ++ text)) [] name' after ↔
        name = name' ∧ after = text := by
      constructor
      · intro hocc
        have hlongest := Text.span_continuesName (hall hname) hend
        rw [(List.cons.inj hocc.eq_append).2] at hlongest
        have hlongest' := Text.span_continuesName (hall hocc.isIdentifier) hocc.ends
        exact ⟨String.toList_inj.mp (hlongest.1.symm.trans hlongest'.1),
          hlongest'.2.symm.trans hlongest.2⟩
      · rintro ⟨rfl, rfl⟩
        exact ⟨rfl, rfl, hname, hend⟩
    rw [occursAt_cons_iff, holdsAt_cons_iff, hstep, hfirst, h.written]
    simp only [Segment.written, Segment.placeholder.injEq, occursAt_append_iff hmark (hall hname),
      h.occursAt_iff]
    refine or_congr Iff.rfl ⟨?_, ?_⟩
    · rintro ⟨_, rfl, rest, rfl, hholds⟩
      exact ⟨rest, rfl, hholds⟩
    · rintro ⟨rest, rfl, hholds⟩
      exact ⟨_, rfl, rest, rfl, hholds⟩

/-- What goes on as a name from a character that starts one is a name. -/
theorem isIdentifier_takeWhile {cs : List Char} (h : cs.head?.any Text.startsName = true) :
    Text.isIdentifier (String.ofList (cs.takeWhile Text.continuesName)) = true := by
  cases cs with
  | nil => cases h
  | cons c cs =>
    have hc : Text.startsName c = true := h
    rw [Text.isIdentifier_iff, String.toList_ofList,
      List.takeWhile_cons_of_pos (Text.continuesName_of_startsName hc)]
    exact ⟨c, _, rfl, hc, fun d hd => List.mem_takeWhile_imp hd⟩

/-- What is left after a name does not go on with it. -/
theorem ends_dropWhile (cs : List Char) :
    ∀ c ∈ (cs.dropWhile Text.continuesName).head?, Text.continuesName c = false := by
  intro c hc
  have hnot := List.head?_dropWhile_not Text.continuesName cs
  rwa [Option.mem_def.mp hc] at hnot

/-- What occurs first is a mark outside of quotes and the start of a name, whatever follows the
text. -/
theorem starts_of_occursAt_nil {c : Char} {cs : List Char}
    (h : OccursAt mark quote (c :: cs) [] name after) (rest : List Char) :
    quote = none ∧ c = mark ∧ (cs ++ rest).head?.any Text.startsName = true := by
  obtain ⟨hmarked, hrest⟩ := List.cons.inj h.eq_append
  obtain ⟨first, others, hname, hstarts, -⟩ := Text.isIdentifier_iff.mp h.isIdentifier
  exact ⟨h.unquoted, hmarked, by simp [hrest, hname, hstarts]⟩

/-- Cutting a text gives its reading. -/
theorem isReading_segments (hquote : isQuote mark = false)
    (hmark : Text.continuesName mark = false) (quote : Option Char) (text : List Char) :
    IsReading mark quote text (segments mark quote text) := by
  fun_induction segments mark quote text with
  | case1 quote =>
    refine ⟨rfl, fun before name after => ⟨fun hocc => ?_, ?_⟩⟩
    · simpa using hocc.eq_append
    · rintro ⟨pre, post, hparts, -⟩
      simp at hparts
  | case2 c rest q ih =>
    refine .cons_plain (fun name after hocc => ?_) ih
    cases hocc.unquoted
  | case3 c rest hc ih =>
    refine .cons_plain (fun name after hocc => ?_) (by simpa [quoteStep, hc] using ih)
    rw [(List.cons.inj hocc.eq_append).1, hquote] at hc
    cases hc
  | case4 c rest hc hplace ih =>
    obtain ⟨rfl, hstarts⟩ := hplace
    have hwhole := IsReading.cons_placeholder hquote hmark
      (isIdentifier_takeWhile hstarts) (ends_dropWhile rest) ih
    rwa [String.toList_ofList, List.takeWhile_append_dropWhile] at hwhole
  | case5 c rest hc hplace ih =>
    refine .cons_plain (fun name after hocc => ?_) (by simpa [quoteStep, hc] using ih)
    obtain ⟨-, hmarked, hstarts⟩ := starts_of_occursAt_nil hocc []
    exact hplace ⟨hmarked, by simpa using hstarts⟩

section NoneOccurs

variable {cs rest : List Char}

/-- No placeholder occurs in a text. -/
def NoneOccurs (mark : Char) (quote : Option Char) (text : List Char) : Prop :=
  ∀ before name after, ¬OccursAt mark quote text before name after

/-- Nothing occurs in nothing. -/
theorem noneOccurs_nil : NoneOccurs mark quote [] := by
  intro before name after h
  simpa using h.eq_append

/-- Nothing occurs in a text when nothing occurs first or after its first character. -/
theorem noneOccurs_cons_iff {c : Char} : NoneOccurs mark quote (c :: cs) ↔
    (∀ name after, ¬OccursAt mark quote (c :: cs) [] name after) ∧
      NoneOccurs mark (quoteStep quote c) cs := by
  constructor
  · exact fun h => ⟨h [], fun before name after hocc =>
      h _ _ _ (occursAt_cons_iff.mpr (.inr ⟨before, rfl, hocc⟩))⟩
  · rintro ⟨hfirst, hlater⟩ before name after hocc
    rcases occursAt_cons_iff.mp hocc with ⟨-, hocc⟩ | ⟨before, -, hocc⟩
    · exact hfirst _ _ hocc
    · exact hlater _ _ _ hocc

/-- A placeholder begins with a mark. -/
theorem noneOccurs_cons_of_ne {c : Char} (hc : c ≠ mark)
    (h : NoneOccurs mark (quoteStep quote c) cs) : NoneOccurs mark quote (c :: cs) :=
  noneOccurs_cons_iff.mpr ⟨fun _ _ hocc => hc (List.cons.inj hocc.eq_append).1, h⟩

/-- A placeholder is not quoted. -/
theorem noneOccurs_cons_of_quoted {c q : Char} (h : NoneOccurs mark (quoteStep (some q) c) cs) :
    NoneOccurs mark (some q) (c :: cs) :=
  noneOccurs_cons_iff.mpr ⟨fun _ _ hocc => (by cases hocc.unquoted), h⟩

/-- Nothing occurs in a text without marks. -/
theorem noneOccurs_of_not_mem (h : mark ∉ cs) : NoneOccurs mark quote cs := by
  induction cs generalizing quote with
  | nil => exact noneOccurs_nil
  | cons c cs ih =>
    rw [List.mem_cons, not_or] at h
    exact noneOccurs_cons_of_ne (Ne.symm h.1) (ih h.2)

/-- A mark that a name follows is a placeholder that occurs first. -/
theorem exists_occursAt_nil {m : Char} (h : cs.head?.any Text.startsName = true) :
    ∃ name after, OccursAt m none (m :: cs) [] name after := by
  refine ⟨_, cs.dropWhile Text.continuesName, ?_, rfl, isIdentifier_takeWhile h, ends_dropWhile cs⟩
  rw [String.toList_ofList, List.takeWhile_append_dropWhile]
  rfl

/-- Where no placeholder begins, a character is a part by itself. -/
theorem segments_cons_of_not {c : Char} (h : quote = none → isQuote c = false →
      ¬(c = mark ∧ cs.head?.any Text.startsName = true)) :
    segments mark quote (c :: cs) = .plain c :: segments mark (quoteStep quote c) cs := by
  cases quote with
  | some q => rw [segments, quoteStep]
  | none =>
    rw [segments]
    cases hc : isQuote c with
    | true => simp [quoteStep, hc]
    | false => simp [quoteStep, hc, h rfl hc]

/-- A text in which nothing occurs is kept before any other, unless a mark at its end and a name
after it become a placeholder. -/
theorem segments_append_of_noneOccurs (h : NoneOccurs mark quote cs)
    (hseam : cs.getLast? ≠ some mark ∨ rest = []) :
    segments mark quote (cs ++ rest) =
      cs.map .plain ++ segments mark (quoteAfter quote cs) rest := by
  induction cs generalizing quote with
  | nil => rfl
  | cons c cs ih =>
    obtain ⟨hfirst, hlater⟩ := noneOccurs_cons_iff.mp h
    have hseam' : cs.getLast? ≠ some mark ∨ rest = [] := by
      refine hseam.imp_left fun hne hlast => hne ?_
      rw [List.getLast?_cons, hlast]
      rfl
    have hno : quote = none → isQuote c = false →
        ¬(c = mark ∧ (cs ++ rest).head?.any Text.startsName = true) := by
      rintro rfl - ⟨rfl, hstarts⟩
      cases cs with
      | nil =>
        rcases hseam with hne | rfl
        · exact hne rfl
        · cases hstarts
      | cons d cs =>
        have hstarts : (d :: cs).head?.any Text.startsName = true := hstarts
        obtain ⟨name, after, hocc⟩ := exists_occursAt_nil (m := c) hstarts
        exact hfirst name after hocc
    rw [List.cons_append, segments_cons_of_not hno, ih hlater hseam']
    rfl

/-- Nothing occurs in the beginning of a text that is kept as it is. -/
theorem noneOccurs_of_map_char {tail : List Char} (hquote : isQuote mark = false)
    (hquestion : mark ≠ '?')
    (h : (segments mark quote (cs ++ rest)).map Segment.char = cs ++ tail) :
    NoneOccurs mark quote cs := by
  induction cs generalizing quote with
  | nil => exact noneOccurs_nil
  | cons c cs ih =>
    -- a placeholder at the first character would show as a question mark
    have hno : ¬(quote = none ∧ c = mark ∧ (cs ++ rest).head?.any Text.startsName = true) := by
      rintro ⟨rfl, rfl, hstarts⟩
      rw [List.cons_append, segments] at h
      simp only [hquote, hstarts, and_self, Bool.false_eq_true, if_false, if_true] at h
      exact hquestion (List.cons.inj h).1.symm
    rw [List.cons_append, segments_cons_of_not fun hnone _ hplace => hno ⟨hnone, hplace⟩] at h
    exact noneOccurs_cons_iff.mpr ⟨fun name after hocc => hno (starts_of_occursAt_nil hocc rest),
      ih (List.cons.inj h).2⟩

end NoneOccurs

/-- The value of the first parameter of a name. -/
def IsFirstValue (ps : List Parameter) (name : String) (v : Value) : Prop :=
  ∃ earlier p later, ps = earlier ++ p :: later ∧ (∀ q ∈ earlier, q.name ≠ name) ∧
    p.name = name ∧ p.value = v

/-- What placeholders are replaced by question marks to: the fault of the first whose name no
parameter has, or the text with question marks and the values of the first parameters of the
names. -/
inductive Replaces (mark : Char) (ps : List Parameter) (parts : List Segment) :
    Except String Positional → Prop
  | unknown {earlier later : List String} {name : String}
      (hnames : names parts = earlier ++ name :: later)
      (hearlier : ∀ n ∈ earlier, ∃ p ∈ ps, p.name = n) (hunknown : ∀ p ∈ ps, p.name ≠ name) :
      Replaces mark ps parts (.error
        ("no value supplied for parameter '" ++ String.ofList [mark] ++ name ++ "'"))
  | replaced {values : List Value}
      (hvalues : List.Forall₂ (IsFirstValue ps) (names parts) values) :
      Replaces mark ps parts (.ok ⟨String.ofList (parts.map Segment.char), values⟩)

variable {ps : List Parameter}

/-- A name that no parameter has is not found. -/
theorem find?_eq_none_iff : find? ps name = none ↔ ∀ p ∈ ps, p.name ≠ name := by
  simp [find?]

/-- The first parameter of a name is found. -/
theorem find?_map_value_iff {v : Value} :
    (find? ps name).map (·.value) = some v ↔ IsFirstValue ps name v := by
  simp only [find?, Option.map_eq_some_iff, List.find?_eq_some_iff_append, IsFirstValue]
  constructor
  · rintro ⟨p, ⟨hname, earlier, later, hps, hearlier⟩, hv⟩
    exact ⟨earlier, p, later, hps, by simpa using hearlier, by simpa using hname, hv⟩
  · rintro ⟨earlier, p, later, hps, hearlier, hname, hv⟩
    exact ⟨p, ⟨by simpa using hname, earlier, later, hps, by simpa using hearlier⟩, hv⟩

/-- The value of a placeholder, or the message when it has none. -/
def valueOf (mark : Char) (ps : List Parameter) (name : String) : Except String Value :=
  match find? ps name with
  | some p => .ok p.value
  | none => .error ("no value supplied for parameter '" ++ String.ofList [mark] ++ name ++ "'")

/-- A placeholder has the value of the first parameter of its name. -/
theorem valueOf_eq_ok_iff {v : Value} :
    valueOf mark ps name = .ok v ↔ IsFirstValue ps name v := by
  rw [← find?_map_value_iff, valueOf]
  cases find? ps name <;> simp

/-- A placeholder has no value when no parameter has its name. -/
theorem valueOf_eq_error_iff {message : String} :
    valueOf mark ps name = .error message ↔ (∀ p ∈ ps, p.name ≠ name) ∧
      message = "no value supplied for parameter '" ++ String.ofList [mark] ++ name ++ "'" := by
  rw [← find?_eq_none_iff, valueOf]
  cases find? ps name <;> simp [eq_comm]

/-- The values of parts are those of their placeholders. -/
theorem valuesOf_eq_mapM (parts : List Segment) :
    valuesOf mark ps parts = (names parts).mapM (valueOf mark ps) := by
  induction parts with
  | nil => rfl
  | cons x parts ih =>
    cases x with
    | plain c => exact ih
    | placeholder name =>
      rw [valuesOf, ih, names_placeholder, List.mapM_cons, valueOf]
      cases find? ps name with
      | none => rfl
      | some p => cases (names parts).mapM (valueOf mark ps) <;> rfl

/-- Replacing the placeholders of a text has the one outcome that its parts call for. -/
theorem replaces_iff {outcome : Except String Positional} :
    Replaces mark ps parts outcome ↔
      (valuesOf mark ps parts).map (fun values =>
        (⟨String.ofList (parts.map Segment.char), values⟩ : Positional)) = outcome := by
  rw [valuesOf_eq_mapM]
  constructor
  · intro h
    cases h with
    | @unknown earlier later name hnames hearlier hunknown =>
      rw [map_eq_error_iff, hnames, mapM_eq_error_iff]
      refine ⟨earlier.length, name, by simp, valueOf_eq_error_iff.mpr ⟨hunknown, rfl⟩,
        fun j hj n hn => ?_⟩
      rw [List.getElem?_append_left hj] at hn
      obtain ⟨p, hp, hname⟩ := hearlier n (List.mem_of_getElem? hn)
      cases hvalue : valueOf mark ps n with
      | ok v => exact ⟨v, rfl⟩
      | error message => exact absurd hname ((valueOf_eq_error_iff.mp hvalue).1 p hp)
    | replaced hvalues =>
      rw [map_eq_ok_iff]
      exact ⟨_, mapM_eq_ok_iff.mpr (hvalues.imp fun _ _ => valueOf_eq_ok_iff.mpr), rfl⟩
  · rintro rfl
    cases hrun : (names parts).mapM (valueOf mark ps) with
    | ok values =>
      exact .replaced ((mapM_eq_ok_iff.mp hrun).imp fun _ _ => valueOf_eq_ok_iff.mp)
    | error message =>
      obtain ⟨i, name, hi, hfault, hbefore⟩ := mapM_eq_error_iff.mp hrun
      obtain ⟨hunknown, rfl⟩ := valueOf_eq_error_iff.mp hfault
      obtain ⟨hlt, hget⟩ := List.getElem?_eq_some_iff.mp hi
      have hnames : names parts =
          (names parts).take i ++
            name :: (names parts).drop (i + 1) := by
        rw [← hget, List.getElem_cons_drop, List.take_append_drop]
      refine .unknown hnames (fun n hn => ?_) hunknown
      obtain ⟨j, hj, rfl⟩ := List.mem_take_iff_getElem.mp hn
      obtain ⟨v, hv⟩ := hbefore j (by omega) _ (List.getElem?_eq_getElem (by omega))
      obtain ⟨earlier, p, later, rfl, -, hname, -⟩ := valueOf_eq_ok_iff.mp hv
      exact ⟨p, by simp, hname⟩

/-- Nothing occurs in a text whose placeholders were replaced. -/
theorem segments_map_char (hquestion : mark ≠ '?') (quote : Option Char) (cs : List Char) :
    segments mark quote ((segments mark quote cs).map Segment.char) =
      ((segments mark quote cs).map Segment.char).map .plain := by
  fun_induction segments mark quote cs with
  | case1 quote => simp [segments]
  | case2 c rest q ih =>
    rw [dite_eq_ite] at ih
    rw [List.map_cons, Segment.char, segments, ih]
    rfl
  | case3 c rest hc ih =>
    rw [List.map_cons, Segment.char, segments]
    simp [hc, ih]
  | case4 c rest hc hplace ih =>
    have hno : isQuote '?' = false := by decide
    rw [List.map_cons, Segment.char, segments]
    simp [hno, hquestion.symm, ih]
  | case5 c rest hc hplace ih =>
    -- a mark that no name followed is not followed by one now
    have hhead (quote : Option Char) :
        ((segments mark quote rest).map Segment.char).head?.any Text.startsName = true →
          rest.head?.any Text.startsName = true := by
      have hno : Text.startsName '?' = false := by decide
      fun_cases segments mark quote rest <;> simp_all [Segment.char]
    have hstill : ¬(c = mark ∧
        ((segments mark none rest).map Segment.char).head?.any Text.startsName = true) :=
      fun h => hplace ⟨h.1, hhead none h.2⟩
    rw [List.map_cons, Segment.char, segments]
    simp only [hc, hstill, ih, Bool.false_eq_true, if_false, List.map_cons]

/-- The bytes between which the names of placeholders stand, in a text whose first character stands
at a byte. -/
def nameSpans (mark : Char) (quote : Option Char) (offset : Nat) (cs : List Char) :
    List (Nat × Nat) :=
  match cs with
  | [] => []
  | c :: rest =>
    let start := offset + c.utf8Size
    match quote with
    | some q => nameSpans mark (if c = q then none else some q) start rest
    | none =>
      if isQuote c then nameSpans mark (some c) start rest
      else if c = mark ∧ rest.head?.any Text.startsName then
        let stop := (rest.takeWhile Text.continuesName).foldl (· + ·.utf8Size) start
        (start, stop) :: nameSpans mark none stop (rest.dropWhile Text.continuesName)
      else nameSpans mark none start rest
termination_by cs.length
decreasing_by
  all_goals simp only [List.length_cons]
  all_goals first
    | omega
    | exact Nat.lt_succ_of_le (List.dropWhile_suffix _).length_le

/-- A text can be cut at two bytes, neither of them within a character, and what lies between them
is a name. -/
def SlicesTo (text : String) (span : Nat × Nat) (name : String) : Prop :=
  ∃ start stop : text.Pos, start.offset.byteIdx = span.1 ∧ stop.offset.byteIdx = span.2 ∧
    start ≤ stop ∧ text.extract start stop = name

/-- A text can be cut where its parts end. -/
theorem slicesTo_append (a name b : String) :
    SlicesTo (a ++ name ++ b) (a.utf8ByteSize, a.utf8ByteSize + name.utf8ByteSize) name := by
  have hstart : a.rawEndPos.IsValid (a ++ name ++ b) :=
    String.Pos.Raw.isValid_iff_exists_append.mpr ⟨a, name ++ b, String.append_assoc, rfl⟩
  have hstop : (a ++ name).rawEndPos.IsValid (a ++ name ++ b) :=
    String.Pos.Raw.isValid_iff_exists_append.mpr ⟨a ++ name, b, rfl, rfl⟩
  refine ⟨⟨_, hstart⟩, ⟨_, hstop⟩, rfl, String.utf8ByteSize_append, ?_, ?_⟩
  · show a.utf8ByteSize ≤ (a ++ name).utf8ByteSize
    rw [String.utf8ByteSize_append]
    exact Nat.le_add_right _ _
  · apply String.toByteArray_inj.mp
    have hbytes : (a ++ name ++ b).toByteArray =
        a.toByteArray ++ (name.toByteArray ++ b.toByteArray) := by
      rw [String.append_assoc, String.toByteArray_append, String.toByteArray_append]
    have hsize : (a ++ name).rawEndPos.byteIdx = a.toByteArray.size + name.toByteArray.size :=
      String.utf8ByteSize_append
    rw [String.toByteArray_extract, hbytes, hsize]
    exact (ByteArray.extract_append_size_add (i := 0)).trans (ByteArray.extract_append_eq_left rfl)

/-- The size of a text is that of its characters in a row. -/
theorem foldl_utf8Size (cs : List Char) (offset : Nat) :
    cs.foldl (· + ·.utf8Size) offset = offset + (String.ofList cs).utf8ByteSize := by
  induction cs generalizing offset with
  | nil => rfl
  | cons c cs ih =>
    rw [List.foldl_cons, ih, ← List.singleton_append, String.ofList_append,
      String.utf8ByteSize_append, ← String.singleton_eq_ofList, String.utf8ByteSize_singleton,
      Nat.add_assoc]

/-- Each name is what lies between the bytes at which it was found. -/
theorem slicesTo_nameSpans (done : List Char) (quote : Option Char) (cs : List Char) :
    List.Forall₂ (SlicesTo (String.ofList (done ++ cs)))
      (nameSpans mark quote (String.ofList done).utf8ByteSize cs)
      (names (segments mark quote cs)) := by
  have hsize (done more : List Char) :
      more.foldl (· + ·.utf8Size) (String.ofList done).utf8ByteSize =
        (String.ofList (done ++ more)).utf8ByteSize := by
    rw [foldl_utf8Size, String.ofList_append, String.utf8ByteSize_append]
  have hstep (done : List Char) (c : Char) :
      (String.ofList done).utf8ByteSize + c.utf8Size = (String.ofList (done ++ [c])).utf8ByteSize :=
    hsize done [c]
  fun_induction segments mark quote cs generalizing done with
  | case1 quote =>
    rw [nameSpans]
    exact .nil
  | case2 c rest q ih =>
    rw [nameSpans]
    simp only [hstep]
    simpa using ih (done ++ [c])
  | case3 c rest hc ih =>
    rw [nameSpans]
    simp only [hstep, hc, if_true]
    simpa using ih (done ++ [c])
  | case4 c rest hc hplace ih =>
    rw [nameSpans]
    obtain ⟨rfl, hstarts⟩ := hplace
    simp only [hstep, hsize, hc, hstarts, and_self, Bool.false_eq_true, if_false, if_true]
    have hwhole : done ++ c :: rest = done ++ [c] ++ rest.takeWhile Text.continuesName ++
        rest.dropWhile Text.continuesName := by
      rw [List.append_assoc, List.takeWhile_append_dropWhile, List.append_assoc,
        List.singleton_append]
    rw [hwhole]
    refine .cons ?_ (ih _)
    have hslice := slicesTo_append (String.ofList (done ++ [c]))
      (String.ofList (rest.takeWhile Text.continuesName))
      (String.ofList (rest.dropWhile Text.continuesName))
    rwa [← String.utf8ByteSize_append, ← String.ofList_append, ← String.ofList_append] at hslice
  | case5 c rest hc hplace ih =>
    rw [nameSpans]
    simp only [hstep, hc, hplace, Bool.false_eq_true, if_false]
    simpa using ih (done ++ [c])

/-- With a mark, the parts of a text decide what its placeholders are replaced to. -/
theorem positional_ofList (mark : Char) (text : String) (ps : List Parameter) :
    positional text (String.ofList [mark]) ps =
      (valuesOf mark ps (segments mark none text.toList)).map fun values =>
        ⟨String.ofList ((segments mark none text.toList).map Segment.char), values⟩ := by
  rw [positional, String.toList_ofList]
  rfl

/-- Replacing the placeholders of a text follows its one reading: what the outcome is, that nothing
is left to be replaced, and that names are cut out of the text between characters. -/
theorem positional_replaces_occurrences (hmark : mark = '@' ∨ mark = ':') (text : String)
    (ps : List Parameter) :
    ∃ parts, (∀ other, IsReading mark none text.toList other ↔ other = parts) ∧
      (∀ outcome, Replaces mark ps parts outcome ↔
        positional text (String.ofList [mark]) ps = outcome) ∧
      (∀ r, positional text (String.ofList [mark]) ps = .ok r →
        ∀ others, positional r.text (String.ofList [mark]) others = .ok ⟨r.text, []⟩) ∧
      List.Forall₂ (SlicesTo text) (nameSpans mark none 0 text.toList)
        (names parts) := by
  have hquote : isQuote mark = false := by rcases hmark with rfl | rfl <;> decide
  have hname : Text.continuesName mark = false := by rcases hmark with rfl | rfl <;> decide
  have hquestion : mark ≠ '?' := by rcases hmark with rfl | rfl <;> decide
  have hreading := isReading_segments hquote hname none text.toList
  refine ⟨segments mark none text.toList, fun other => ⟨fun h => h.unique hreading, ?_⟩,
    fun outcome => ?_, fun r hr others => ?_, ?_⟩
  · rintro rfl
    exact hreading
  · rw [replaces_iff, positional_ofList]
  · rw [positional_ofList] at hr ⊢
    obtain ⟨values, -, rfl⟩ := map_eq_ok_iff.mp hr
    rw [String.toList_ofList, segments_map_char hquestion, valuesOf_eq_mapM]
    have hsame : (Segment.char ∘ Segment.plain) = id := rfl
    rw [names_map_plain, List.map_map, hsame, List.map_id]
    rfl
  · simpa using slicesTo_nameSpans [] none text.toList

/-- A quoted mark, a letter of two bytes and a doubled mark before a name. -/
theorem positional_replaces_occurrences_doubled :
    ('@' = '@' ∨ '@' = ':') ∧ ∃ parts,
      (∀ other, IsReading '@' none "'@x' é @@a".toList other ↔ other = parts) ∧
      Replaces '@' [⟨"a", .int32 1, none⟩] parts (.ok ⟨"'@x' é @?", [.int32 1]⟩) ∧
      positional "'@x' é @?" "@" [] = .ok ⟨"'@x' é @?", []⟩ ∧
      List.Forall₂ (SlicesTo "'@x' é @@a") [(10, 11)] (names parts) := by
  have hparts : segments '@' none "'@x' é @@a".toList =
      "'@x' é @".toList.map .plain ++ [.placeholder "a"] := by decide +kernel
  have hrun : positional "'@x' é @@a" "@" [⟨"a", .int32 1, none⟩] =
      .ok ⟨"'@x' é @?", [.int32 1]⟩ := by
    refine (positional_ofList '@' _ _).trans ?_
    rw [hparts]
    rfl
  have hspans : nameSpans '@' none 0 "'@x' é @@a".toList = [(10, 11)] := by decide +kernel
  obtain ⟨parts, hreading, houtcome, hagain, hslices⟩ := positional_replaces_occurrences
    (.inl rfl) "'@x' é @@a" [⟨"a", .int32 1, none⟩]
  rw [hspans] at hslices
  exact ⟨.inl rfl, parts, hreading, (houtcome _).mpr hrun, hagain _ hrun [], hslices⟩

end Placeholder

end EntitySql
