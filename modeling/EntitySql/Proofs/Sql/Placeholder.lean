import EntitySql.Proofs.Text.Names
import EntitySql.Sql.Phrase
import EntitySql.Sql.Placeholder
import Mathlib.Data.List.Nodup

/-!
# Reading placeholders back

A phrase is clean when its texts hold neither marks nor quotes and each of its names ends
where the text after it begins. Cutting the written form of a clean phrase finds exactly
the names of the phrase, so that values by position follow the parameters in order.
-/

namespace EntitySql

/-- The character in front of a placeholder. -/
def Dialect.mark : Dialect → Char
  | .oracle => ':'
  | _ => '@'

/-- The mark of an engine is one character. -/
theorem Dialect.toList_marker (d : Dialect) : d.marker.toList = [d.mark] := by
  cases d <;> decide

/-- A character that means nothing to the reader of placeholders: no quote, no question mark and
not the mark of the engine. -/
def Dialect.isPlain (d : Dialect) (c : Char) : Bool :=
  !Placeholder.isQuote c && c != '?' && c != d.mark

/-- A text of plain characters. -/
def Dialect.IsPlainText (d : Dialect) (s : String) : Prop :=
  ∀ c ∈ s.toList, d.isPlain c = true

namespace Dialect.IsPlainText

variable {d : Dialect} {a b : String}

/-- Plain texts in a row are plain. -/
theorem append (ha : d.IsPlainText a) (hb : d.IsPlainText b) : d.IsPlainText (a ++ b) := by
  intro c hc
  rcases List.mem_append.mp (String.toList_append ▸ hc) with hc | hc
  · exact ha c hc
  · exact hb c hc

/-- Plain texts with a plain text between each two are plain. -/
theorem intercalate {separator : String} {texts : List String} (hs : d.IsPlainText separator)
    (h : ∀ a ∈ texts, d.IsPlainText a) : d.IsPlainText (separator.intercalate texts) := by
  induction texts with
  | nil => exact fun c hc => absurd hc (by simp)
  | cons a rest ih =>
    have ha := h a List.mem_cons_self
    cases rest with
    | nil => simpa using ha
    | cons b rest =>
      rw [String.intercalate_cons_cons]
      exact (ha.append hs).append (ih fun c hc => h c (List.mem_cons_of_mem a hc))

/-- A text that neither engine's mark, no quote and no question mark occurs in is plain. -/
theorem of_all (h : a.toList.all (fun c =>
    !Placeholder.isQuote c && c != '?' && c != '@' && c != ':') = true) : d.IsPlainText a := by
  intro c hc
  have hall := List.all_eq_true.mp h c hc
  simp only [Bool.and_eq_true] at hall
  obtain ⟨⟨⟨hquote, hquestion⟩, hat⟩, hcolon⟩ := hall
  cases d <;> simp [isPlain, mark, hquote, hquestion, hat, hcolon]

/-- The text of a number is plain. -/
theorem toString (n : Nat) : d.IsPlainText (toString n) := by
  intro c hc
  have hdigit := Text.isDigit_of_mem_toString hc
  have hne (other : Char) (h : other.isDigit = false) : c ≠ other := by
    rintro rfl
    rw [hdigit] at h
    cases h
  cases d <;> simp [isPlain, mark, Placeholder.isQuote, hne '\'' rfl, hne '"' rfl, hne '?' rfl,
    hne '@' rfl, hne ':' rfl]

end Dialect.IsPlainText

namespace Phrase

variable {d : Dialect} {p q : Phrase}

/-- The text of a piece before others comes first. -/
theorem render_cons (marker : String) (x : Piece) (p : Phrase) :
    render marker (x :: p) = x.render marker ++ render marker p := by
  simp [render]

/-- The texts of two phrases in a row. -/
theorem render_append (marker : String) (p q : Phrase) :
    render marker (p ++ q) = render marker p ++ render marker q := by
  simp [render]

@[simp] theorem slots_nil : slots [] = [] := rfl

@[simp] theorem slots_text (s : String) (p : Phrase) : slots (.text s :: p) = slots p := rfl

@[simp] theorem slots_slot (name : String) (p : Phrase) :
    slots (.slot name :: p) = name :: slots p := rfl

/-- Joining starts with the first two phrases and the text between them. -/
theorem join_cons_cons (separator : String) (p q : Phrase) (ps : List Phrase) :
    join separator (p :: q :: ps) = p ++ .text separator :: join separator (q :: ps) := by
  rw [join]
  simp

/-- The text of joined phrases is their texts with the separator between each two. -/
theorem render_join (marker separator : String) (ps : List Phrase) :
    (join separator ps).render marker =
      separator.intercalate (ps.map (render marker)) := by
  induction ps with
  | nil => rfl
  | cons p ps ih =>
    cases ps with
    | nil => simp [join]
    | cons q ps =>
      rw [join_cons_cons, render_append, render_cons, ih]
      simp [String.intercalate_cons_cons, Piece.render, String.append_assoc]

/-- The text of a phrase does not go on with a name. -/
def Closes (d : Dialect) (p : Phrase) : Prop :=
  ∀ c ∈ (p.render d.marker).toList.head?, Text.continuesName c = false

/-- A phrase whose texts are plain, whose parameter names are names, and in which the text after a
name does not go on with it. -/
inductive Clean (d : Dialect) : Phrase → Prop
  | nil : Clean d []
  | text {s : String} {p : Phrase} (hs : d.IsPlainText s) (hp : Clean d p) : Clean d (.text s :: p)
  | slot {name : String} {p : Phrase} (hname : Text.isIdentifier name = true) (hend : p.Closes d)
      (hp : Clean d p) : Clean d (.slot name :: p)

/-- Nothing does not go on with a name. -/
theorem closes_nil : Closes d [] := by
  simp [Closes, render]

/-- Text that starts with a character of no name does not go on with a name. -/
theorem closes_text {s : String} {c : Char} {cs : List Char} (hs : s.toList = c :: cs)
    (hc : Text.continuesName c = false) (p : Phrase) : Closes d (.text s :: p) := by
  simp [Closes, render_cons, Piece.render, hs, hc]

/-- Of two phrases in a row, neither goes on with a name. -/
theorem Closes.append (hp : p.Closes d) (hq : q.Closes d) : (p ++ q).Closes d := by
  intro c hc
  rw [render_append, String.toList_append, List.head?_append] at hc
  rcases Option.or_eq_some_iff.mp hc with hc | ⟨_, hc⟩
  · exact hp c hc
  · exact hq c hc

/-- A clean phrase stays clean with one after it that does not go on with a name. -/
theorem Clean.append (hp : p.Clean d) (hq : q.Clean d) (hend : q.Closes d) : (p ++ q).Clean d := by
  induction hp with
  | nil => exact hq
  | text hs _ ih => exact .text hs ih
  | slot hname hclose _ ih => exact .slot hname (hclose.append hend) ih

/-- A single name is clean. -/
theorem clean_slot {name : String} (hname : Text.isIdentifier name = true) :
    Clean d [.slot name] :=
  .slot hname closes_nil .nil

/-- Clean phrases are clean with a text between each two that no name goes on with. -/
theorem clean_join {separator : String} {c : Char} {cs : List Char} {ps : List Phrase}
    (hplain : d.IsPlainText separator) (hs : separator.toList = c :: cs)
    (hc : Text.continuesName c = false) (h : ∀ p ∈ ps, p.Clean d) :
    (join separator ps).Clean d := by
  induction ps with
  | nil => exact .nil
  | cons p rest ih =>
    have hp := h p List.mem_cons_self
    have hrest := ih fun q hq => h q (List.mem_cons_of_mem p hq)
    cases rest with
    | nil => exact hp
    | cons q rest =>
      rw [join_cons_cons]
      exact hp.append (.text hplain hrest) (closes_text hs hc _)

/-- The names of joined phrases are those of all phrases in order. -/
theorem slots_join (separator : String) (ps : List Phrase) :
    slots (join separator ps) = ps.flatMap slots := by
  induction ps with
  | nil => rfl
  | cons p rest ih =>
    cases rest with
    | nil => simp [join]
    | cons q rest =>
      rw [join_cons_cons, slots_append, slots_text, ih]
      rfl

/-- The names of a list of placeholders. -/
theorem slots_join_slots (separator : String) (names : List String) :
    slots (join separator (names.map fun name => [.slot name])) = names := by
  rw [slots_join, List.flatMap_map]
  exact List.flatMap_singleton' names

/-- A list of placeholders is clean. -/
theorem clean_join_slots {separator : String} {c : Char} {cs : List Char} {names : List String}
    (hplain : d.IsPlainText separator) (hs : separator.toList = c :: cs)
    (hc : Text.continuesName c = false) (h : ∀ name ∈ names, Text.isIdentifier name = true) :
    (join separator (names.map fun name => [.slot name])).Clean d := by
  refine clean_join hplain hs hc fun p hp => ?_
  obtain ⟨name, hname, rfl⟩ := List.mem_map.mp hp
  exact clean_slot (h name hname)

/-- The parts of a piece: its characters, or a placeholder. -/
def pieceSegments : Piece → List Segment
  | .text s => s.toList.map .plain
  | .slot name => [.placeholder name]

/-- The text of a piece, with a question mark for a placeholder. -/
def pieceQuestioned : Piece → String
  | .text s => s
  | .slot _ => "?"

/-- The text of a phrase, with a question mark for each placeholder. -/
def questioned (p : Phrase) : String :=
  String.join (p.map pieceQuestioned)

/-- Plain characters outside of quotes are parts by themselves. -/
theorem segments_append_of_plain {cs : List Char} (h : ∀ c ∈ cs, d.isPlain c = true)
    (rest : List Char) :
    Placeholder.segments d.mark none (cs ++ rest) =
      cs.map .plain ++ Placeholder.segments d.mark none rest := by
  induction cs with
  | nil => rfl
  | cons c cs ih =>
    have hc := h c List.mem_cons_self
    simp only [Dialect.isPlain, Bool.and_eq_true, bne_iff_ne, Bool.not_eq_true'] at hc
    rw [List.cons_append, Placeholder.segments]
    simp [hc.1.1, hc.2, ih fun c' hc' => h c' (List.mem_cons_of_mem c hc')]

/-- A mark and a name are a placeholder when the text after them does not go on with the name. -/
theorem segments_append_of_isIdentifier {name : String} (hname : Text.isIdentifier name = true)
    {rest : List Char} (hend : ∀ c ∈ rest.head?, Text.continuesName c = false) :
    Placeholder.segments d.mark none (d.mark :: (name.toList ++ rest)) =
      .placeholder name :: Placeholder.segments d.mark none rest := by
  have hquote : Placeholder.isQuote d.mark = false := by cases d <;> decide
  obtain ⟨c, cs, hcs, hc, -⟩ := Text.isIdentifier_iff.mp hname
  have hstart : (name.toList ++ rest).head?.any Text.startsName = true := by simp [hcs, hc]
  have hall : ∀ c ∈ name.toList, Text.continuesName c = true :=
    fun c hc => Text.continuesName_of_mem hname hc
  obtain ⟨htake, hdrop⟩ := Text.span_continuesName hall hend
  rw [Placeholder.segments, htake, hdrop, String.ofList_toList]
  simp only [hquote, hstart, Bool.false_eq_true, if_false, and_self, if_true]

/-- Cutting the text of a clean phrase gives the parts of its pieces. -/
theorem Clean.segments_render (h : p.Clean d) :
    Placeholder.segments d.mark none (p.render d.marker).toList = p.flatMap pieceSegments := by
  induction h with
  | nil => simp [render, Placeholder.segments]
  | @text s p hs _ ih =>
    rw [render_cons, Piece.render, String.toList_append, segments_append_of_plain hs, ih]
    rfl
  | @slot name p hname hend _ ih =>
    rw [render_cons, Piece.render, String.toList_append, String.toList_append,
      Dialect.toList_marker, List.cons_append, List.nil_append, List.cons_append,
      segments_append_of_isIdentifier hname hend, ih]
    rfl

/-- Writing question marks for the placeholders among the parts of a phrase. -/
theorem map_char_segments (p : Phrase) :
    String.ofList ((p.flatMap pieceSegments).map Segment.char) = p.questioned := by
  apply String.toList_inj.mp
  rw [String.toList_ofList, questioned, String.toList_join, List.map_flatMap, List.flatMap_map]
  refine List.flatMap_congr fun x _ => ?_
  cases x with
  | text s => simp [pieceSegments, pieceQuestioned, Segment.char, Function.comp_def]
  | slot name => simp [pieceSegments, pieceQuestioned, Segment.char]

/-- In a clean phrase, question marks stand for placeholders only. -/
theorem Clean.count_questioned (h : p.Clean d) :
    p.questioned.toList.count '?' = p.slots.length := by
  induction h with
  | nil => rfl
  | @text s p hs _ ih =>
    have hnone : s.toList.count '?' = 0 := by
      refine List.count_eq_zero.mpr fun hmem => ?_
      have hplain := hs _ hmem
      simp [Dialect.isPlain] at hplain
    simpa [questioned, pieceQuestioned, hnone] using ih
  | @slot name p _ _ _ ih => simpa [questioned, pieceQuestioned] using ih

end Phrase

namespace Placeholder

variable {d : Dialect} {ps : List Parameter}

/-- Of parameters with distinct names, each is found by its name. -/
theorem find?_of_nodup (h : (ps.map (·.name)).Nodup) {p : Parameter} (hp : p ∈ ps) :
    find? ps p.name = some p := by
  induction ps with
  | nil => simp at hp
  | cons q ps ih =>
    obtain ⟨hq, hps⟩ := List.nodup_cons.mp h
    unfold find? at ih ⊢
    rcases List.mem_cons.mp hp with rfl | hp
    · exact List.find?_cons_of_pos (by simp)
    · have hne : q.name ≠ p.name := by
        intro heq
        exact hq (List.mem_map.mpr ⟨p, hp, heq.symm⟩)
      rw [List.find?_cons_of_neg (by simpa using hne)]
      exact ih hps hp

/-- Parts that mention parameters in a given order have the values of those in that order. -/
theorem valuesOf_segments {p : Phrase} {qs : List Parameter} (hqs : p.slots = qs.map (·.name))
    (hfind : ∀ q ∈ qs, find? ps q.name = some q) (mark : Char) :
    valuesOf mark ps (p.flatMap Phrase.pieceSegments) = .ok (qs.map (·.value)) := by
  have hplain (cs : List Char) (rest : List Segment) :
      valuesOf mark ps (cs.map .plain ++ rest) = valuesOf mark ps rest := by
    induction cs with
    | nil => rfl
    | cons c cs ih => exact ih
  induction p generalizing qs with
  | nil =>
    obtain rfl := List.map_eq_nil_iff.mp hqs.symm
    rfl
  | cons x p ih =>
    cases x with
    | text s =>
      rw [List.flatMap_cons, Phrase.pieceSegments, hplain]
      exact ih hqs hfind
    | slot name =>
      cases qs with
      | nil => cases hqs
      | cons q qs =>
        rw [Phrase.slots_slot, List.map_cons] at hqs
        obtain ⟨rfl, htail⟩ := List.cons.inj hqs
        have hrest := ih htail fun q' hq' => hfind q' (List.mem_cons_of_mem q hq')
        rw [List.flatMap_cons, Phrase.pieceSegments, List.cons_append, List.nil_append, valuesOf,
          hfind q List.mem_cons_self, hrest]
        rfl

/-- The text of a clean phrase, with parameters of distinct names that are its names in order, has
a question mark for each of them and the values of all of them in order. -/
theorem positional_render {p : Phrase} (hp : p.Clean d) (hnames : (ps.map (·.name)).Nodup)
    (hslots : p.slots = ps.map (·.name)) :
    positional (p.render d.marker) d.marker ps = .ok ⟨p.questioned, ps.map (·.value)⟩ := by
  have hvalues := valuesOf_segments hslots (fun q hq => find?_of_nodup hnames hq) d.mark
  unfold positional
  rw [d.toList_marker]
  simp only [List.head?_cons, hp.segments_render, hvalues, Phrase.map_char_segments]
  rfl

end Placeholder

end EntitySql
