import EntitySql.Proofs.Query.Reading
import Mathlib.Data.List.Infix

/-!
# Searching for a text

What a pattern matches is stated here by the rules of `LIKE`, in which nothing takes the
meaning of a wildcard away. So a condition that searches a text finds the texts that this
text matches as a pattern. That is the text alone exactly when it holds no wildcard, and
otherwise no pattern at all finds the text alone.
-/

namespace EntitySql

namespace Like

variable {ps qs cs ts : List Char}

/-- Whether a character of a pattern stands for itself. -/
def isPlain (c : Char) : Bool :=
  c != '%' && c != '_'

/-- The texts that a pattern matches: one wildcard stands for any characters and the other for any
one character, and every other character stands for itself. -/
inductive Matches : List Char → List Char → Prop
  | nil : Matches [] []
  | any {ps cs : List Char} (skipped : List Char) (h : Matches ps cs) :
      Matches ('%' :: ps) (skipped ++ cs)
  | one {ps cs : List Char} (c : Char) (h : Matches ps cs) : Matches ('_' :: ps) (c :: cs)
  | same {c : Char} {ps cs : List Char} (hc : isPlain c = true) (h : Matches ps cs) :
      Matches (c :: ps) (c :: cs)

/-- The characters that stand for themselves are all but the two wildcards. -/
theorem isPlain_iff {c : Char} : isPlain c = true ↔ c ≠ '%' ∧ c ≠ '_' := by
  simp [isPlain]

/-- Two patterns in a row match what the first one and then the second one matches. -/
theorem matches_append_iff :
    Matches (ps ++ qs) cs ↔ ∃ as bs, cs = as ++ bs ∧ Matches ps as ∧ Matches qs bs := by
  constructor
  · intro h
    induction ps generalizing cs with
    | nil => exact ⟨[], cs, rfl, .nil, h⟩
    | cons p ps ih =>
      cases h with
      | any skipped h =>
        obtain ⟨as, bs, rfl, hfirst, hsecond⟩ := ih h
        exact ⟨skipped ++ as, bs, (List.append_assoc ..).symm, .any skipped hfirst, hsecond⟩
      | one c h =>
        obtain ⟨as, bs, rfl, hfirst, hsecond⟩ := ih h
        exact ⟨c :: as, bs, rfl, .one c hfirst, hsecond⟩
      | same hc h =>
        obtain ⟨as, bs, rfl, hfirst, hsecond⟩ := ih h
        exact ⟨p :: as, bs, rfl, .same hc hfirst, hsecond⟩
  · rintro ⟨as, bs, rfl, hfirst, hsecond⟩
    induction hfirst with
    | nil => exact hsecond
    | any skipped _ ih =>
      rw [List.append_assoc]
      exact .any skipped ih
    | one c _ ih => exact .one c ih
    | same hc _ ih => exact .same hc ih

/-- The wildcard for any characters matches every text. -/
theorem matches_any (cs : List Char) : Matches ['%'] cs := by
  have h := Matches.any cs .nil
  rwa [List.append_nil] at h

/-- A text matches itself. -/
theorem matches_self (ts : List Char) : Matches ts ts := by
  induction ts with
  | nil => exact .nil
  | cons c ts ih =>
    by_cases hany : c = '%'
    · subst hany
      exact .any ['%'] ih
    · by_cases hone : c = '_'
      · subst hone
        exact .one '_' ih
      · exact .same (isPlain_iff.mpr ⟨hany, hone⟩) ih

/-- A text without wildcards matches nothing else. -/
theorem Matches.eq_of_plain (h : Matches ts cs) (hplain : ∀ c ∈ ts, isPlain c = true) :
    ts = cs := by
  induction h with
  | nil => rfl
  | any => exact absurd (hplain '%' List.mem_cons_self) (by decide)
  | one => exact absurd (hplain '_' List.mem_cons_self) (by decide)
  | same _ _ ih => rw [ih fun c hc => hplain c (List.mem_cons_of_mem _ hc)]

/-- A pattern cannot ask for a wildcard: what it matches, it also matches when the wildcards of
the text are replaced. -/
theorem Matches.map {f : Char → Char} (hf : ∀ c, isPlain c = true → f c = c)
    (h : Matches ps cs) : Matches ps (cs.map f) := by
  induction h with
  | nil => exact .nil
  | any skipped _ ih =>
    rw [List.map_append]
    exact .any _ ih
  | one c _ ih => exact .one _ ih
  | same hc _ ih =>
    rw [List.map_cons, hf _ hc]
    exact .same hc ih

/-- A text with another character in the place of each wildcard. -/
def unwild (ts : List Char) : List Char :=
  ts.map fun c => if isPlain c then c else 'x'

/-- A text with a wildcard differs from the text in which it is replaced. -/
theorem unwild_ne {c : Char} (hc : c ∈ ts) (hwild : isPlain c = false) : unwild ts ≠ ts := by
  intro h
  have hmem : c ∈ unwild ts := h.symm ▸ hc
  obtain ⟨d, -, hd⟩ := List.mem_map.mp hmem
  split at hd
  · rename_i hplain
    rw [hd, hwild] at hplain
    cases hplain
  · rw [← hd] at hwild
    exact absurd hwild (by decide)

end Like

namespace Placement

variable {place : Placement} {us cs : List Char}

/-- Whether a text stands in another one at a place, every character being itself. -/
def Finds (place : Placement) (us cs : List Char) : Prop :=
  match place with
  | .contains => us <:+: cs
  | .startsWith => us <+: cs
  | .endsWith => us <:+ cs

/-- A text stands in itself at every place. -/
theorem finds_self (place : Placement) (us : List Char) : place.Finds us us := by
  cases place with
  | contains => exact List.infix_rfl
  | startsWith => exact List.prefix_rfl
  | endsWith => exact List.suffix_rfl

/-- A text as long as one that stands in it is the same text. -/
theorem Finds.eq_of_length (h : place.Finds us cs) (hlength : us.length = cs.length) : us = cs := by
  cases place with
  | contains => exact List.IsInfix.eq_of_length h hlength
  | startsWith => exact List.IsPrefix.eq_of_length h hlength
  | endsWith => exact List.IsSuffix.eq_of_length h hlength

/-- The pattern that searches a text finds all texts that this text matches as a pattern. -/
theorem matches_pattern_iff (place : Placement) (t : String) (cs : List Char) :
    Like.Matches (place.pattern t).toList cs ↔
      ∃ us, Like.Matches t.toList us ∧ place.Finds us cs := by
  have hany : ("%" : String).toList = ['%'] := rfl
  cases place with
  | contains =>
    simp only [pattern, String.toList_append, hany, Like.matches_append_iff, Like.matches_any]
    constructor
    · rintro ⟨_, after, rfl, ⟨before, us, rfl, -, hus⟩, -⟩
      exact ⟨us, hus, before, after, rfl⟩
    · rintro ⟨us, hus, before, after, rfl⟩
      exact ⟨before ++ us, after, rfl, ⟨before, us, rfl, trivial, hus⟩, trivial⟩
  | startsWith =>
    simp only [pattern, String.toList_append, hany, Like.matches_append_iff, Like.matches_any]
    constructor
    · rintro ⟨us, after, rfl, hus, -⟩
      exact ⟨us, hus, after, rfl⟩
    · rintro ⟨us, hus, after, rfl⟩
      exact ⟨us, after, rfl, hus, trivial⟩
  | endsWith =>
    simp only [pattern, String.toList_append, hany, Like.matches_append_iff, Like.matches_any]
    constructor
    · rintro ⟨before, us, rfl, -, hus⟩
      exact ⟨us, hus, before, rfl⟩
    · rintro ⟨us, hus, before, rfl⟩
      exact ⟨before, us, rfl, trivial, hus⟩

/-- A pattern that finds one text alone finds a text without wildcards. -/
theorem isPlain_of_matches_iff_finds {ps ts : List Char}
    (h : ∀ cs, Like.Matches ps cs ↔ place.Finds ts cs) : ∀ c ∈ ts, Like.isPlain c = true := by
  intro c hc
  by_contra hwild
  have hmatches : Like.Matches ps (Like.unwild ts) :=
    ((h ts).mpr (place.finds_self ts)).map fun c hc => if_pos hc
  have hfinds := ((h _).mp hmatches).eq_of_length (List.length_map _).symm
  exact Like.unwild_ne hc (by simpa using hwild) hfinds.symm

end Placement

/-- A condition that searches a text binds the pattern for it as its only parameter. -/
theorem Surroundings.runFrom_bindCondition_like {s : Surroundings} {member column : String}
    (hcolumn : s.metadata.column? member = some column) (place : Placement) (t : String)
    (b : Binder) : ∃ name taken,
    (s.bindCondition (.like member place (.string t))).runFrom b =
      (.ok (.like column name),
        ⟨taken, b.parameters ++ [⟨name, .string (place.pattern t), some .string⟩]⟩) := by
  have hlookup : s.column member = .ok column := column_eq_ok_iff.mpr hcolumn
  have hstring : s.dialect.encode (.string (place.pattern t)) = .string (place.pattern t) :=
    Dialect.encode_of_not_isBool rfl
  let name := Binder.mint b.taken (member ++ s.scope)
  have hbound : Parameter.bound s.dialect name (.string (place.pattern t)) =
      ⟨name, .string (place.pattern t), some .string⟩ := by
    rw [Parameter.bound, hstring]
    rfl
  refine ⟨name, b.taken.insert (Text.foldCase name), ?_⟩
  rw [bindCondition, hlookup, ← hbound]
  rfl

/-- A condition that searches a text, whatever was bound before it, is a `LIKE` with one parameter
more, which finds the texts that the searched text matches as a pattern. It finds the searched text
alone exactly when this holds no wildcard, and if it holds one, no pattern does. -/
theorem text_search_literal_iff {s : Surroundings} {member column : String}
    (hcolumn : s.metadata.column? member = some column) (place : Placement) (t : String)
    (b : Binder) :
    (∃ name taken, (s.bindCondition (.like member place (.string t))).runFrom b =
      (.ok (.like column name),
        ⟨taken, b.parameters ++ [⟨name, .string (place.pattern t), some .string⟩]⟩)) ∧
    (∀ cs, Like.Matches (place.pattern t).toList cs ↔
      ∃ us, Like.Matches t.toList us ∧ place.Finds us cs) ∧
    ((∀ cs, Like.Matches (place.pattern t).toList cs ↔ place.Finds t.toList cs) ↔
      ∀ c ∈ t.toList, c ≠ '%' ∧ c ≠ '_') ∧
    ((∃ c ∈ t.toList, c = '%' ∨ c = '_') →
      ∀ ps, ¬∀ cs, Like.Matches ps cs ↔ place.Finds t.toList cs) := by
  have hmatches := place.matches_pattern_iff t
  refine ⟨s.runFrom_bindCondition_like hcolumn place t b, hmatches,
    ⟨fun h c hc => ?_, fun hplain cs => ?_⟩, ?_⟩
  · exact Like.isPlain_iff.mp (Placement.isPlain_of_matches_iff_finds h c hc)
  · rw [hmatches]
    constructor
    · rintro ⟨us, hus, hfinds⟩
      rwa [hus.eq_of_plain fun c hc => Like.isPlain_iff.mpr (hplain c hc)]
    · exact fun hfinds => ⟨t.toList, Like.matches_self _, hfinds⟩
  · rintro ⟨c, hc, hwild⟩ ps h
    obtain ⟨hany, hone⟩ := Like.isPlain_iff.mp (Placement.isPlain_of_matches_iff_finds h c hc)
    exact hwild.elim hany hone

/-- Searching `50` in the ids of parts finds the ids with `50` in them, and no pattern does the same
for `50%`. -/
theorem text_search_literal_percent :
    Surroundings.parts.metadata.column? "id" = some "ID" ∧
      (∀ cs, Like.Matches (Placement.contains.pattern "50").toList cs ↔
        Placement.contains.Finds "50".toList cs) ∧
      ∀ ps, ¬∀ cs, Like.Matches ps cs ↔ Placement.contains.Finds "50%".toList cs := by
  have hcolumn : Surroundings.parts.metadata.column? "id" = some "ID" := rfl
  obtain ⟨-, -, hliteral, -⟩ := text_search_literal_iff hcolumn .contains "50" (.avoiding [])
  obtain ⟨-, -, -, hnone⟩ := text_search_literal_iff hcolumn .contains "50%" (.avoiding [])
  have hplain : ∀ c ∈ "50".toList, c ≠ '%' ∧ c ≠ '_' := by
    intro c hc
    obtain rfl | rfl : c = '5' ∨ c = '0' := by simpa using hc
    all_goals exact ⟨by decide, by decide⟩
  have hpercent : '%' ∈ "50%".toList := by simp
  exact ⟨hcolumn, hliteral.mpr hplain, hnone ⟨'%', hpercent, Or.inl rfl⟩⟩

/-- A search does not always find the searched text alone: `50%` is found in `501`. -/
theorem percent_found_without_percent :
    ¬∀ (place : Placement) (t : String) (cs : List Char),
      Like.Matches (place.pattern t).toList cs ↔ place.Finds t.toList cs := by
  intro h
  have hmatches : Like.Matches (Placement.contains.pattern "50%").toList ['5', '0', '1'] := by
    refine (Placement.contains.matches_pattern_iff _ _).mpr
      ⟨['5', '0', '1'], ?_, Placement.contains.finds_self _⟩
    exact .same (by decide) (.same (by decide) (.any ['1'] .nil))
  have hfinds : ['5', '0', '%'] <:+: ['5', '0', '1'] := (h .contains "50%" _).mp hmatches
  revert hfinds
  decide

end EntitySql
