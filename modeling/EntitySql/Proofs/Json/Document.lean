import EntitySql.Json.Document
import EntitySql.Proofs.Json.Token

/-!
# Documents that are read back

The text of a document is cut into the tokens that it was made of, and from these the
reading machine builds the document again: each value goes where it was, whatever the
brackets that are open around it.
-/

namespace EntitySql.Json

/-- A list of tokens is read from the text that is made of it. -/
def ReadsBack (ts : List Token) : Prop :=
  tokens? (ts.flatMap Token.chars) = some ts

/-- A list of tokens can follow a numeral. -/
def FollowsNumeral (ts : List Token) : Prop :=
  EndsNumeral (ts.flatMap Token.chars)

/-- One more token in front is read back, too. -/
theorem ReadsBack.cons {t : Token} {ts : List Token} (ht : t.Spelled)
    (hend : ∀ n, t = .number n → FollowsNumeral ts) (h : ReadsBack ts) : ReadsBack (t :: ts) := by
  rw [ReadsBack, List.flatMap_cons, tokens?_append ht hend, h, Option.map_some]

namespace Document

mutual

/-- All numerals of a document are such as JSON allows, and all its strings and keys are texts. -/
def Spelled : Document → Prop
  | .number n => n.WellFormed
  | .string s => s.isSome
  | .array items => SpelledItems items
  | .object members => SpelledMembers members
  | _ => True

/-- The items of an array are spelled. -/
def SpelledItems : List Document → Prop
  | [] => True
  | d :: items => d.Spelled ∧ SpelledItems items

/-- The members of an object are spelled. -/
def SpelledMembers : List (Option String × Document) → Prop
  | [] => True
  | (key, d) :: members => key.isSome ∧ d.Spelled ∧ SpelledMembers members

end

/-- Neither a comma nor a closing bracket goes on with a numeral. -/
theorem followsNumeral_itemTokens (items : List Document) (rest : List Token) :
    FollowsNumeral (itemTokens items rest) := by
  intro c hc
  cases items <;> cases hc <;> decide

/-- Neither a comma nor a closing bracket goes on with a numeral. -/
theorem followsNumeral_memberTokens (members : List (Option String × Document))
    (rest : List Token) : FollowsNumeral (memberTokens members rest) := by
  intro c hc
  cases members <;> cases hc <;> decide

mutual

/-- The tokens of a document are read back in front of others that are. -/
theorem readsBack_tokensThen {rest : List Token} (hrest : ReadsBack rest)
    (hend : FollowsNumeral rest) : ∀ d : Document, d.Spelled → ReadsBack (d.tokensThen rest)
  | .null, _ | .bool b, _ => .cons trivial (by simp) hrest
  | .number n, h => .cons h (fun _ _ => hend) hrest
  | .string s, h => .cons h (by simp) hrest
  | .array [], _ => .cons trivial (by simp) (.cons trivial (by simp) hrest)
  | .array (d :: items), h =>
    .cons trivial (by simp) (readsBack_tokensThen (readsBack_itemTokens hrest items h.2)
      (followsNumeral_itemTokens items rest) d h.1)
  | .object [], _ => .cons trivial (by simp) (.cons trivial (by simp) hrest)
  | .object ((key, d) :: members), h =>
    .cons trivial (by simp) (.cons h.1 (by simp) (.cons trivial (by simp)
      (readsBack_tokensThen (readsBack_memberTokens hrest members h.2.2)
        (followsNumeral_memberTokens members rest) d h.2.1)))

/-- The tokens of further items are read back. -/
theorem readsBack_itemTokens {rest : List Token} (hrest : ReadsBack rest) :
    ∀ items : List Document, SpelledItems items → ReadsBack (itemTokens items rest)
  | [], _ => .cons trivial (by simp) hrest
  | d :: items, h =>
    .cons trivial (by simp) (readsBack_tokensThen (readsBack_itemTokens hrest items h.2)
      (followsNumeral_itemTokens items rest) d h.1)

/-- The tokens of further members are read back. -/
theorem readsBack_memberTokens {rest : List Token} (hrest : ReadsBack rest) :
    ∀ members : List (Option String × Document), SpelledMembers members →
      ReadsBack (memberTokens members rest)
  | [], _ => .cons trivial (by simp) hrest
  | (key, d) :: members, h =>
    .cons trivial (by simp) (.cons h.1 (by simp) (.cons trivial (by simp)
      (readsBack_tokensThen (readsBack_memberTokens hrest members h.2.2)
        (followsNumeral_memberTokens members rest) d h.2.1)))

end

/-- The first item of an array is read like any value. -/
theorem foldlM_itemOrEnd (d : Document) (frames : List Frame) (rest : List Token) :
    (d.tokensThen rest).foldlM Progress.step (.reading .itemOrEnd frames) =
      (d.tokensThen rest).foldlM Progress.step (.reading .value frames) := by
  cases d with
  | null | bool | number | string => rfl
  | array items => cases items <;> rfl
  | object members => cases members <;> rfl

mutual

/-- The tokens of a document are read as the document, which goes into the innermost bracket. -/
theorem foldlM_tokensThen (rest : List Token) : ∀ (d : Document) (frames : List Frame),
    (d.tokensThen rest).foldlM Progress.step (.reading .value frames) =
      (Progress.finish d frames).bind fun p => rest.foldlM Progress.step p
  | .null, _ | .bool _, _ | .number _, _ | .string _, _ | .array [], _ | .object [], _ => rfl
  | .array (d :: items), frames => by
    show ((d.tokensThen (itemTokens items rest)).foldlM Progress.step
      (.reading .itemOrEnd (.array [] :: frames))) = _
    rw [foldlM_itemOrEnd, foldlM_tokensThen (itemTokens items rest) d]
    exact foldlM_itemTokens rest items [d] frames
  | .object ((key, d) :: members), frames => by
    show ((d.tokensThen (memberTokens members rest)).foldlM Progress.step
      (.reading .value (.member [] key :: frames))) = _
    rw [foldlM_tokensThen (memberTokens members rest) d]
    exact foldlM_memberTokens rest members [(key, d)] frames

/-- The tokens of further items are read into the array that is open. -/
theorem foldlM_itemTokens (rest : List Token) : ∀ (items done : List Document)
    (outer : List Frame),
    (itemTokens items rest).foldlM Progress.step (.reading .next (.array done :: outer)) =
      (Progress.finish (.array (done.reverse ++ items)) outer).bind
        fun p => rest.foldlM Progress.step p
  | [], done, outer => by
    rw [List.append_nil]
    rfl
  | d :: items, done, outer => by
    show ((d.tokensThen (itemTokens items rest)).foldlM Progress.step
      (.reading .value (.array done :: outer))) = _
    rw [foldlM_tokensThen (itemTokens items rest) d]
    refine (foldlM_itemTokens rest items (d :: done) outer).trans ?_
    rw [List.reverse_cons, List.append_assoc, List.singleton_append]

/-- The tokens of further members are read into the object that is open. -/
theorem foldlM_memberTokens (rest : List Token) :
    ∀ (members done : List (Option String × Document)) (outer : List Frame),
    (memberTokens members rest).foldlM Progress.step (.reading .next (.object done :: outer)) =
      (Progress.finish (.object (done.reverse ++ members)) outer).bind
        fun p => rest.foldlM Progress.step p
  | [], done, outer => by
    rw [List.append_nil]
    rfl
  | (key, d) :: members, done, outer => by
    show ((d.tokensThen (memberTokens members rest)).foldlM Progress.step
      (.reading .value (.member done key :: outer))) = _
    rw [foldlM_tokensThen (memberTokens members rest) d]
    refine (foldlM_memberTokens rest members ((key, d) :: done) outer).trans ?_
    rw [List.reverse_cons, List.append_assoc, List.singleton_append]

end

/-- The tokens of a document spell the document. -/
theorem ofTokens?_tokens (d : Document) : ofTokens? d.tokens = some d := by
  rw [ofTokens?, tokens, foldlM_tokensThen [] d []]
  rfl

/-- The text of a document spells the document. -/
theorem parse?_render {d : Document} (h : d.Spelled) : parse? d.render = some d := by
  have hnothing : ReadsBack [] := by
    rw [ReadsBack, List.flatMap_nil, tokens?]
  have htokens : ReadsBack d.tokens := readsBack_tokensThen hnothing (by simp [FollowsNumeral,
    EndsNumeral]) d h
  rw [parse?, render, String.toList_ofList, htokens, Option.bind_some, ofTokens?_tokens]

end Document

end EntitySql.Json
