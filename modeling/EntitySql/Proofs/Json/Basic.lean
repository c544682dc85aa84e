import EntitySql.Json.Basic
import EntitySql.Proofs.Json.Document
import EntitySql.Proofs.Json.Number

/-!
# JSON values that are read back

The text of a value is always read as the document that it was made of. From the document
the value comes back when each number is read back from its numeral and each object has
its members in the order of their keys, without repetition.
-/

namespace EntitySql.Json

/-- A number comes back from its numeral: a whole number that fits a word, and a binary number whose
numeral is read as the same number. -/
def Number.Faithful : Number → Prop
  | .whole n => -(2 ^ 63 : Nat) ≤ n ∧ n ≤ maxWord
  | .real x => ∃ n, Numeral.ofBinary? x = some n ∧ n.number? = some (.real x)

/-- Members are in the order of their keys, and no key is repeated. -/
def InOrder {α : Type} (members : List (String × α)) : Prop :=
  members.Pairwise fun a b => a.1 < b.1

mutual

/-- A value comes back from its document. -/
def Faithful : Json → Prop
  | .number n => n.Faithful
  | .array items => FaithfulItems items
  | .object members => InOrder members ∧ FaithfulMembers members
  | _ => True

/-- The items of an array come back. -/
def FaithfulItems : List Json → Prop
  | [] => True
  | x :: items => x.Faithful ∧ FaithfulItems items

/-- The members of an object come back. -/
def FaithfulMembers : List (String × Json) → Prop
  | [] => True
  | (_, x) :: members => x.Faithful ∧ FaithfulMembers members

end

mutual

/-- The document of a value has only such numerals and strings as JSON allows. -/
theorem spelled_toDocument : ∀ x : Json, (toDocument x).Spelled
  | .null | .bool _ => trivial
  | .number n => by
    rw [toDocument]
    cases hnumeral : n.numeral with
    | none => trivial
    | some k => exact Number.wellFormed_numeral hnumeral
  | .string _ => rfl
  | .array items => spelled_toItems items
  | .object members => spelled_toMembers members

/-- The documents of items are spelled. -/
theorem spelled_toItems : ∀ items : List Json, Document.SpelledItems (toItems items)
  | [] => trivial
  | x :: items => ⟨spelled_toDocument x, spelled_toItems items⟩

/-- The documents of members are spelled. -/
theorem spelled_toMembers :
    ∀ members : List (String × Json), Document.SpelledMembers (toMembers members)
  | [] => trivial
  | (_, x) :: members => ⟨rfl, spelled_toDocument x, spelled_toMembers members⟩

end

/-- The text of a value is read as its document. -/
theorem document_parse?_text (x : Json) : Document.parse? x.text = some (toDocument x) :=
  Document.parse?_render (spelled_toDocument x)

/-- A number comes back from the document of its numeral exactly when it is faithful. -/
theorem ofDocument?_number_iff (n : Number) :
    ofDocument? (toDocument (.number n)) = some (.number n) ↔ n.Faithful := by
  have hnumeral : ofDocument? (toDocument (.number n)) = some (.number n) ↔
      ∃ k, n.numeral = some k ∧ k.number? = some n := by
    rw [toDocument]
    cases n.numeral with
    | none => simp [ofDocument?]
    | some k => simp [ofDocument?]
  rw [hnumeral]
  cases n with
  | whole n => simp [Number.numeral, Number.Faithful, number?_ofInt_iff]
  | real x => rfl

section Members

variable {α : Type} {key : String} {x : α} {member : String × α} {done members : List (String × α)}

/-- A member whose key comes after all others is added at the end. -/
theorem insertMember_of_last (h : ∀ member ∈ done, member.1 < key) :
    insertMember key x done = done ++ [(key, x)] := by
  induction done with
  | nil => rfl
  | cons member done ih =>
    obtain ⟨k, y⟩ := member
    have hlt : k < key := h _ List.mem_cons_self
    have hne : key ≠ k := fun heq => String.lt_irrefl k (heq ▸ hlt)
    have hnot : ¬key < k := fun hgt => String.lt_asymm hlt hgt
    rw [insertMember, if_neg hne, if_neg hnot,
      ih fun member hmember => h member (List.mem_cons_of_mem _ hmember)]
    rfl

/-- A member after one was added is that one or was there before. -/
theorem mem_of_mem_insertMember (h : member ∈ insertMember key x done) :
    member = (key, x) ∨ member ∈ done := by
  induction done with
  | nil => exact Or.inl (List.mem_singleton.mp h)
  | cons other done ih =>
    obtain ⟨k, y⟩ := other
    rw [insertMember] at h
    split at h
    · exact (List.mem_cons.mp h).imp_right (List.mem_cons_of_mem _)
    · split at h
      · exact List.mem_cons.mp h
      · rcases List.mem_cons.mp h with rfl | h
        · exact Or.inr List.mem_cons_self
        · exact (ih h).imp_right (List.mem_cons_of_mem _)

/-- Adding a member keeps the order of the keys. -/
theorem InOrder.insertMember (key : String) (x : α) (h : InOrder done) :
    InOrder (insertMember key x done) := by
  induction done with
  | nil => exact List.pairwise_singleton _ _
  | cons member done ih =>
    obtain ⟨k, y⟩ := member
    obtain ⟨hfirst, hrest⟩ := List.pairwise_cons.mp h
    rw [Json.insertMember]
    split
    · rename_i heq
      subst heq
      exact List.pairwise_cons.mpr ⟨hfirst, hrest⟩
    · rename_i hne
      split
      · rename_i hlt
        refine List.pairwise_cons.mpr ⟨fun member hmember => ?_, h⟩
        rcases List.mem_cons.mp hmember with rfl | hmember
        · exact hlt
        · exact String.lt_trans hlt (hfirst member hmember)
      · rename_i hnot
        have hlt : k < key := by
          by_contra hge
          exact hne (String.le_antisymm hge hnot)
        refine List.pairwise_cons.mpr ⟨fun member hmember => ?_, ih hrest⟩
        rcases mem_of_mem_insertMember hmember with rfl | hmember
        · exact hlt
        · exact hfirst member hmember

/-- Members that are added one by one are brought into the order of their keys. -/
theorem InOrder.foldl_insertMember (h : InOrder done) (members : List (String × α)) :
    InOrder (members.foldl (fun done member => Json.insertMember member.1 member.2 done) done) := by
  induction members generalizing done with
  | nil => exact h
  | cons member members ih => exact ih (h.insertMember member.1 member.2)

/-- Members in the order of their keys stay as they are when they are added one by one. -/
theorem foldl_insertMember_of_inOrder (h : InOrder (done ++ members)) :
    members.foldl (fun done member => insertMember member.1 member.2 done) done =
      done ++ members := by
  induction members generalizing done with
  | nil => exact (List.append_nil done).symm
  | cons member members ih =>
    have hlast : ∀ other ∈ done, other.1 < member.1 := fun other hother =>
      (List.pairwise_append.mp h).2.2 other hother member List.mem_cons_self
    have hsplit : done ++ member :: members = done ++ [member] ++ members := by
      rw [List.append_assoc, List.singleton_append]
    rw [List.foldl_cons, insertMember_of_last hlast, ih (hsplit ▸ h), ← hsplit]

end Members

/-- An object made of members has them in the order of their keys. -/
theorem inOrder_of_ofMembers {members members' : List (String × Json)}
    (h : ofMembers members = .object members') : InOrder members' := by
  have hsorted := InOrder.foldl_insertMember (α := Json) List.Pairwise.nil members
  exact Json.object.inj h ▸ hsorted

/-- Members in the order of their keys make the object of themselves. -/
theorem ofMembers_of_inOrder {members : List (String × Json)} (h : InOrder members) :
    ofMembers members = .object members :=
  congrArg Json.object (foldl_insertMember_of_inOrder h)

/-- The values of members have the keys of the members. -/
theorem keys_of_ofMembers? {members members' : List (String × Json)}
    (h : ofMembers? (toMembers members) = some members') :
    members'.map (·.1) = members.map (·.1) := by
  induction members generalizing members' with
  | nil =>
    cases h
    rfl
  | cons member members ih =>
    obtain ⟨key, x⟩ := member
    rw [toMembers, ofMembers?, Option.bind_some] at h
    obtain ⟨y, -, h⟩ := Option.bind_eq_some_iff.mp h
    obtain ⟨rest, hrest, rfl⟩ := Option.map_eq_some_iff.mp h
    rw [List.map_cons, List.map_cons, ih hrest]

mutual

/-- A value comes back from its document exactly when it is faithful. -/
theorem ofDocument?_toDocument_iff :
    ∀ x : Json, ofDocument? (toDocument x) = some x ↔ x.Faithful
  | .null | .bool _ | .string _ => iff_of_true rfl trivial
  | .number n => ofDocument?_number_iff n
  | .array items => by
    rw [toDocument, ofDocument?, Option.map_eq_some_iff, Faithful, ← ofItems?_toItems_iff items]
    exact ⟨fun ⟨items', hitems, heq⟩ => Json.array.inj heq ▸ hitems, fun h => ⟨items, h, rfl⟩⟩
  | .object members => by
    rw [toDocument, ofDocument?, Option.map_eq_some_iff, Faithful,
      ← ofMembers?_toMembers_iff members]
    constructor
    · rintro ⟨members', hmembers, heq⟩
      have horder := inOrder_of_ofMembers heq
      have horder' : InOrder members' := by
        rw [InOrder, ← List.pairwise_map (f := Prod.fst)] at horder ⊢
        rwa [keys_of_ofMembers? hmembers]
      obtain rfl := Json.object.inj ((ofMembers_of_inOrder horder').symm.trans heq)
      exact ⟨horder, hmembers⟩
    · rintro ⟨horder, hmembers⟩
      exact ⟨members, hmembers, ofMembers_of_inOrder horder⟩

/-- Items come back from their documents exactly when they are faithful. -/
theorem ofItems?_toItems_iff :
    ∀ items : List Json, ofItems? (toItems items) = some items ↔ FaithfulItems items
  | [] => iff_of_true rfl trivial
  | x :: items => by
    rw [toItems, ofItems?, FaithfulItems, ← ofDocument?_toDocument_iff x,
      ← ofItems?_toItems_iff items]
    simp only [Option.bind_eq_some_iff, Option.map_eq_some_iff, List.cons.injEq]
    exact ⟨fun ⟨_, hx, _, hitems, hsame, hsame'⟩ => ⟨hsame ▸ hx, hsame' ▸ hitems⟩,
      fun ⟨hx, hitems⟩ => ⟨x, hx, items, hitems, rfl, rfl⟩⟩

/-- Members come back from their documents exactly when they are faithful. -/
theorem ofMembers?_toMembers_iff :
    ∀ members : List (String × Json), ofMembers? (toMembers members) = some members ↔
      FaithfulMembers members
  | [] => iff_of_true rfl trivial
  | (key, x) :: members => by
    rw [toMembers, ofMembers?, Option.bind_some, FaithfulMembers,
      ← ofDocument?_toDocument_iff x, ← ofMembers?_toMembers_iff members]
    simp only [Option.bind_eq_some_iff, Option.map_eq_some_iff, List.cons.injEq, Prod.mk.injEq,
      true_and]
    exact ⟨fun ⟨_, hx, _, hmembers, hsame, hsame'⟩ => ⟨hsame ▸ hx, hsame' ▸ hmembers⟩,
      fun ⟨hx, hmembers⟩ => ⟨x, hx, members, hmembers, rfl, rfl⟩⟩

end

/-- The text of a value spells the value exactly when the value is faithful and its brackets are not
nested deeper than a reader follows them. -/
theorem parse?_text_iff {x : Json} :
    parse? x.text = some x ↔ x.Faithful ∧ (toDocument x).depth ≤ maxDepth := by
  rw [parse?, document_parse?_text, Option.bind_some]
  split
  · rename_i hdepth
    rw [ofDocument?_toDocument_iff]
    exact ⟨fun h => ⟨h, hdepth⟩, And.left⟩
  · rename_i hdepth
    exact iff_of_false nofun fun h => hdepth h.2

end EntitySql.Json
