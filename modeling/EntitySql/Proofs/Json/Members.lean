import EntitySql.Proofs.Json.Basic
import Mathlib.Data.List.Forall2

/-!
# Members of an object

An object is made of members that are added one by one, in the order of their keys. Under
a key it has the last member that was added under the key. From the text of an object its
members are read one by one as well, so under a key stands what the last of them is read
as.
-/

namespace EntitySql

/-- A member is found under its key, and otherwise what the others have. -/
theorem lookup_cons_eq_ite {α : Type} (k key : String) (x : α) (members : List (String × α)) :
    ((k, x) :: members).lookup key = if key = k then some x else members.lookup key := by
  rw [List.lookup_cons]
  by_cases hkey : key = k
  · simp [hkey]
  · simp [hkey, beq_eq_false_iff_ne.mpr hkey]

/-- The value of a key is the one that stands after no other of the key. -/
theorem lookup_eq_some_iff_split {α : Type} {key : String} {x : α} {members : List (String × α)} :
    members.lookup key = some x ↔
      ∃ before after, members = before ++ (key, x) :: after ∧ key ∉ before.map Prod.fst := by
  rw [List.lookup_eq_some_iff]
  refine exists_congr fun before => exists_congr fun after => and_congr_right fun _ => ?_
  simp only [bne_iff_ne, List.mem_map, not_exists, not_and]
  exact forall₂_congr fun member _ => ne_comm

/-- A key of members has a value. -/
theorem exists_lookup_eq_some {α : Type} {key : String} {members : List (String × α)}
    (h : key ∈ members.map Prod.fst) : ∃ x, members.lookup key = some x := by
  obtain ⟨member, hmember, rfl⟩ := List.mem_map.mp h
  exact Option.isSome_iff_exists.mp (List.lookup_isSome_iff.mpr ⟨member, hmember, BEq.rfl⟩)

/-- The value of a key is changed with all values. -/
theorem lookup_map_snd {α β : Type} (f : α → β) (members : List (String × α)) (key : String) :
    (members.map fun (k, x) => (k, f x)).lookup key = (members.lookup key).map f := by
  induction members with
  | nil => rfl
  | cons member members ih =>
    obtain ⟨k, x⟩ := member
    rw [List.map_cons, List.lookup_cons, List.lookup_cons, ih]
    cases key == k <;> rfl

namespace Json

/-- The entry of an object under a key. -/
def get? (key : String) : Json → Option Json
  | .object members => members.lookup key
  | _ => none

/-- A member that is added is found under its key, and hides no other member. -/
theorem lookup_insertMember {α : Type} (k key : String) (x : α) (done : List (String × α)) :
    (insertMember k x done).lookup key = if key = k then some x else done.lookup key := by
  induction done with
  | nil => exact lookup_cons_eq_ite k key x []
  | cons member done ih =>
    obtain ⟨k', y⟩ := member
    rw [insertMember]
    split
    · rename_i hsame
      subst hsame
      rw [lookup_cons_eq_ite, lookup_cons_eq_ite]
      by_cases hkey : key = k <;> simp [hkey]
    · rename_i hne
      split
      · exact lookup_cons_eq_ite k key x ((k', y) :: done)
      · rw [lookup_cons_eq_ite, lookup_cons_eq_ite, ih]
        by_cases hkey : key = k
        · subst hkey
          simp [hne]
        · simp [hkey]

/-- Of members that are added one by one, the last one under a key is found. -/
theorem lookup_foldl_insertMember {α : Type} (members done : List (String × α)) (key : String) :
    (members.foldl (fun done member => insertMember member.1 member.2 done) done).lookup key =
      (members.reverse.lookup key).or (done.lookup key) := by
  induction members generalizing done with
  | nil => rfl
  | cons member members ih =>
    rw [List.foldl_cons, ih, lookup_insertMember, List.reverse_cons, List.lookup_append,
      Option.or_assoc, lookup_cons_eq_ite]
    by_cases hkey : key = member.1 <;> simp [hkey]

/-- The entry of an object that is made of members is the last of them under its key. -/
theorem get?_ofMembers (members : List (String × Json)) (key : String) :
    (ofMembers members).get? key = members.reverse.lookup key :=
  (lookup_foldl_insertMember members [] key).trans (Option.or_none ..)

/-- A member was read from the document of another: it has its key, and the value that the document
has. -/
def ReadFrom (member member' : String × Json) : Prop :=
  member'.1 = member.1 ∧ ofDocument? (toDocument member.2) = some member'.2

/-- Members are read from documents one by one. -/
theorem ofMembers?_toMembers_eq_some_iff {members members' : List (String × Json)} :
    ofMembers? (toMembers members) = some members' ↔ List.Forall₂ ReadFrom members members' := by
  induction members generalizing members' with
  | nil =>
    cases members' with
    | nil => exact iff_of_true rfl .nil
    | cons => exact iff_of_false nofun nofun
  | cons member members ih =>
    obtain ⟨key, x⟩ := member
    rw [toMembers, ofMembers?, Option.bind_some, Option.bind_eq_some_iff]
    simp only [Option.map_eq_some_iff, ih]
    constructor
    · rintro ⟨y, hy, rest, hrest, rfl⟩
      exact .cons ⟨rfl, hy⟩ hrest
    · rintro (_ | ⟨⟨hkey, hy⟩, hrest⟩)
      rename_i member' rest
      obtain ⟨key', y⟩ := member'
      obtain rfl : key' = key := hkey
      exact ⟨y, hy, rest, hrest, rfl⟩

/-- What is found under a key of members is read as what is found under it of the members that were
read from them. -/
theorem lookup_of_readFrom {members members' : List (String × Json)} {key : String} {x : Json}
    (h : List.Forall₂ ReadFrom members members') (hx : members.lookup key = some x) :
    ∃ y, members'.lookup key = some y ∧ ofDocument? (toDocument x) = some y := by
  induction h with
  | nil => cases hx
  | @cons member member' members members' hread _ ih =>
    obtain ⟨k, z⟩ := member
    obtain ⟨k', z'⟩ := member'
    obtain ⟨rfl, hz⟩ : k' = k ∧ ofDocument? (toDocument z) = some z' := hread
    rw [lookup_cons_eq_ite] at hx ⊢
    by_cases hkey : key = k'
    · rw [if_pos hkey] at hx ⊢
      obtain rfl := Option.some.inj hx
      exact ⟨z', rfl, hz⟩
    · rw [if_neg hkey] at hx ⊢
      exact ih hx

/-- The documents of members are those of their values. -/
theorem toMembers_eq_map (members : List (String × Json)) :
    toMembers members = members.map fun member => (some member.1, toDocument member.2) := by
  induction members with
  | nil => rfl
  | cons member members ih => rw [toMembers, ih, List.map_cons]

/-- Members are read from documents exactly when each of them has a value that is read. -/
theorem exists_ofMembers?_toMembers_iff {members : List (String × Json)} :
    (∃ members', ofMembers? (toMembers members) = some members') ↔
      ∀ member ∈ members, ∃ x, ofDocument? (toDocument member.2) = some x := by
  induction members with
  | nil => simp [toMembers, ofMembers?]
  | cons member members ih =>
    rw [List.forall_mem_cons, ← ih]
    simp only [toMembers, ofMembers?, Option.bind_some, Option.bind_eq_some_iff,
      Option.map_eq_some_iff]
    constructor
    · rintro ⟨_, x, hx, rest, hrest, -⟩
      exact ⟨⟨x, hx⟩, rest, hrest⟩
    · rintro ⟨⟨x, hx⟩, rest, hrest⟩
      exact ⟨_, x, hx, rest, hrest, rfl⟩

/-- Items come back when each of them comes back. -/
theorem faithfulItems_iff {items : List Json} : FaithfulItems items ↔ ∀ x ∈ items, x.Faithful := by
  induction items with
  | nil => simp [FaithfulItems]
  | cons x items ih => rw [FaithfulItems, ih, List.forall_mem_cons]

/-- Items are nested as deep as the deepest of them. -/
theorem itemsDepth_toItems_le_iff {items : List Json} {n : Nat} :
    Document.itemsDepth (toItems items) ≤ n ↔ ∀ x ∈ items, (toDocument x).depth ≤ n := by
  induction items with
  | nil => simp [toItems, Document.itemsDepth]
  | cons x items ih => rw [toItems, Document.itemsDepth, Nat.max_le, ih, List.forall_mem_cons]

/-- Members are nested as deep as the deepest of them. -/
theorem membersDepth_le_iff {members : List (Option String × Document)} {n : Nat} :
    Document.membersDepth members ≤ n ↔ ∀ member ∈ members, member.2.depth ≤ n := by
  induction members with
  | nil => simp [Document.membersDepth]
  | cons member members ih =>
    rw [Document.membersDepth, Nat.max_le, ih, List.forall_mem_cons]

end Json

end EntitySql
