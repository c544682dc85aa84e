import EntitySql.Proofs.Text.Digits
import EntitySql.Uuid

/-!
# Identifiers that are read back

The text of an identifier is one of the forms in which identifiers are read, and spells
the identifier that it was written for.
-/

namespace EntitySql.Uuid

/-- A group of as many characters as asked for is taken up to its hyphen. -/
theorem ungroup?_append {n k : Nat} {ns : List Nat} {xs rest : List Char}
    (hlength : xs.length = n) :
    ungroup? (n :: k :: ns) (xs ++ '-' :: rest) = (ungroup? (k :: ns) rest).map (xs ++ ·) := by
  rw [ungroup?, List.drop_left' hlength, List.take_left' hlength]
  · rfl
  · exact List.cons_ne_nil k ns

/-- The last group is all of the text. -/
theorem ungroup?_singleton {n : Nat} {xs : List Char} (hlength : xs.length = n) :
    ungroup? [n] xs = some xs := by
  rw [ungroup?, if_pos hlength]

/-- The digits of an identifier. -/
def digits (u : Uuid) : List Char :=
  Text.hexDigits 32 u.bits.toNat

/-- Some digits of an identifier in a row. -/
def group (u : Uuid) (start count : Nat) : List Char :=
  (u.digits.drop start).take count

/-- Groups have as many digits as are asked for, if there are so many. -/
theorem length_group (u : Uuid) {start count : Nat} (h : start + count ≤ 32) :
    (u.group start count).length = count := by
  simp only [group, digits, List.length_take, List.length_drop, Text.length_hexDigits]
  omega

/-- A group and the digits after it. -/
theorem group_append_drop (u : Uuid) (start count : Nat) :
    u.group start count ++ u.digits.drop (start + count) = u.digits.drop start := by
  rw [group, ← List.drop_drop, List.take_append_drop]

/-- The digits of an identifier spell it. -/
theorem readDigits?_digits (u : Uuid) : readDigits? u.digits = some u := by
  have hn : u.bits.toNat < 16 ^ 32 := u.bits.isLt
  rw [readDigits?, digits, if_pos (Text.length_hexDigits _ _),
    Text.readHex?_hexDigits (by decide) hn]
  simp

/-- The characters of the text of an identifier are its digits in five groups. -/
theorem toList_text (u : Uuid) : u.text.toList = u.group 0 8 ++ '-' :: (u.group 8 4 ++ '-' ::
    (u.group 12 4 ++ '-' :: (u.group 16 4 ++ '-' :: u.group 20 12))) := by
  have hhyphen : "-".toList = ['-'] := by decide
  simp only [text, String.intercalate_cons_cons, String.intercalate_singleton,
    String.toList_append, String.toList_ofList, List.append_assoc, hhyphen, List.cons_append,
    List.nil_append, group, digits]

/-- The groups in the text of an identifier make up its digits. -/
theorem ungroup?_text (u : Uuid) : ungroup? groups u.text.toList = some u.digits := by
  have hlast : u.group 20 12 = u.digits.drop 20 := List.take_of_length_le (by simp [digits])
  rw [toList_text, groups, ungroup?_append (u.length_group (by decide)),
    ungroup?_append (u.length_group (by decide)), ungroup?_append (u.length_group (by decide)),
    ungroup?_append (u.length_group (by decide)), ungroup?_singleton (u.length_group (by decide)),
    hlast]
  simp only [Option.map_some, group_append_drop u 16 4, group_append_drop u 12 4,
    group_append_drop u 8 4, group_append_drop u 0 8, List.drop_zero]

/-- The text of an identifier spells the identifier. -/
theorem read?_text (u : Uuid) : read? u.text = some u := by
  have hlength : u.text.toList.length = 36 := by
    simp [toList_text, length_group]
  rw [read?, hlength]
  simp only [readGroups?, ungroup?_text, Option.bind_some, readDigits?_digits]

/-- There is no white space in a group. -/
theorem isBlank_of_mem_group {u : Uuid} {start count : Nat} {c : Char}
    (h : c ∈ u.group start count) :
    Text.isBlank c = false :=
  Text.isBlank_of_mem_hexDigits (List.mem_of_mem_drop (List.mem_of_mem_take h))

/-- There is no white space in the text of an identifier. -/
theorem trim_text (u : Uuid) : Text.trim u.text = u.text := by
  refine Text.trim_of_forall fun c hc => ?_
  rw [toList_text] at hc
  simp only [List.mem_append, List.mem_cons] at hc
  rcases hc with h | rfl | h | rfl | h | rfl | h | rfl | h
  all_goals first | exact isBlank_of_mem_group h | decide

end EntitySql.Uuid
