import EntitySql.Text.Digits

/-!
# Universally unique identifiers

128 bits, written as groups of 8, 4, 4, 4 and 12 hexadecimal digits.
-/

namespace EntitySql

/-- An identifier of 128 bits. -/
structure Uuid where
  bits : BitVec 128
  deriving DecidableEq, Repr

namespace Uuid

/-- The identifier without a set bit. -/
def nil : Uuid := ⟨0⟩

instance : Inhabited Uuid := ⟨nil⟩

/-- The lengths of the groups of digits. -/
def groups : List Nat := [8, 4, 4, 4, 12]

/-- The 32 digits in groups with hyphens between them. -/
def text (u : Uuid) : String :=
  let digits := Text.hexDigits 32 u.bits.toNat
  let part (start count : Nat) : String := String.ofList ((digits.drop start).take count)
  "-".intercalate [part 0 8, part 8 4, part 12 4, part 16 4, part 20 12]

/-- The identifier of 32 hexadecimal digits. -/
def readDigits? (cs : List Char) : Option Uuid :=
  if cs.length = 32 then (Text.readHex? cs).map fun n => ⟨BitVec.ofNat 128 n⟩ else none

/-- Takes groups of characters with hyphens between them, and nothing after the last. -/
def ungroup? : List Nat → List Char → Option (List Char)
  | [], _ => none
  | [n], cs => if cs.length = n then some cs else none
  | n :: ns, cs =>
    match cs.drop n with
    | '-' :: rest => (ungroup? ns rest).map (cs.take n ++ ·)
    | _ => none

/-- The identifier of five groups of digits. -/
def readGroups? (cs : List Char) : Option Uuid :=
  (ungroup? groups cs).bind readDigits?

/-- The part of a text after a fixed beginning in small letters; the text may use either case. -/
def dropStart? : List Char → List Char → Option (List Char)
  | [], cs => some cs
  | s :: start, c :: cs => if s = c.toLower then dropStart? start cs else none
  | _ :: _, [] => none

/-- The identifier that a text spells: its digits alone, in groups, in groups between braces, or in
groups after `urn:uuid:` in either case. -/
def read? (s : String) : Option Uuid :=
  let cs := s.toList
  match cs.length with
  | 32 => readDigits? cs
  | 36 => readGroups? cs
  | 38 =>
    match cs with
    | '\x7b' :: rest => if rest.getLast? = some '\x7d' then readGroups? rest.dropLast else none
    | _ => none
  | 45 => (dropStart? "urn:uuid:".toList cs).bind readGroups?
  | _ => none

/-- The identifier of 16 bytes, the first weighing most. -/
def ofBytes? (bytes : List UInt8) : Option Uuid :=
  if bytes.length = 16 then
    some ⟨BitVec.ofNat 128 (bytes.foldl (fun n b => 256 * n + b.toNat) 0)⟩
  else none

end Uuid

end EntitySql
