import EntitySql.Json.Document
import EntitySql.Json.Number

/-!
# JSON values

A value forgets how a document was written: members are in the order of their keys,
a repeated key keeps its last value, and numerals have become numbers.
-/

namespace EntitySql

/-- A JSON value. -/
inductive Json where
  | null
  | bool (b : Bool)
  | number (n : Json.Number)
  | string (s : String)
  | array (items : List Json)
  | object (members : List (String × Json))
  deriving Repr

namespace Json

/-- Adds a member to members in the order of their keys, in the place of one with the same key. -/
def insertMember {α : Type} (key : String) (x : α) : List (String × α) → List (String × α)
  | [] => [(key, x)]
  | (k, y) :: rest =>
    if key = k then (key, x) :: rest
    else if key < k then (key, x) :: (k, y) :: rest
    else (k, y) :: insertMember key x rest

/-- The object with given members, a later one taking the place of an earlier one. -/
def ofMembers (members : List (String × Json)) : Json :=
  .object (members.foldl (fun done (k, x) => insertMember k x done) [])

mutual

/-- The value of a document; nothing if a number is too great or a string is no text. -/
def ofDocument? : Document → Option Json
  | .null => some .null
  | .bool b => some (.bool b)
  | .number n => n.number?.map .number
  | .string s => s.map .string
  | .array items => (ofItems? items).map .array
  | .object members => (ofMembers? members).map ofMembers

/-- The values of the items of an array. -/
def ofItems? : List Document → Option (List Json)
  | [] => some []
  | d :: items => (ofDocument? d).bind fun x => (ofItems? items).map (x :: ·)

/-- The values of the members of an object. -/
def ofMembers? : List (Option String × Document) → Option (List (String × Json))
  | [] => some []
  | (key, d) :: members =>
    key.bind fun k => (ofDocument? d).bind fun x => (ofMembers? members).map ((k, x) :: ·)

end

mutual

/-- The document of a value. A number that is not finite has no numeral and is written as null. -/
def toDocument : Json → Document
  | .null => .null
  | .bool b => .bool b
  | .number n => (n.numeral.map Document.number).getD .null
  | .string s => .string (some s)
  | .array items => .array (toItems items)
  | .object members => .object (toMembers members)

/-- The documents of the items of an array. -/
def toItems : List Json → List Document
  | [] => []
  | x :: items => toDocument x :: toItems items

/-- The documents of the members of an object. -/
def toMembers : List (String × Json) → List (Option String × Document)
  | [] => []
  | (key, x) :: members => (some key, toDocument x) :: toMembers members

end

/-- The text of a value, without white space. -/
def text (x : Json) : String :=
  (toDocument x).render

/-- A reader follows brackets to this depth and no deeper. -/
def maxDepth : Nat := 127

/-- The value that a text spells. -/
def parse? (s : String) : Option Json :=
  (Document.parse? s).bind fun d => if d.depth ≤ maxDepth then ofDocument? d else none

/-- The value of a binary number: null if it is not finite. -/
def ofDouble (x : Double) : Json :=
  if x.isFinite then .number (.real x) else .null

/-- The value of a whole number. -/
def ofInt (n : Int) : Json := .number (.whole n)

end Json

end EntitySql
