import EntitySql.Value.Basic

/-!
# Values as JSON

The plain JSON form of a value, for showing results: kinds that JSON lacks become
texts, bytes become numbers, and a number that is not finite becomes null.
-/

namespace EntitySql.Value

mutual

/-- The plain JSON form of a value. -/
def toJson : Value → Json
  | .null => .null
  | .bool b => .bool b
  | .int32 n => .ofInt n.toInt
  | .int64 n => .ofInt n.toInt
  | .single x => .ofDouble x.convert
  | .double x => .ofDouble x
  | .string s => .string s
  | .bytes bs => .array (bs.map fun b => .ofInt b.toNat)
  | .json j => j
  | .list vs => .array (toJsons vs)
  | .timestamp t => .string t.text
  | .decimal d => .string d.text
  | .uuid u => .string u.text

/-- The plain JSON forms of several values. -/
def toJsons : List Value → List Json
  | [] => []
  | v :: vs => v.toJson :: toJsons vs

end

end EntitySql.Value
