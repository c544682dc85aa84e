import EntitySql.Binary.Shortest
import EntitySql.Decimal.Reader
import EntitySql.Value.Basic

/-!
# Serialized values

A value is stored as a JSON object whose one key names its kind, and null as the
bare string of its name, so that reading gives back the same kind.
-/

namespace EntitySql.Value

open Json (Document Numeral)

/-- The object with one member. -/
def tagged (tag : String) (d : Document) : Document :=
  .object [(some tag, d)]

/-- The document of a whole number. -/
def wholeDocument (n : Int) : Document :=
  .number (Numeral.ofInt n)

/-- The document of a binary number: null if it is not finite. -/
def binaryDocument {f : Format} (x : Binary f) : Document :=
  ((Numeral.ofBinary? x).map Document.number).getD .null

mutual

/-- The serialized form of a value. -/
def toDocument : Value → Document
  | .null => .string (some "Null")
  | .bool b => tagged "Bool" (.bool b)
  | .int32 n => tagged "I32" (wholeDocument n.toInt)
  | .int64 n => tagged "I64" (wholeDocument n.toInt)
  | .single x => tagged "F32" (binaryDocument x)
  | .double x => tagged "F64" (binaryDocument x)
  | .string s => tagged "String" (.string (some s))
  | .bytes bs => tagged "Bytes" (.array (bs.map fun b => wholeDocument b.toNat))
  | .json j => tagged "Json" j.toDocument
  | .list vs => tagged "Array" (.array (toDocuments vs))
  | .timestamp t => tagged "Timestamp" (.string (some t.isoText))
  | .decimal d => tagged "Decimal" (.string (some d.text))
  | .uuid u => tagged "Uuid" (.string (some u.text))

/-- The serialized forms of several values. -/
def toDocuments : List Value → List Document
  | [] => []
  | v :: vs => v.toDocument :: toDocuments vs

end

/-- The serialized text of a value. -/
def serialText (v : Value) : String :=
  v.toDocument.render

/-- The number of a document. -/
def numberOf? : Document → Option Json.Number
  | .number n => n.number?
  | _ => none

/-- The whole number of a document, if it lies in a range. -/
def wholeIn? (low high : Int) (d : Document) : Option Int :=
  match numberOf? d with
  | some (.whole n) => if low ≤ n ∧ n ≤ high then some n else none
  | _ => none

/-- The binary number of a document; a whole number is rounded. -/
def binaryOf? {f : Format} (d : Document) : Option (Binary f) :=
  (numberOf? d).map fun
    | .whole n => Binary.ofInt n
    | .real x => x.convert

/-- The text of a document. -/
def stringOf? : Document → Option String
  | .string s => s
  | _ => none

/-- The items of an array. -/
def arrayOf? : Document → Option (List Document)
  | .array ds => some ds
  | _ => none

/-- The decimal of a document: of its text, or of the plain text of its number. -/
def decimalOf? (d : Document) : Option Decimal :=
  match d with
  | .string (some s) => Decimal.read? s
  | d =>
    match numberOf? d with
    | some (.whole n) => Decimal.ofInt? n
    | some (.real x) => Decimal.read? x.text
    | none => none

/-- The value that a document of a kind other than a list stores. -/
def ofTagged? (tag : String) (d : Document) : Option Value :=
  match tag with
  | "Null" => match d with | .null => some .null | _ => none
  | "Bool" => match d with | .bool b => some (.bool b) | _ => none
  | "I32" =>
    (wholeIn? Int32.minValue.toInt Int32.maxValue.toInt d).map fun n => .int32 (Int32.ofInt n)
  | "I64" =>
    (wholeIn? Int64.minValue.toInt Int64.maxValue.toInt d).map fun n => .int64 (Int64.ofInt n)
  | "F32" => (binaryOf? d).map .single
  | "F64" => (binaryOf? d).map .double
  | "String" => (stringOf? d).map .string
  | "Bytes" =>
    (arrayOf? d).bind fun ds =>
      (ds.mapM (wholeIn? 0 255)).map fun ns => .bytes (ns.map fun n => UInt8.ofNat n.toNat)
  | "Json" => (Json.ofDocument? d).map .json
  | "Timestamp" => ((stringOf? d).bind Timestamp.readIso?).map .timestamp
  | "Decimal" => (decimalOf? d).map .decimal
  | "Uuid" => ((stringOf? d).bind Uuid.read?).map .uuid
  | _ => none

mutual

/-- The value that a document stores. -/
def ofDocument? : Document → Option Value
  | .string (some "Null") => some .null
  | .object [(some "Array", .array ds)] => (ofDocuments? ds).map .list
  | .object [(some tag, d)] => ofTagged? tag d
  | _ => none

/-- The values that several documents store. -/
def ofDocuments? : List Document → Option (List Value)
  | [] => some []
  | d :: ds => (ofDocument? d).bind fun v => (ofDocuments? ds).map (v :: ·)

end

/-- The value that a serialized text stores. -/
def ofSerialText? (s : String) : Option Value :=
  (Document.parse? s).bind fun d => if d.depth ≤ Json.maxDepth then ofDocument? d else none

end EntitySql.Value
