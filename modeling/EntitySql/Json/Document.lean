import EntitySql.Json.Token

/-!
# JSON documents

A document keeps what a text says: members in their order with repetitions, and
numerals as they are written. It is read from tokens by a machine that keeps the
open brackets on a stack, and written without white space.
-/

namespace EntitySql.Json

/-- A JSON document. A string or a key is `none` when it holds half a surrogate pair. -/
inductive Document where
  | null
  | bool (b : Bool)
  | number (n : Numeral)
  | string (s : Option String)
  | array (items : List Document)
  | object (members : List (Option String × Document))
  deriving Repr

/-- An open bracket, with what stands before in it, the last first. -/
inductive Frame where
  | array (done : List Document)
  | object (done : List (Option String × Document))
  | member (done : List (Option String × Document)) (key : Option String)

/-- What the next token may be. -/
inductive Stage where
  | value
  | itemOrEnd
  | keyOrEnd
  | key
  | colon (key : Option String)
  | next

/-- The state of the reading machine. -/
inductive Progress where
  | reading (stage : Stage) (frames : List Frame)
  | complete (d : Document)

/-- A finished value goes into the innermost open bracket. -/
def Progress.finish (d : Document) : List Frame → Option Progress
  | [] => some (.complete d)
  | .array done :: outer => some (.reading .next (.array (d :: done) :: outer))
  | .member done key :: outer => some (.reading .next (.object ((key, d) :: done) :: outer))
  | .object _ :: _ => none

/-- The document of a token that is a value by itself. -/
def Document.ofToken? : Token → Option Document
  | .null => some .null
  | .bool b => some (.bool b)
  | .number n => some (.number n)
  | .string s => some (.string s)
  | _ => none

/-- Reads the token at the start of a value. -/
def Progress.startValue (t : Token) (frames : List Frame) : Option Progress :=
  match t with
  | .beginArray => some (.reading .itemOrEnd (.array [] :: frames))
  | .beginObject => some (.reading .keyOrEnd (.object [] :: frames))
  | t => (Document.ofToken? t).bind fun d => Progress.finish d frames

/-- Reads one token. -/
def Progress.step (p : Progress) (t : Token) : Option Progress :=
  match p with
  | .complete _ => none
  | .reading .value frames => startValue t frames
  | .reading .itemOrEnd frames =>
    match t, frames with
    | .endArray, .array done :: outer => finish (.array done.reverse) outer
    | t, frames => startValue t frames
  | .reading .keyOrEnd frames =>
    match t, frames with
    | .endObject, .object done :: outer => finish (.object done.reverse) outer
    | .string key, frames => some (.reading (.colon key) frames)
    | _, _ => none
  | .reading .key frames =>
    match t with
    | .string key => some (.reading (.colon key) frames)
    | _ => none
  | .reading (.colon key) frames =>
    match t, frames with
    | .colon, .object done :: outer => some (.reading .value (.member done key :: outer))
    | _, _ => none
  | .reading .next frames =>
    match t, frames with
    | .comma, .array done :: outer => some (.reading .value (.array done :: outer))
    | .comma, .object done :: outer => some (.reading .key (.object done :: outer))
    | .endArray, .array done :: outer => finish (.array done.reverse) outer
    | .endObject, .object done :: outer => finish (.object done.reverse) outer
    | _, _ => none

/-- The document that a list of tokens spells, if it spells exactly one. -/
def Document.ofTokens? (ts : List Token) : Option Document :=
  match ts.foldlM Progress.step (.reading .value []) with
  | some (.complete d) => some d
  | _ => none

/-- The document that a text spells. -/
def Document.parse? (s : String) : Option Document :=
  (tokens? s.toList).bind Document.ofTokens?

mutual

/-- The tokens of a document, followed by others. -/
def Document.tokensThen (d : Document) (rest : List Token) : List Token :=
  match d with
  | .null => .null :: rest
  | .bool b => .bool b :: rest
  | .number n => .number n :: rest
  | .string s => .string s :: rest
  | .array [] => .beginArray :: .endArray :: rest
  | .array (d :: items) => .beginArray :: d.tokensThen (Document.itemTokens items rest)
  | .object [] => .beginObject :: .endObject :: rest
  | .object ((key, d) :: members) =>
    .beginObject :: .string key :: .colon :: d.tokensThen (Document.memberTokens members rest)

/-- The tokens of further items up to the closing bracket. -/
def Document.itemTokens (items : List Document) (rest : List Token) : List Token :=
  match items with
  | [] => .endArray :: rest
  | d :: items => .comma :: d.tokensThen (Document.itemTokens items rest)

/-- The tokens of further members up to the closing bracket. -/
def Document.memberTokens (members : List (Option String × Document)) (rest : List Token) :
    List Token :=
  match members with
  | [] => .endObject :: rest
  | (key, d) :: members =>
    .comma :: .string key :: .colon :: d.tokensThen (Document.memberTokens members rest)

end

/-- The tokens of a document. -/
def Document.tokens (d : Document) : List Token :=
  d.tokensThen []

/-- The text of a document, without white space. -/
def Document.render (d : Document) : String :=
  String.ofList (d.tokens.flatMap Token.chars)

mutual

/-- How deep brackets are nested in a document. -/
def Document.depth : Document → Nat
  | .array items => Document.itemsDepth items + 1
  | .object members => Document.membersDepth members + 1
  | _ => 0

/-- How deep brackets are nested in the items of an array. -/
def Document.itemsDepth : List Document → Nat
  | [] => 0
  | d :: items => max d.depth (Document.itemsDepth items)

/-- How deep brackets are nested in the members of an object. -/
def Document.membersDepth : List (Option String × Document) → Nat
  | [] => 0
  | (_, d) :: members => max d.depth (Document.membersDepth members)

end

end EntitySql.Json
