import EntitySql.Sql.Parameter
import EntitySql.Text.Letters

/-!
# Placeholders by position

Some engines take parameters by position only. A text with named placeholders is cut
into placeholders and plain characters; placeholders become question marks, and the
values follow in the order of their places. Quoted text holds no placeholders.
-/

namespace EntitySql

/-- A part of a text: a character as it is, or a placeholder. -/
inductive Segment where
  | plain (c : Char)
  | placeholder (name : String)
  deriving DecidableEq, Repr

/-- The character of a part when placeholders are written as question marks. -/
def Segment.char : Segment → Char
  | .plain c => c
  | .placeholder _ => '?'

namespace Placeholder

/-- Whether a character opens or closes a quotation. -/
def isQuote (c : Char) : Bool :=
  c == '\'' || c == '"'

/-- The parts of a text, given the quote that the text begins inside of. A placeholder is a mark
followed by the longest name that can be read there. -/
def segments (marker : Char) (quote : Option Char) (cs : List Char) : List Segment :=
  match cs with
  | [] => []
  | c :: rest =>
    match quote with
    | some q => .plain c :: segments marker (if c = q then none else some q) rest
    | none =>
      if isQuote c then .plain c :: segments marker (some c) rest
      else if c = marker ∧ rest.head?.any Text.startsName then
        .placeholder (String.ofList (rest.takeWhile Text.continuesName)) ::
          segments marker none (rest.dropWhile Text.continuesName)
      else .plain c :: segments marker none rest
termination_by cs.length
decreasing_by
  all_goals simp only [List.length_cons]
  all_goals first
    | omega
    | exact Nat.lt_succ_of_le (List.dropWhile_suffix _).length_le

/-- A text with question marks and the values for them. -/
structure Positional where
  text : String
  values : List Value
  deriving Repr

/-- The first parameter of a name. -/
def find? (parameters : List Parameter) (name : String) : Option Parameter :=
  parameters.find? (·.name == name)

/-- The values of the placeholders of a text, or the message for the first that has none. -/
def valuesOf (marker : Char) (parameters : List Parameter) :
    List Segment → Except String (List Value)
  | [] => .ok []
  | .plain _ :: rest => valuesOf marker parameters rest
  | .placeholder name :: rest =>
    match find? parameters name with
    | some p => (valuesOf marker parameters rest).map (p.value :: ·)
    | none =>
      .error ("no value supplied for parameter '" ++ String.ofList [marker] ++ name ++ "'")

/-- Replaces the placeholders of a text by question marks. Without a mark there are no placeholders
and all values are taken. -/
def positional (text marker : String) (parameters : List Parameter) : Except String Positional :=
  match marker.toList.head? with
  | none => .ok ⟨text, parameters.map (·.value)⟩
  | some m =>
    let parts := segments m none text.toList
    (valuesOf m parameters parts).map fun values => ⟨String.ofList (parts.map Segment.char), values⟩

end Placeholder

end EntitySql
