/-!
# Phrases

SQL text whose placeholders are still known as such. A phrase becomes text by
writing a mark in front of each parameter name.
-/

namespace EntitySql

/-- A piece of SQL: literal text, or the place of a parameter. -/
inductive Piece where
  | text (s : String)
  | slot (name : String)
  deriving DecidableEq, Repr

/-- SQL in pieces. -/
abbrev Phrase := List Piece

namespace Piece

/-- The text of a piece. -/
def render (marker : String) : Piece → String
  | .text s => s
  | .slot name => marker ++ name

/-- The parameter name of a piece. -/
def slot? : Piece → Option String
  | .text _ => none
  | .slot name => some name

end Piece

namespace Phrase

/-- The text of a phrase, with a mark in front of every parameter name. -/
def render (marker : String) (p : Phrase) : String :=
  String.join (p.map (Piece.render marker))

/-- The parameter names of a phrase from left to right. -/
def slots (p : Phrase) : List String :=
  p.filterMap Piece.slot?

/-- Several phrases with a text between each two. -/
def join (separator : String) : List Phrase → Phrase
  | [] => []
  | [p] => p
  | p :: ps => p ++ .text separator :: join separator ps

/-- The names of two phrases in a row. -/
theorem slots_append (p q : Phrase) : slots (p ++ q) = slots p ++ slots q := by
  simp [slots]

end Phrase

end EntitySql
