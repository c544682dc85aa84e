/-!
# Letter case of ASCII names

Names of members, columns and parameters are compared up to the case of the
letters `A` to `Z`; every other character stands for itself.
-/

namespace EntitySql.Text

/-- Turns the letters `A` to `Z` into small letters and keeps every other character. -/
def foldCase (s : String) : String :=
  s.map Char.toLower

/-- Two names are the same when they differ at most in the case of ASCII letters. -/
def sameName (a b : String) : Bool :=
  foldCase a == foldCase b

/-- A character that can start a parameter name. -/
def startsName (c : Char) : Bool :=
  c.isAlpha || c == '_'

/-- A character that can continue a parameter name. -/
def continuesName (c : Char) : Bool :=
  c.isAlphanum || c == '_'

/-- A name as programs write them: a letter or an underscore first, then also digits. -/
def isIdentifier (s : String) : Bool :=
  match s.toList with
  | [] => false
  | c :: cs => startsName c && cs.all continuesName

/-- Every name is the same as itself. -/
theorem sameName_refl (a : String) : sameName a a = true := by
  simp [sameName]

/-- The order of the two names does not matter. -/
theorem sameName_comm (a b : String) : sameName a b = sameName b a := by
  simp [sameName, Bool.beq_comm]

/-- Sameness of names is equality of the folded names. -/
theorem sameName_eq_true_iff {a b : String} : sameName a b = true ↔ foldCase a = foldCase b := by
  simp [sameName]

end EntitySql.Text
