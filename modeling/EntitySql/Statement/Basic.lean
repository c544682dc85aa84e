import EntitySql.Entity.Catalog
import EntitySql.Query.Binding

/-!
# Statements

A statement is a text and the parameters that it refers to. It is first drafted as a
phrase, in which every placeholder is known, and then written for an engine.
-/

namespace EntitySql

/-- The text of a statement, and its parameters. -/
structure Statement where
  text : String
  parameters : List Parameter
  deriving Repr

/-- A statement whose placeholders are still known as such. -/
structure Draft where
  phrase : Phrase
  parameters : List Parameter
  deriving Repr

/-- A member and the value that an instance has in it. -/
abbrev Field := Member × Value

namespace Draft

/-- The statement of a draft, written for an engine. -/
def statement (d : Dialect) (x : Draft) : Statement :=
  ⟨x.phrase.render d.marker, x.parameters⟩

/-- A draft with text after it. -/
def thenText (x : Draft) (s : String) : Draft :=
  { x with phrase := x.phrase ++ [.text s] }

/-- Several drafts in one, with a text between each two. -/
def join (separator : String) (xs : List Draft) : Draft :=
  ⟨Phrase.join separator (xs.map (·.phrase)), xs.flatMap (·.parameters)⟩

/-- A draft restricted to the rows of a condition. The parameters of the condition take no name of
the parameters before them. -/
def filtered (d : Dialect) (m : Metadata) (x : Draft) (c : Condition) : Except Fault Draft :=
  let s : Surroundings := ⟨m, d, ""⟩
  match (s.bindCondition c).runFrom (Binder.avoiding (x.parameters.map (·.name))) with
  | (.error e, _) => .error e
  | (.ok bound, b) =>
    .ok ⟨x.phrase ++ .text " WHERE " :: bound.phrase, x.parameters ++ b.parameters⟩

/-- A draft restricted to the rows of a condition, if there is one. -/
def filteredBy (d : Dialect) (m : Metadata) (x : Draft) : Option Condition → Except Fault Draft
  | none => .ok x
  | some c => x.filtered d m c

end Draft

namespace Field

/-- The name of the parameter for a field. -/
def parameterName (suffix : String) (f : Field) : String :=
  f.1.name ++ suffix

/-- The parameter for a field. -/
def parameter (d : Dialect) (suffix : String) (f : Field) : Parameter :=
  Parameter.bound d (parameterName suffix f) f.2

/-- The assignment of a field to its column. -/
def assignment (suffix : String) (f : Field) : Phrase :=
  [.text (f.1.column ++ "="), .slot (parameterName suffix f)]

/-- The fields that have a value. -/
def present (fs : List Field) : List Field :=
  fs.filter (!·.2.isNull)

/-- The names of the parameters for fields. -/
theorem names_parameters (d : Dialect) (suffix : String) (fs : List Field) :
    (fs.map (parameter d suffix)).map (·.name) = fs.map (parameterName suffix) := by
  simp [parameter, Parameter.bound]

end Field

/-- The assignments that locate the row of an instance; every key must have a value. -/
def keyClause (d : Dialect) (m : Metadata) (suffix : String) (keys : List Field) :
    Except Fault Draft :=
  match keys.find? (·.2.isNull) with
  | some f => .error (.mapping m.entity (.keyWithoutValue f.1.name))
  | none =>
    .ok ⟨Phrase.join " AND " (keys.map (Field.assignment suffix)),
      keys.map (Field.parameter d suffix)⟩

/-- The first `size` items, the next `size` items and so on; a size of zero counts as one. -/
def chunks {α : Type} (size : Nat) (items : List α) : List (List α) :=
  if items.isEmpty then []
  else items.take (max size 1) :: chunks size (items.drop (max size 1))
termination_by items.length
decreasing_by
  rename_i h
  have : 0 < items.length := List.length_pos_iff.2 (by simpa using h)
  rw [List.length_drop]
  omega

/-- What is written after the names of the parameters of the item at a place in a batch. -/
def batchSuffix (index : Nat) : String :=
  "_" ++ toString index

/-- One statement for each chunk of a batch; the parameters of an item carry its place in the whole
batch. -/
def batch {α : Type} (d : Dialect) (size : Nat) (draft : String → α → Except Fault Draft)
    (items : List α) : Except Fault (List Statement) :=
  (chunks size items.zipIdx).mapM fun chunk => do
    let drafts ← chunk.mapM fun (x, i) => draft (batchSuffix i) x
    return (Draft.join d.terminator drafts).statement d

namespace EntityType

/-- Members with the accessors that read them. -/
def fieldAccessors (t : EntityType) (ms : List Member) : CatalogM (List (Member × Accessor)) :=
  ms.mapM fun m => do return (m, ← t.accessor m.name)

end EntityType

/-- The fields of an instance. -/
def readFields (accessors : List (Member × Accessor)) (x : Instance) : List Field :=
  accessors.map fun (m, a) => (m, a.get x)

/-- The condition of an operation that does not run without one. -/
def requireCondition (m : Metadata) (operation : String) :
    Option Condition → Except Fault Condition
  | some c => .ok c
  | none => .error (.conditionRequired m.entity operation)

end EntitySql
