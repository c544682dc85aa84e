import EntitySql.Scalar

/-!
# Mappings

How an entity type is laid out in a table: its members in the order of their
declaration, each with a column, a part in persistence and a type. Beside its mapping
an entity type says what its members hold in a new instance.
-/

namespace EntitySql

/-- The part that a member takes in persistence. -/
inductive MemberKind where
  /-- A plain column. -/
  | column
  /-- A key that the application chooses. -/
  | key
  /-- A key that the database generates. -/
  | autoKey
  /-- Read from results and never written. -/
  | computed
  deriving DecidableEq, Repr

namespace MemberKind

/-- Whether a member belongs to the key. -/
def isKey : MemberKind → Bool
  | .key => true
  | .autoKey => true
  | _ => false

/-- Whether a member has a column that is written. -/
def isPersisted : MemberKind → Bool
  | .computed => false
  | _ => true

/-- The name of a kind. -/
def name : MemberKind → String
  | .column => "Column"
  | .key => "Key"
  | .autoKey => "AutoKey"
  | .computed => "Computed"

/-- Every key is persisted. -/
theorem isPersisted_of_isKey {k : MemberKind} (h : k.isKey = true) : k.isPersisted = true := by
  cases k <;> simp_all [isKey, isPersisted]

end MemberKind

/-- A member of an entity type. -/
structure Member where
  name : String
  column : String
  kind : MemberKind
  type : ReadType
  deriving DecidableEq, Repr

/-- A table and the members that are stored in it. -/
structure Mapping where
  /-- The name of the entity type in messages. -/
  entity : String
  table : String
  members : List Member
  deriving DecidableEq, Repr

/-- What the members of a mapping hold in a new instance. -/
class Mapping.Start (m : Mapping) where
  value : Member → Value

/-- Where nothing else is said, members start with the first values of their types. -/
instance Mapping.startOfTypes (m : Mapping) : m.Start where
  value f := f.type.initial

/-- An entity type: what tells it from others, its mapping, and how its instances start. -/
structure EntityType where
  id : String
  mapping : Mapping
  [start : mapping.Start]

namespace EntityType

/-- The name of an entity type in messages. -/
def name (t : EntityType) : String := t.mapping.entity

/-- What a member holds in a new instance. -/
def initial (t : EntityType) (f : Member) : Value := t.start.value f

end EntityType

end EntitySql
