import EntitySql.Entity.Mapping

/-!
# Instances

An instance of an entity type holds one value for each member of its mapping. A
member is read and written by name; of members with one name the first counts.
-/

namespace EntitySql

/-- An instance: a value for each member in the order of their declaration. -/
structure Instance where
  values : List Value
  deriving Repr

/-- The values of members by name. -/
abbrev Fields := List (String × Value)

/-- Access to one member of the instances of an entity type. -/
structure Accessor where
  member : String
  /-- The place of the member in its mapping. -/
  position : Nat
  type : ReadType
  deriving DecidableEq, Repr

namespace Accessor

/-- The value of the member. -/
def get (a : Accessor) (x : Instance) : Value :=
  (x.values[a.position]?).getD .null

/-- Writes a value into the member, if the member's type accepts it. -/
def set (a : Accessor) (x : Instance) (v : Value) : Except Fault Instance :=
  (a.type.store v).map fun w => ⟨x.values.set a.position w⟩

end Accessor

namespace Mapping

/-- The accessors of members that start at a place. -/
def accessorsFrom (position : Nat) : List Member → List Accessor
  | [] => []
  | m :: ms => ⟨m.name, position, m.type⟩ :: accessorsFrom (position + 1) ms

/-- The accessors of all members, in the order of their declaration. -/
def accessors (m : Mapping) : List Accessor :=
  accessorsFrom 0 m.members

/-- The accessor of the first member with exactly a given name. -/
def accessor? (m : Mapping) (name : String) : Option Accessor :=
  m.accessors.find? (·.member == name)

/-- The accessor of a member, or the fault that there is none. -/
def accessor (m : Mapping) (name : String) : Except Fault Accessor :=
  match m.accessor? name with
  | some a => .ok a
  | none => .error (.mapping m.entity (.unknownMember name))

/-- The instance whose members all hold what they start with. -/
def blank (m : Mapping) [start : m.Start] : Instance :=
  ⟨m.members.map start.value⟩

end Mapping

/-- A new instance of an entity type. -/
def EntityType.blank (t : EntityType) : Instance :=
  @Mapping.blank t.mapping t.start

end EntitySql
