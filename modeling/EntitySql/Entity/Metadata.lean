import EntitySql.Entity.Mapping

/-!
# Metadata

A mapping that has passed validation, with the questions that statements and
readers ask of it.
-/

namespace EntitySql

/-- The mapping of an entity type after validation. -/
structure Metadata where
  entity : String
  table : String
  members : List Member
  deriving DecidableEq, Repr

namespace Metadata

/-- Checks members in the order of their declaration, given the folded names before them and
whether an auto key was among them. -/
def checkMembers (seen : List String) (hasAutoKey : Bool) : List Member → Except MappingFault Unit
  | [] => .ok ()
  | m :: ms =>
    if Text.foldCase m.name ∈ seen then .error (.repeatedMember m.name)
    else if Text.isBlankText m.column then .error (.blankColumn m.name)
    else if m.kind = .autoKey ∧ hasAutoKey then .error .secondAutoKey
    else checkMembers (Text.foldCase m.name :: seen) (hasAutoKey || m.kind == .autoKey) ms

/-- The metadata of a mapping. Its table must not be blank, the names of its members must differ,
no column may be blank, and at most one key is generated. -/
def ofMapping (m : Mapping) : Except Fault Metadata :=
  if Text.isBlankText m.table then .error (.mapping m.entity .blankTable)
  else
    match checkMembers [] false m.members with
    | .ok () => .ok ⟨m.entity, m.table, m.members⟩
    | .error cause => .error (.mapping m.entity cause)

/-- The members with a column that is written. -/
def columnMembers (d : Metadata) : List Member :=
  d.members.filter (·.kind.isPersisted)

/-- The members of the key. -/
def keyMembers (d : Metadata) : List Member :=
  d.members.filter (·.kind.isKey)

/-- The members with a column that is written and not part of the key. -/
def nonKeyMembers (d : Metadata) : List Member :=
  d.columnMembers.filter (!·.kind.isKey)

/-- The members that an insertion writes. -/
def insertableMembers (d : Metadata) : List Member :=
  d.columnMembers.filter (·.kind != .autoKey)

/-- Whether there is a key. -/
def hasKeys (d : Metadata) : Bool :=
  !d.keyMembers.isEmpty

/-- The key that the database generates. -/
def autoKey? (d : Metadata) : Option Member :=
  d.members.find? (·.kind == .autoKey)

/-- Fails for an operation that needs a key when there is none. -/
def requireKeys (d : Metadata) (operation : String) : Except Fault Unit :=
  if d.hasKeys then .ok () else .error (.keyRequired d.entity operation)

/-- The columns that a query of whole entities reads. -/
def selectFields (d : Metadata) : String :=
  ", ".intercalate (d.columnMembers.map (·.column))

/-- The member of a name: an exact match comes before one that differs in case. -/
def member? (d : Metadata) (name : String) : Option Member :=
  (d.members.find? (·.name == name)).or (d.members.find? fun m => Text.sameName m.name name)

/-- The column of the member of a name. -/
def column? (d : Metadata) (name : String) : Option String :=
  (d.member? name).map (·.column)

/-- The first member stored in a column. -/
def memberOfColumn? (d : Metadata) (column : String) : Option Member :=
  d.members.find? fun m => Text.sameName m.column column

/-- The member that a column of a result belongs to: the member of that name, or else the member
stored in that column. -/
def resolve? (d : Metadata) (column : String) : Option Member :=
  (d.member? column).or (d.memberOfColumn? column)

/-- The member of a name, or the fault of an expression that names no member. -/
def lookup (d : Metadata) (name : String) : Except Fault Member :=
  match d.member? name with
  | some m => .ok m
  | none => .error (.expression (.unknownMember name d.entity))

end Metadata

end EntitySql
