import EntitySql.Entity.Instance
import EntitySql.Entity.Metadata

/-!
# The catalog

A catalog remembers the metadata and the accessors that it has handed out. Each
remembered item has a number of its own, so that one can tell whether two answers
are the same item. Instances are built from values by name, and read back, through
the accessors of the catalog.
-/

namespace EntitySql

/-- A remembered item. -/
structure Entry (α : Type) where
  /-- The number of the item. -/
  serial : Nat
  item : α
  deriving Repr

/-- The key of an accessor: an entity type and the exact name of a member. -/
structure AccessorKey where
  type : String
  member : String
  deriving DecidableEq, Repr

/-- The metadata and the accessors handed out so far. -/
structure Catalog where
  entities : List (String × Entry Metadata)
  accessors : List (AccessorKey × Entry Accessor)
  /-- The number of the next item. -/
  next : Nat
  deriving Repr

/-- A computation that may add to a catalog, also when it fails. -/
abbrev CatalogM := ExceptT Fault (StateM Catalog)

/-- Runs a computation from a catalog and gives the result and the catalog after it. -/
def CatalogM.runFrom {α : Type} (c : Catalog) (x : CatalogM α) : Except Fault α × Catalog :=
  x.run.run c

namespace Catalog

/-- The catalog that has handed out nothing. -/
def empty : Catalog := ⟨[], [], 0⟩

/-- The remembered metadata of an entity type. -/
def entity? (c : Catalog) (id : String) : Option (Entry Metadata) :=
  c.entities.lookup id

/-- The remembered accessor of a key. -/
def accessor? (c : Catalog) (key : AccessorKey) : Option (Entry Accessor) :=
  c.accessors.lookup key

/-- Remembers the metadata of an entity type. -/
def addEntity (c : Catalog) (id : String) (d : Metadata) : Catalog :=
  { c with entities := c.entities ++ [(id, ⟨c.next, d⟩)], next := c.next + 1 }

/-- Remembers an accessor unless one is remembered for its key. -/
def addAccessor (id : String) (c : Catalog) (a : Accessor) : Catalog :=
  let key : AccessorKey := ⟨id, a.member⟩
  match c.accessor? key with
  | some _ => c
  | none => { c with accessors := c.accessors ++ [(key, ⟨c.next, a⟩)], next := c.next + 1 }

/-- Remembers the accessors of all members of an entity type. -/
def addAccessors (c : Catalog) (t : EntityType) : Catalog :=
  t.mapping.accessors.foldl (addAccessor t.id) c

end Catalog

namespace EntityType

/-- The metadata of an entity type, with the number of the remembered item. Only valid metadata is
remembered. -/
def metadataEntry (t : EntityType) : CatalogM (Entry Metadata) := do
  match (← get).entity? t.id with
  | some e => pure e
  | none =>
    let d ← Metadata.ofMapping t.mapping
    let serial := (← get).next
    modify fun c => c.addEntity t.id d
    pure ⟨serial, d⟩

/-- The metadata of an entity type. -/
def metadata (t : EntityType) : CatalogM Metadata := do
  return (← t.metadataEntry).item

/-- The accessor of a member, with the number of the remembered item. The first time that a name is
not remembered, the accessors of all members of the type are remembered. -/
def accessorEntry (t : EntityType) (member : String) : CatalogM (Entry Accessor) := do
  match (← get).accessor? ⟨t.id, member⟩ with
  | some e => pure e
  | none =>
    modify fun c => c.addAccessors t
    match (← get).accessor? ⟨t.id, member⟩ with
    | some e => pure e
    | none => throw (.mapping t.name (.unknownMember member))

/-- The accessor of a member. -/
def accessor (t : EntityType) (member : String) : CatalogM Accessor := do
  return (← t.accessorEntry member).item

/-- The accessors of several members, up to the first that is missing. -/
def accessors (t : EntityType) (members : List String) : CatalogM (List Accessor) :=
  members.mapM t.accessor

/-- Writes values into members one after the other, each through the accessor of its member. -/
def assign (t : EntityType) (x : Instance) : Fields → CatalogM Instance
  | [] => return x
  | (member, v) :: rest => do
    let a ← t.accessor member
    t.assign (← a.set x v) rest

/-- The new instance with given values in some of its members. -/
def instantiate (t : EntityType) (values : Fields) : CatalogM Instance :=
  t.assign t.blank values

/-- The values of all members by name, in the order of their declaration, each through the accessor
of its member. -/
def dump (t : EntityType) (x : Instance) : CatalogM Fields :=
  t.mapping.members.mapM fun m => do return (m.name, (← t.accessor m.name).get x)

end EntityType

end EntitySql
