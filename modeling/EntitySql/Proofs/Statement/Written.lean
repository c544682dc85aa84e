import EntitySql.Proofs.Result.Columns
import EntitySql.Proofs.Sql.Placeholder
import EntitySql.Proofs.Statement.Located

/-!
# Written fields

Each operation that writes has its own choice among the fields of an instance. What it
builds lists the columns of exactly these fields, in the order of their declaration, and
beside each column the placeholder of the parameter that holds the value of the same
field. Where the choice leaves nothing, nothing is built.
-/

namespace EntitySql

namespace Field

/-- What is written for the value of a field: its placeholder, or null. -/
def target (d : Dialect) (suffix : String) (f : Field) : String :=
  if f.2.isNull then "NULL" else d.marker ++ f.parameterName suffix

end Field

namespace Statement

/-- The insertion of fields, with a text after it: the columns in one list, the placeholders for
their values in another, and the parameters in the same order. -/
def inserting (d : Dialect) (m : Metadata) (suffix : String) (fs : List Field) (tail : String) :
    Statement :=
  ⟨"INSERT INTO " ++ m.table ++ " (" ++ ", ".intercalate (fs.map (·.1.column)) ++ ") VALUES (" ++
      ", ".intercalate (fs.map (Field.target d suffix)) ++ ")" ++ tail,
    fs.map (Field.parameter d suffix)⟩

/-- The update by fields of the rows of a condition: each column with what is written for its
value, and the parameters of fields with a value in the same order. -/
def assigning (d : Dialect) (m : Metadata) (suffix : String) (fs : List Field) (condition : String)
    (ps : List Parameter) : Statement :=
  ⟨"UPDATE " ++ m.table ++ " SET " ++
      ", ".intercalate (fs.map fun f => f.1.column ++ "=" ++ f.target d suffix) ++
      " WHERE " ++ condition,
    (Field.present fs).map (Field.parameter d suffix) ++ ps⟩

end Statement

/-- The statement of a row operation writes certain fields, of which there are some. -/
def RowOperation.Writes (d : Dialect) (m : Metadata) (suffix : String) (fs : List Field)
    (s : Statement) : RowOperation → Prop
  | .insert => fs ≠ [] ∧ ∃ tail ∈ ["", identityText d m], s = Statement.inserting d m suffix fs tail
  | .update => fs ≠ [] ∧ ∃ condition ps, s = Statement.assigning d m suffix fs condition ps
  | .delete => False

variable {d : Dialect} {t : EntityType} {m : Metadata} {suffix : String} {fs : List Field}
  {x : Instance} {y : Draft}

/-- What is persisted is not computed. -/
theorem MemberKind.ne_computed {k : MemberKind} (h : k.isPersisted = true) : k ≠ .computed := by
  rintro rfl
  cases h

namespace Field

end Field

/-- Bound assignments are to the columns of the members, none of them computed. -/
theorem Surroundings.BindsAssignments.columns {s : Surroundings} {as : List Assignment}
    {ps : List Parameter} {bound : List BoundAssignment} (h : s.BindsAssignments as ps bound) :
    List.Forall₂ (fun (a : Assignment) (b : BoundAssignment) =>
      ∃ f, s.metadata.member? a.member = some f ∧ f.kind ≠ .computed ∧ b.column = f.column)
      as bound := by
  induction h with
  | nil => exact .nil
  | cons hmember hpersisted _ _ ih =>
    exact .cons ⟨_, hmember, MemberKind.ne_computed hpersisted, rfl⟩ ih

namespace Build

variable {b : Build} {k : RowOperation} {keeps : Field → Bool} {items : List (Instance × String)}
  {ds : List Draft}

end Build

end EntitySql
