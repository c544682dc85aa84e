import EntitySql.Proofs.Json.Members
import EntitySql.Result.Row

/-!
# One row in several views

A column of a row is seen by its name, as an entry of the row as JSON, and as an entry of
the row as text that is read again. A name that stands for several columns is seen in two
ways: asked for by name, the first of its columns answers, while among the entries of an
object the last one counts. Columns whose names differ in case never stand in each
other's way.
-/

namespace EntitySql

namespace Value

variable {v : Value}

/-- A value whose JSON holds no binary number and no JSON of its own: neither is the value such, nor
a list. -/
def IsPlain : Value → Prop
  | .single _ | .double _ | .json _ | .list _ => False
  | _ => True

/-- The JSON of a plain value comes back from its text. -/
theorem faithful_toJson (h : v.IsPlain) : v.toJson.Faithful := by
  have hwords : Json.maxWord = 2 ^ 64 - 1 := by decide
  cases v with
  | single | double | json | list => cases h
  | null | bool | string | timestamp | decimal | uuid => trivial
  | int32 n =>
    have hlow := n.le_toInt
    have hhigh := n.toInt_lt
    exact ⟨by omega, by omega⟩
  | int64 n =>
    have hlow := n.le_toInt
    have hhigh := n.toInt_lt
    exact ⟨by omega, by omega⟩
  | bytes bs =>
    refine Json.faithfulItems_iff.mpr fun x hx => ?_
    obtain ⟨b, -, rfl⟩ := List.mem_map.mp hx
    have hhigh := b.toNat_lt
    exact ⟨by omega, by omega⟩

/-- The JSON of a plain value has no brackets within brackets. -/
theorem depth_toJson_le (h : v.IsPlain) : v.toJson.toDocument.depth ≤ 1 := by
  cases v with
  | single | double | json | list => cases h
  | null | bool | string | timestamp | decimal | uuid | int32 | int64 => exact Nat.zero_le _
  | bytes bs =>
    refine Nat.succ_le_succ (Json.itemsDepth_toItems_le_iff.mpr fun x hx => ?_)
    obtain ⟨b, -, rfl⟩ := List.mem_map.mp hx
    exact le_rfl

end Value

namespace Row

variable {r : Row} {c : String} {v first last : Value} {j : Json}

/-- A value is that of the first column with a name. -/
def First (r : Row) (c : String) (v : Value) : Prop :=
  ∃ before after, r.pairs = before ++ (c, v) :: after ∧ c ∉ before.map Prod.fst

/-- A value is that of the last column with a name. -/
def Last (r : Row) (c : String) (v : Value) : Prop :=
  ∃ before after, r.pairs = before ++ (c, v) :: after ∧ c ∉ after.map Prod.fst

/-- The columns with the JSON of their values. -/
def members (r : Row) : List (String × Json) :=
  r.pairs.map fun (c, v) => (c, v.toJson)

/-- A name is seen alike in all views of a row: as an entry of its JSON, as an entry of its text
after it was read, and asked for by name. -/
def Agrees (r : Row) (c : String) : Prop :=
  ∃ x, r.toJson.get? c = some x ∧
    (∃ j, Json.parse? r.toDocument.render = some j ∧ j.get? c = some x) ∧
    (r.getByName? c).map Value.toJson = some x

/-- The text of a row is read: it is not nested too deep, and the JSON of each value has a text that
can be read. -/
def Readable (r : Row) : Prop :=
  r.toDocument.depth ≤ Json.maxDepth ∧
    ∀ cell ∈ r.pairs, ∃ x, Json.ofDocument? cell.2.toJson.toDocument = some x

/-- The value of the first column with a name is found from the front. -/
theorem first_iff : r.First c v ↔ r.pairs.lookup c = some v :=
  lookup_eq_some_iff_split.symm

/-- The value of the last column with a name is found from the back. -/
theorem last_iff : r.Last c v ↔ r.pairs.reverse.lookup c = some v := by
  rw [lookup_eq_some_iff_split]
  constructor
  · rintro ⟨before, after, hpairs, hlast⟩
    refine ⟨after.reverse, before.reverse, by simp [hpairs], ?_⟩
    rwa [List.map_reverse, List.mem_reverse]
  · rintro ⟨after, before, hpairs, hlast⟩
    refine ⟨before.reverse, after.reverse, ?_, ?_⟩
    · rw [← List.reverse_reverse r.pairs, hpairs]
      simp
    · rwa [List.map_reverse, List.mem_reverse]

/-- As many values as columns: the cells have the names of all columns. -/
theorem keys_pairs (hsize : r.columns.length = r.values.length) :
    r.pairs.map Prod.fst = r.columns :=
  List.map_fst_zip hsize.le

/-- A name of a column has a first value. -/
theorem exists_first (hsize : r.columns.length = r.values.length) (hc : c ∈ r.columns) :
    ∃ first, r.First c first := by
  simp only [first_iff]
  exact exists_lookup_eq_some (by rwa [keys_pairs hsize])

/-- A name of a column has a last value. -/
theorem exists_last (hsize : r.columns.length = r.values.length) (hc : c ∈ r.columns) :
    ∃ last, r.Last c last := by
  simp only [last_iff]
  exact exists_lookup_eq_some (by rwa [List.map_reverse, List.mem_reverse, keys_pairs hsize])

/-- The first and the last value of a name that is not repeated are the same. -/
theorem First.eq_last (hsize : r.columns.length = r.values.length) (hfirst : r.First c first)
    (hlast : r.Last c last) (honce : r.columns.count c = 1) : first = last := by
  obtain ⟨before, after, hpairs, hafter⟩ := hlast
  have hbefore : c ∉ before.map Prod.fst := by
    rw [← keys_pairs hsize, hpairs, List.map_append, List.map_cons, List.count_append,
      List.count_cons_self] at honce
    exact List.count_eq_zero.mp (by omega)
  have hsame := first_iff.mp hfirst
  rw [first_iff.mp ⟨before, after, hpairs, hbefore⟩] at hsame
  exact (Option.some.inj hsame).symm

/-- Asked for by name, a row answers with the first column of exactly that name, whatever columns
differ from it in case. -/
theorem getByName?_of_first (hsize : r.columns.length = r.values.length) (h : r.First c first) :
    r.getByName? c = some first := by
  obtain ⟨before, after, hpairs, hfresh⟩ := h
  have hcolumns : r.columns = before.map Prod.fst ++ c :: after.map Prod.fst := by
    rw [← keys_pairs hsize, hpairs, List.map_append, List.map_cons]
  have hvalues : r.values = before.map Prod.snd ++ first :: after.map Prod.snd := by
    rw [← List.map_snd_zip hsize.ge, ← pairs, hpairs, List.map_append, List.map_cons]
  have hbefore : (before.map Prod.fst).findIdx? (· == c) = none := by
    rw [List.findIdx?_eq_none_iff]
    exact fun k hk => beq_eq_false_iff_ne.mpr fun heq => hfresh (heq ▸ hk)
  have hplace : r.columns.findIdx? (· == c) = some before.length := by
    rw [hcolumns, List.findIdx?_append, hbefore, List.findIdx?_cons]
    simp
  rw [getByName?, position?, hplace, Option.some_or, Option.bind_some, get?, hvalues,
    List.getElem?_append_right (by simp)]
  simp

/-- A row as JSON has, under the name of a column, the JSON of the last column of that name. -/
theorem get?_toJson_of_last (h : r.Last c last) : r.toJson.get? c = some last.toJson := by
  rw [toJson, Json.get?_ofMembers, ← List.map_reverse, lookup_map_snd, last_iff.mp h,
    Option.map_some]

/-- A row is written like the object that has its columns as members, in their order. -/
theorem toDocument_eq (r : Row) : r.toDocument = Json.toDocument (.object r.members) := by
  rw [Json.toDocument, Json.toMembers_eq_map, members, List.map_map]
  rfl

/-- What the text of a row is read as: the object of its members as they are read one by one, if
brackets are not nested too deep. -/
theorem parse?_render_iff :
    Json.parse? r.toDocument.render = some j ↔ r.toDocument.depth ≤ Json.maxDepth ∧
      ∃ members, List.Forall₂ Json.ReadFrom r.members members ∧ Json.ofMembers members = j := by
  have hread : Json.Document.parse? r.toDocument.render = some r.toDocument := by
    rw [toDocument_eq]
    exact Json.Document.parse?_render (Json.spelled_toDocument _)
  have hmembers : Json.ofDocument? r.toDocument =
      (Json.ofMembers? (Json.toMembers r.members)).map Json.ofMembers := by
    rw [toDocument_eq, Json.toDocument, Json.ofDocument?]
  rw [Json.parse?, hread, Option.bind_some]
  split
  · rename_i hdepth
    simp only [hmembers, Option.map_eq_some_iff, Json.ofMembers?_toMembers_eq_some_iff, hdepth,
      true_and]
  · rename_i hdepth
    exact iff_of_false nofun fun h => hdepth h.1

/-- The text of a row is read exactly when it is not nested too deep and the JSON of each value is
read. -/
theorem exists_parse?_render_iff :
    (∃ j, Json.parse? r.toDocument.render = some j) ↔ r.Readable := by
  simp only [parse?_render_iff, exists_and_left, Readable]
  refine and_congr_right fun _ => ?_
  have hcells := @Json.exists_ofMembers?_toMembers_iff r.members
  simp only [Json.ofMembers?_toMembers_eq_some_iff, members, List.forall_mem_map] at hcells
  rw [← members] at hcells
  rw [← hcells]
  exact ⟨fun ⟨_, members, h, _⟩ => ⟨members, h⟩, fun ⟨members, h⟩ => ⟨_, members, h, rfl⟩⟩

/-- The text of a row, when it is read, has under the name of a column what the JSON of the last
column of that name is read as. -/
theorem get?_of_parse? (hj : Json.parse? r.toDocument.render = some j) (h : r.Last c last) :
    ∃ x, j.get? c = some x ∧ Json.ofDocument? last.toJson.toDocument = some x := by
  obtain ⟨-, members', hread, rfl⟩ := parse?_render_iff.mp hj
  rw [Json.get?_ofMembers]
  refine Json.lookup_of_readFrom (List.rel_reverse hread) ?_
  rw [members, ← List.map_reverse, lookup_map_snd, last_iff.mp h, Option.map_some]

/-- When the JSON of each value comes back from its text, the text of a row is read as the row is as
JSON. -/
theorem parse?_render_of_faithful (hdepth : r.toDocument.depth ≤ Json.maxDepth)
    (h : ∀ cell ∈ r.pairs, cell.2.toJson.Faithful) :
    Json.parse? r.toDocument.render = some r.toJson := by
  refine parse?_render_iff.mpr ⟨hdepth, r.members, List.forall₂_same.mpr ?_, rfl⟩
  intro member hmember
  obtain ⟨cell, hcell, rfl⟩ := List.mem_map.mp hmember
  exact ⟨rfl, (Json.ofDocument?_toDocument_iff _).mpr (h cell hcell)⟩

/-- The text of a row, when it is read, has the JSON of the last column of a name exactly when that
JSON comes back from its text. -/
theorem get?_of_parse?_iff (hj : Json.parse? r.toDocument.render = some j) (h : r.Last c last) :
    j.get? c = some last.toJson ↔ last.toJson.Faithful := by
  obtain ⟨x, hx, hread⟩ := get?_of_parse? hj h
  rw [hx, ← hread, Json.ofDocument?_toDocument_iff]

/-- A name is seen alike in all views exactly when its first and its last column have the same JSON,
the text of the row is read, and that JSON comes back from its text. -/
theorem agrees_iff (hsize : r.columns.length = r.values.length) (hfirst : r.First c first)
    (hlast : r.Last c last) :
    r.Agrees c ↔ first.toJson = last.toJson ∧ last.toJson.Faithful ∧ r.Readable := by
  rw [Agrees, get?_toJson_of_last hlast, getByName?_of_first hsize hfirst, Option.map_some,
    ← exists_parse?_render_iff]
  constructor
  · rintro ⟨x, hx, ⟨j, hj, hentry⟩, hsame⟩
    rw [← hx] at hentry hsame
    exact ⟨Option.some.inj hsame, (get?_of_parse?_iff hj hlast).mp hentry, j, hj⟩
  · rintro ⟨hsame, hfaithful, j, hj⟩
    exact ⟨_, rfl, ⟨j, hj, (get?_of_parse?_iff hj hlast).mpr hfaithful⟩, congrArg some hsame⟩

/-- The text of a row of plain values is read as the row is as JSON. -/
theorem parse?_render_of_isPlain (h : ∀ cell ∈ r.pairs, cell.2.IsPlain) :
    Json.parse? r.toDocument.render = some r.toJson := by
  have hmembers : Json.Document.membersDepth
      (r.pairs.map fun (c, v) => (some c, v.toJson.toDocument)) ≤ 1 := by
    refine Json.membersDepth_le_iff.mpr fun member hmember => ?_
    obtain ⟨cell, hcell, rfl⟩ := List.mem_map.mp hmember
    exact Value.depth_toJson_le (h cell hcell)
  have hdepth : r.toDocument.depth ≤ 2 := Nat.succ_le_succ hmembers
  exact parse?_render_of_faithful (hdepth.trans (by decide))
    fun cell hcell => Value.faithful_toJson (h cell hcell)

end Row

/-- How a name of a column is seen in the views of a row with as many values as columns, whose names
may repeat and may differ in case only. Asked for by name, the row answers with the first column of
exactly that name; as JSON it has the last one, and so has its text, when it is read and the JSON of
the value comes back from it. So all views agree exactly when the first and the last column of the
name have the same JSON and the text brings it back: always for a name that is not repeated in a row
of plain values. -/
theorem row_views_agree_iff {r : Row} {c : String} (hsize : r.columns.length = r.values.length)
    (hc : c ∈ r.columns) :
    ∃ first last, r.First c first ∧ r.Last c last ∧
      r.getByName? c = some first ∧ r.toJson.get? c = some last.toJson ∧
      (∀ j, Json.parse? r.toDocument.render = some j →
        (j.get? c = some last.toJson ↔ last.toJson.Faithful)) ∧
      (r.Agrees c ↔ first.toJson = last.toJson ∧ last.toJson.Faithful ∧ r.Readable) ∧
      (r.columns.count c = 1 → first = last) ∧
      ((∀ v ∈ r.values, v.IsPlain) → Json.parse? r.toDocument.render = some r.toJson) := by
  obtain ⟨first, hfirst⟩ := Row.exists_first hsize hc
  obtain ⟨last, hlast⟩ := Row.exists_last hsize hc
  refine ⟨first, last, hfirst, hlast, Row.getByName?_of_first hsize hfirst,
    Row.get?_toJson_of_last hlast, fun j hj => Row.get?_of_parse?_iff hj hlast,
    Row.agrees_iff hsize hfirst hlast, hfirst.eq_last hsize hlast, fun hplain => ?_⟩
  exact Row.parse?_render_of_isPlain fun cell hcell => hplain cell.2 (List.of_mem_zip hcell).2

/-- Three columns, two with one name and one whose name differs in case: that one is seen alike in
all views, and the name that is repeated is not. -/
theorem row_views_agree_iff_repeated :
    (⟨["id", "ID", "id"], [.int64 1, .int64 2, .int64 3]⟩ : Row).Agrees "ID" ∧
      ¬(⟨["id", "ID", "id"], [.int64 1, .int64 2, .int64 3]⟩ : Row).Agrees "id" := by
  have hplain : ∀ v ∈ [Value.int64 1, .int64 2, .int64 3], v.IsPlain := by
    simp [Value.IsPlain]
  constructor
  · obtain ⟨first, last, -, hlast, -, -, -, hagrees, honce, hread⟩ := row_views_agree_iff
      (r := ⟨["id", "ID", "id"], [.int64 1, .int64 2, .int64 3]⟩) (c := "ID") rfl (by decide)
    obtain rfl : first = last := honce (by decide)
    obtain rfl : Value.int64 2 = first := by
      simpa [Row.pairs, List.lookup_cons] using Row.last_iff.mp hlast
    exact hagrees.mpr ⟨rfl, Value.faithful_toJson trivial,
      Row.exists_parse?_render_iff.mp ⟨_, hread hplain⟩⟩
  · obtain ⟨first, last, hfirst, hlast, -, -, -, hagrees, -, -⟩ := row_views_agree_iff
      (r := ⟨["id", "ID", "id"], [.int64 1, .int64 2, .int64 3]⟩) (c := "id") rfl (by decide)
    obtain rfl : Value.int64 1 = first := by
      simpa [Row.pairs, List.lookup_cons] using Row.first_iff.mp hfirst
    obtain rfl : Value.int64 3 = last := by
      simpa [Row.pairs, List.lookup_cons] using Row.last_iff.mp hlast
    rw [hagrees]
    rintro ⟨hsame, -, -⟩
    simp [Value.toJson, Json.ofInt] at hsame

/-- Not every name is seen alike in all views. Of two columns with one name, one answers to the name
and the other is the entry; a binary number is read back as the next greater one; and a row that
holds brackets nested to the greatest depth is itself nested too deep to be read. -/
theorem views_disagree :
    ¬(⟨["a", "a"], [.int32 1, .int32 2]⟩ : Row).Agrees "a" ∧
      ¬(⟨["a"], [.double ⟨0x4023e5e5ac07aca2#64⟩]⟩ : Row).Agrees "a" ∧
      ¬(⟨["a"], [.json (Nat.repeat (fun j => .array [j]) 127 .null)]⟩ : Row).Agrees "a" := by
  have halone (v : Value) : Row.First ⟨["a"], [v]⟩ "a" v ∧ Row.Last ⟨["a"], [v]⟩ "a" v :=
    ⟨⟨[], [], rfl, List.not_mem_nil⟩, [], [], rfl, List.not_mem_nil⟩
  refine ⟨?repeated, ?drifting, ?nested⟩
  case repeated =>
    have hfirst : Row.First ⟨["a", "a"], [.int32 1, .int32 2]⟩ "a" (.int32 1) :=
      ⟨[], [("a", .int32 2)], rfl, List.not_mem_nil⟩
    have hlast : Row.Last ⟨["a", "a"], [.int32 1, .int32 2]⟩ "a" (.int32 2) :=
      ⟨[("a", .int32 1)], [], rfl, List.not_mem_nil⟩
    rw [Row.agrees_iff rfl hfirst hlast]
    rintro ⟨hsame, -, -⟩
    simp [Value.toJson, Json.ofInt] at hsame
  case drifting =>
    rw [Row.agrees_iff rfl (halone _).1 (halone _).2]
    rintro ⟨-, ⟨n, hnumeral, hnumber⟩, -⟩
    have hdrift : (Json.Numeral.ofBinary? (⟨0x4023e5e5ac07aca2#64⟩ : Double)).bind
        Json.Numeral.number? ≠ some (.real ⟨0x4023e5e5ac07aca2#64⟩) := by decide +kernel
    exact hdrift (by rw [hnumeral, Option.bind_some, hnumber])
  case nested =>
    rw [Row.agrees_iff rfl (halone _).1 (halone _).2]
    rintro ⟨-, -, hdepth, -⟩
    revert hdepth
    decide +kernel

end EntitySql
