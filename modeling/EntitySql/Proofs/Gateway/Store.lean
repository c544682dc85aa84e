import EntitySql.Gateway.Store
import EntitySql.Proofs.Binary.Exact
import EntitySql.Proofs.Decimal
import EntitySql.Proofs.Fallible
import EntitySql.Proofs.Json.Basic
import EntitySql.Proofs.Timestamp
import EntitySql.Proofs.Uuid

/-!
# Values that come back from the store

A scalar is bound as a value, which an engine hands back as it was or keeps in one of its
four kinds. Read as a scalar of the same type, it is the scalar that was bound. Only JSON
is kept as text that may spell another value, or none.
-/

namespace EntitySql

/-- The way of a value from a parameter to a column of a result: it stays as it was bound, or it is
kept in the kinds of the store. -/
inductive Route where
  | direct
  | stored
  deriving DecidableEq, Repr

namespace Route

/-- The value that comes back. -/
def carry : Route → Value → Value
  | .direct, v => v
  | .stored, v => v.stored

/-- A value is not changed on its way: JSON that is kept as text must be faithful, and its brackets
must not be nested deeper than a reader follows them. -/
def Keeps : Route → Value → Prop
  | .stored, .json j => j.Faithful ∧ j.toDocument.depth ≤ Json.maxDepth
  | _, _ => True

/-- Null comes back as null. -/
theorem carry_encode_null (r : Route) (d : Dialect) : r.carry (d.encode .null) = .null := by
  rw [Dialect.encode_of_not_isBool rfl]
  cases r <;> rfl

/-- Null is not changed on its way. -/
theorem keeps_null (r : Route) : r.Keeps .null := by
  cases r <;> trivial

end Route

namespace ScalarType

/-- A scalar of a type that members have, other than the generic one: numbers are numbers, and a
decimal zero has no sign. -/
def Ordinary : (t : ScalarType) → t.Carrier → Prop
  | .single, x => x.isNaN = false
  | .double, x => x.isNaN = false
  | .decimal, d => d.negative = true → d.mantissa ≠ 0
  | .value, _ => False
  | _, _ => True

variable {r : Route} {d : Dialect} {t : ScalarType} {v : Value} {range : Range} {n : Int64}

/-- A scalar that is found in a value is read from it, except JSON. -/
theorem read_of_find? {x : t.Carrier} (ht : t ≠ .json) (h : t.find? v = some x) :
    t.read v = .ok x := by
  cases t with
  | json => exact absurd rfl ht
  | _ => simp only [read, h]

/-- A whole number of a range is found in its value. -/
theorem wholeIn?_eq_some (h : v.asInt64? = some n) (hlow : range.1 ≤ n.toInt)
    (hhigh : n.toInt ≤ range.2) : wholeIn? range v = some n.toInt := by
  rw [wholeIn?, h, Option.bind_some, if_pos ⟨hlow, hhigh⟩]

/-- A whole number of 32 bits comes back with 64. -/
theorem asInt64?_carry_int32 (r : Route) (d : Dialect) (n : Int32) :
    (r.carry (d.encode (.int32 n))).asInt64? = some n.toInt64 := by
  rw [Dialect.encode_of_not_isBool rfl]
  cases r <;> rfl

/-- A whole number of 64 bits comes back. -/
theorem asInt64?_carry_int64 (r : Route) (d : Dialect) (n : Int64) :
    (r.carry (d.encode (.int64 n))).asInt64? = some n := by
  rw [Dialect.encode_of_not_isBool rfl]
  cases r <;> rfl

/-- A truth value comes back as itself or as one or zero. -/
theorem asBool?_carry_bool (r : Route) (d : Dialect) (b : Bool) :
    (r.carry (d.encode (.bool b))).asBool? = some b := by
  cases r <;> cases d <;> cases b <;> rfl

/-- A binary number of 32 bits comes back with 64. -/
theorem asDouble?_carry_single (r : Route) (d : Dialect) {x : Single} (hx : x.isNaN = false) :
    (r.carry (d.encode (.single x))).asDouble? = some x.convert := by
  rw [Dialect.encode_of_not_isBool rfl]
  cases r with
  | direct => rfl
  | stored =>
    rw [Route.carry, Value.stored, if_neg (by simp [hx])]
    rfl

/-- A binary number of 64 bits comes back. -/
theorem asDouble?_carry_double (r : Route) (d : Dialect) {x : Double} (hx : x.isNaN = false) :
    (r.carry (d.encode (.double x))).asDouble? = some x := by
  rw [Dialect.encode_of_not_isBool rfl]
  cases r with
  | direct => rfl
  | stored =>
    rw [Route.carry, Value.stored, if_neg (by simp [hx])]
    rfl

/-- A value that is kept as text comes back as itself or as its text. -/
theorem timestamp?_carry (r : Route) (d : Dialect) (t : Timestamp) :
    timestamp? (r.carry (d.encode (.timestamp t))) = some t := by
  rw [Dialect.encode_of_not_isBool rfl]
  cases r with
  | direct => rfl
  | stored =>
    show Timestamp.read? (Text.trim t.text) = some t
    rw [t.trim_text, t.read?_text]

/-- A decimal comes back from its text, unless it is a zero with a sign. -/
theorem decimal?_carry (r : Route) (d : Dialect) {x : Decimal}
    (hx : x.negative = true → x.mantissa ≠ 0) :
    decimal? (r.carry (d.encode (.decimal x))) = some x := by
  rw [Dialect.encode_of_not_isBool rfl]
  cases r with
  | direct => rfl
  | stored =>
    show Decimal.read? (Text.trim x.text) = some x
    rw [x.trim_text, x.read?_text hx]

/-- An identifier comes back from its text. -/
theorem uuid?_carry (r : Route) (d : Dialect) (u : Uuid) :
    uuid? (r.carry (d.encode (.uuid u))) = some u := by
  rw [Dialect.encode_of_not_isBool rfl]
  cases r with
  | direct => rfl
  | stored =>
    show Uuid.read? (Text.trim u.text) = some u
    rw [u.trim_text, u.read?_text]

/-- JSON comes back exactly when its way keeps it. -/
theorem read_carry_json_iff (r : Route) (d : Dialect) (j : Json) :
    ScalarType.json.read (r.carry (d.encode (.json j))) = .ok j ↔ r.Keeps (.json j) := by
  rw [Dialect.encode_of_not_isBool rfl]
  cases r with
  | direct => exact iff_of_true rfl trivial
  | stored =>
    have hread : ScalarType.json.read (.string j.text) =
        (Json.parse? j.text).elim (.error .configuration) .ok := by
      cases hparse : Json.parse? j.text <;> simp [read, hparse]
    show ScalarType.json.read (.string j.text) = .ok j ↔ _
    rw [hread, Route.Keeps, ← Json.parse?_text_iff]
    cases Json.parse? j.text <;> simp

/-- An ordinary scalar is read back from its value, except JSON that its way does not keep. -/
theorem read_carry (d : Dialect) (t : ScalarType) {x : t.Carrier} (hx : t.Ordinary x)
    (hkeeps : r.Keeps (t.toValue x)) : t.read (r.carry (d.encode (t.toValue x))) = .ok x := by
  cases t with
  | int16 =>
    have hn : (x : Int16).toInt32.toInt64.toInt = x.toInt := by simp
    refine read_of_find? (by decide) ?_
    rw [find?, toValue, wholeIn?_eq_some (asInt64?_carry_int32 r d _) (hn ▸ x.minValue_le_toInt)
      (hn ▸ x.toInt_le), Option.map_some, hn, Int16.ofInt_toInt]
  | int32 =>
    have hn : (x : Int32).toInt64.toInt = x.toInt := by simp
    refine read_of_find? (by decide) ?_
    rw [find?, toValue, wholeIn?_eq_some (asInt64?_carry_int32 r d _) (hn ▸ x.minValue_le_toInt)
      (hn ▸ x.toInt_le), Option.map_some, hn, Int32.ofInt_toInt]
  | int64 => exact read_of_find? (by decide) (asInt64?_carry_int64 r d x)
  | word32 =>
    have hsize : (x : UInt32).toNat < 2 ^ 32 := x.toNat_lt
    have hn : (Int64.ofNat (x : UInt32).toNat).toInt = x.toNat :=
      Int64.toInt_ofNat_of_lt (by omega)
    refine read_of_find? (by decide) ?_
    rw [find?, toValue, wholeIn?_eq_some (asInt64?_carry_int64 r d _) (by omega)
      (by rw [hn]; simp only [UInt32.size]; omega), Option.map_some, hn, Int.toNat_natCast,
      UInt32.ofNat_toNat]
  | single =>
    refine read_of_find? (by decide) ?_
    rw [find?, toValue, asDouble?_carry_single r d hx, Option.map_some,
      Binary.convert_convert Binary.single_within_double hx]
  | double => exact read_of_find? (by decide) (asDouble?_carry_double r d hx)
  | bool => exact read_of_find? (by decide) (asBool?_carry_bool r d x)
  | string | bytes =>
    rw [toValue, Dialect.encode_of_not_isBool rfl]
    cases r <;> rfl
  | json => exact (read_carry_json_iff r d x).mpr hkeeps
  | value => exact absurd hx id
  | timestamp => exact read_of_find? (by decide) (timestamp?_carry r d x)
  | decimal => exact read_of_find? (by decide) (decimal?_carry r d hx)
  | uuid => exact read_of_find? (by decide) (uuid?_carry r d x)

/-- The value of an ordinary scalar comes back as a value other than null. -/
theorem isNull_carry (r : Route) (d : Dialect) {x : t.Carrier} (hx : t.Ordinary x) :
    (r.carry (d.encode (t.toValue x))).isNull = false := by
  cases t with
  | bool => cases r <;> cases d <;> cases x <;> rfl
  | value => exact absurd hx id
  | single | double =>
    rw [toValue, Dialect.encode_of_not_isBool rfl]
    cases r with
    | direct => rfl
    | stored =>
      rw [Route.carry, Value.stored, if_neg (by simp_all [Ordinary])]
      rfl
  | _ =>
    rw [toValue, Dialect.encode_of_not_isBool rfl]
    cases r <;> rfl

/-- The value of an ordinary scalar is written back into a member exactly when its way keeps it. -/
theorem store_carry_iff (d : Dialect) {x : t.Carrier} (hx : t.Ordinary x) :
    (t.read (r.carry (d.encode (t.toValue x)))).map t.toValue = .ok (t.toValue x) ↔
      r.Keeps (t.toValue x) := by
  constructor
  · intro h
    cases t with
    | json =>
      obtain ⟨j, hj, hsame⟩ := map_eq_ok_iff.mp h
      obtain rfl := Value.json.inj hsame
      exact (read_carry_json_iff r d j).mp hj
    | value => exact absurd hx id
    | _ => cases r <;> trivial
  · intro hkeeps
    rw [read_carry d t hx hkeeps]
    rfl

end ScalarType

namespace ReadType

/-- What is read into a member is nothing or an ordinary scalar. -/
def Ordinary : (t : ReadType) → t.Carrier → Prop
  | .required t, x => t.Ordinary x
  | .optional t, x => ∀ y ∈ x, t.Ordinary y

variable {r : Route} {d : Dialect} {t : ReadType} {x : t.Carrier}

/-- Only a member that may hold nothing holds null. -/
theorem exists_optional (hx : t.Ordinary x) (hnull : (t.toValue x).isNull = true) :
    ∃ s, t = .optional s := by
  cases t with
  | required t => cases t <;> first | exact absurd hx id | cases hnull
  | optional t => exact ⟨t, rfl⟩

/-- The value of a member comes back as a value other than null, if it is not null itself. -/
theorem isNull_carry (r : Route) (d : Dialect) (hx : t.Ordinary x)
    (hnull : (t.toValue x).isNull = false) : (r.carry (d.encode (t.toValue x))).isNull = false := by
  cases t with
  | required t => exact ScalarType.isNull_carry r d hx
  | optional t =>
    cases x with
    | none => cases hnull
    | some y => exact ScalarType.isNull_carry r d (hx y rfl)

/-- The value of a member is written back into the member exactly when its way keeps it. -/
theorem store_carry_iff (d : Dialect) (hx : t.Ordinary x) (hnull : (t.toValue x).isNull = false) :
    t.store (r.carry (d.encode (t.toValue x))) = .ok (t.toValue x) ↔ r.Keeps (t.toValue x) := by
  cases t with
  | required t => exact ScalarType.store_carry_iff d hx
  | optional t =>
    cases x with
    | none => cases hnull
    | some y =>
      have hy : t.Ordinary y := hx y rfl
      show (optional t).store (r.carry (d.encode (t.toValue y))) = .ok (t.toValue y) ↔ _
      rw [store_optional t (ScalarType.isNull_carry r d hy)]
      exact ScalarType.store_carry_iff d hy

end ReadType

end EntitySql
