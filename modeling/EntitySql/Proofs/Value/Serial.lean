import EntitySql.Proofs.Decimal
import EntitySql.Proofs.Json.Basic
import EntitySql.Proofs.Timestamp
import EntitySql.Proofs.Uuid
import EntitySql.Value.Serial

/-!
# Values that are stored and read back

The serialized text of a value is always read as the document that it was made of, and
the one key of an object there says which kind of value it stores. So a value comes back
as it was, in its kind, when the numbers and texts in it do.
-/

namespace EntitySql

open Json (Document Numeral)

/-- A binary number is finite, and the numeral that is written for it is read as the same number. -/
structure Binary.Faithful {f : Format} (x : Binary f) : Prop where
  finite : x.isFinite = true
  readsBack : ∀ n, Numeral.ofBinary? x = some n → Value.binaryOf? (.number n) = some x

namespace Value

mutual

/-- A value comes back from its text as far as numbers and texts in it do: binary numbers and JSON
values come back, and no decimal is a zero with a sign. -/
def Faithful : Value → Prop
  | .single x => x.Faithful
  | .double x => x.Faithful
  | .json j => j.Faithful
  | .list vs => AllFaithful vs
  | .decimal d => d.negative = true → d.mantissa ≠ 0
  | _ => True

/-- Each of several values comes back. -/
def AllFaithful : List Value → Prop
  | [] => True
  | v :: vs => v.Faithful ∧ AllFaithful vs

end

/-! ### The text spells the document -/

/-- The document of a whole number is spelled. -/
theorem spelled_wholeDocument (n : Int) : (wholeDocument n).Spelled :=
  Numeral.wellFormed_ofInt n

/-- The document of a binary number is spelled, also when the number is not finite. -/
theorem spelled_binaryDocument {f : Format} (x : Binary f) : (binaryDocument x).Spelled := by
  rw [binaryDocument]
  cases hnumeral : Numeral.ofBinary? x with
  | none => trivial
  | some n => exact Numeral.wellFormed_ofBinary? hnumeral

/-- The documents of bytes are spelled. -/
theorem spelled_bytes (bs : List UInt8) :
    Document.SpelledItems (bs.map fun b => wholeDocument b.toNat) := by
  induction bs with
  | nil => trivial
  | cons b bs ih => exact ⟨spelled_wholeDocument _, ih⟩

mutual

/-- The document of a value has only such numerals and strings as JSON allows. -/
theorem spelled_toDocument : ∀ v : Value, v.toDocument.Spelled
  | .null => rfl
  | .bool _ => ⟨rfl, trivial, trivial⟩
  | .int32 _ | .int64 _ => ⟨rfl, spelled_wholeDocument _, trivial⟩
  | .single x => ⟨rfl, spelled_binaryDocument x, trivial⟩
  | .double x => ⟨rfl, spelled_binaryDocument x, trivial⟩
  | .string _ | .timestamp _ | .decimal _ | .uuid _ => ⟨rfl, rfl, trivial⟩
  | .bytes bs => ⟨rfl, spelled_bytes bs, trivial⟩
  | .json j => ⟨rfl, Json.spelled_toDocument j, trivial⟩
  | .list vs => ⟨rfl, spelled_toDocuments vs, trivial⟩

/-- The documents of several values are spelled. -/
theorem spelled_toDocuments : ∀ vs : List Value, Document.SpelledItems (toDocuments vs)
  | [] => trivial
  | v :: vs => ⟨spelled_toDocument v, spelled_toDocuments vs⟩

end

/-- The serialized text of a value is read as its document. -/
theorem document_parse?_serialText (v : Value) :
    Document.parse? v.serialText = some v.toDocument :=
  Document.parse?_render v.spelled_toDocument

/-! ### The document stores the value -/

/-- The key of an object with one member says what the member stores. -/
theorem ofDocument?_tagged {tag : String} (htag : tag ≠ "Array") (d : Document) :
    ofDocument? (tagged tag d) = ofTagged? tag d := by
  rw [tagged, ofDocument?]
  simp [htag]

/-- A whole number between bounds that fit a word comes back from its document. -/
theorem wholeIn?_wholeDocument {low high n : Int}
    (hwords : -(2 ^ 63 : Nat) ≤ low ∧ high ≤ Json.maxWord) (hlow : low ≤ n) (hhigh : n ≤ high) :
    wholeIn? low high (wholeDocument n) = some n := by
  have hnumber : numberOf? (wholeDocument n) = some (.whole n) :=
    Json.number?_ofInt_iff.mpr ⟨Int.le_trans hwords.1 hlow, Int.le_trans hhigh hwords.2⟩
  rw [wholeIn?, hnumber]
  exact if_pos ⟨hlow, hhigh⟩

/-- A number has a numeral exactly when it is finite. -/
theorem ofBinary?_eq_none_iff {f : Format} {x : Binary f} :
    Numeral.ofBinary? x = none ↔ x.isFinite = false := by
  unfold Numeral.ofBinary? Binary.isFinite
  cases x.view with
  | finite s m e =>
    refine iff_of_false ?_ nofun
    dsimp only
    split <;> nofun
  | nan | infinite => exact iff_of_true rfl rfl

/-- A binary number comes back from its document exactly when it is faithful. -/
theorem binaryOf?_binaryDocument_iff {f : Format} {x : Binary f} :
    binaryOf? (binaryDocument x) = some x ↔ x.Faithful := by
  cases hnumeral : Numeral.ofBinary? x with
  | none =>
    have hfinite := ofBinary?_eq_none_iff.mp hnumeral
    refine iff_of_false ?_ fun h => ?_
    · rw [binaryDocument, hnumeral]
      nofun
    · rw [h.finite] at hfinite
      cases hfinite
  | some n =>
    have hfinite : x.isFinite = true := by
      by_contra hnot
      rw [ofBinary?_eq_none_iff.mpr (Bool.eq_false_iff.mpr hnot)] at hnumeral
      cases hnumeral
    have hdocument : binaryDocument x = .number n := by
      rw [binaryDocument, hnumeral]
      rfl
    rw [hdocument]
    constructor
    · intro h
      refine ⟨hfinite, fun n' hn' => ?_⟩
      obtain rfl := Option.some.inj (hnumeral.symm.trans hn')
      exact h
    · exact fun h => h.readsBack n hnumeral

/-- Bytes come back from their documents. -/
theorem mapM_wholeIn?_bytes (bs : List UInt8) :
    (bs.map fun b => wholeDocument b.toNat).mapM (wholeIn? 0 255) =
      some (bs.map fun b => (b.toNat : Int)) := by
  induction bs with
  | nil => rfl
  | cons b bs ih =>
    have hlt := b.toNat_lt
    have hhead : wholeIn? 0 255 (wholeDocument b.toNat) = some (b.toNat : Int) :=
      wholeIn?_wholeDocument (by decide) (by omega) (by omega)
    rw [List.map_cons, List.mapM_cons, hhead, ih]
    rfl

mutual

/-- A value comes back from its document exactly when it is faithful. -/
theorem ofDocument?_toDocument_iff :
    ∀ v : Value, ofDocument? v.toDocument = some v ↔ v.Faithful
  | .null => iff_of_true rfl trivial
  | .bool b => by
    rw [toDocument, ofDocument?_tagged (by decide)]
    exact iff_of_true rfl trivial
  | .int32 n => by
    rw [toDocument, ofDocument?_tagged (by decide), ofTagged?,
      wholeIn?_wholeDocument (by decide) n.minValue_le_toInt n.toInt_le, Option.map_some,
      Int32.ofInt_toInt]
    exact iff_of_true rfl trivial
  | .int64 n => by
    rw [toDocument, ofDocument?_tagged (by decide), ofTagged?,
      wholeIn?_wholeDocument (by decide) n.minValue_le_toInt n.toInt_le, Option.map_some,
      Int64.ofInt_toInt]
    exact iff_of_true rfl trivial
  | .single x => by
    rw [toDocument, ofDocument?_tagged (by decide), ofTagged?, Faithful,
      ← binaryOf?_binaryDocument_iff]
    simp
  | .double x => by
    rw [toDocument, ofDocument?_tagged (by decide), ofTagged?, Faithful,
      ← binaryOf?_binaryDocument_iff]
    simp
  | .string s => by
    rw [toDocument, ofDocument?_tagged (by decide)]
    exact iff_of_true rfl trivial
  | .bytes bs => by
    rw [toDocument, ofDocument?_tagged (by decide), ofTagged?, arrayOf?, Option.bind_some,
      mapM_wholeIn?_bytes, Option.map_some, List.map_map]
    refine iff_of_true ?_ trivial
    simp [Function.comp_def]
  | .json j => by
    rw [toDocument, ofDocument?_tagged (by decide), ofTagged?, Faithful,
      ← Json.ofDocument?_toDocument_iff]
    simp
  | .list vs => by
    rw [toDocument, tagged, ofDocument?, Faithful, ← ofDocuments?_toDocuments_iff vs]
    simp
  | .timestamp t => by
    rw [toDocument, ofDocument?_tagged (by decide), ofTagged?, stringOf?, Option.bind_some,
      Timestamp.readIso?_isoText]
    exact iff_of_true rfl trivial
  | .decimal d => by
    rw [toDocument, ofDocument?_tagged (by decide), ofTagged?, decimalOf?, Faithful,
      ← Decimal.read?_text_iff]
    simp
  | .uuid u => by
    rw [toDocument, ofDocument?_tagged (by decide), ofTagged?, stringOf?, Option.bind_some,
      Uuid.read?_text]
    exact iff_of_true rfl trivial

/-- Values come back from their documents exactly when they are faithful. -/
theorem ofDocuments?_toDocuments_iff :
    ∀ vs : List Value, ofDocuments? (toDocuments vs) = some vs ↔ AllFaithful vs
  | [] => iff_of_true rfl trivial
  | v :: vs => by
    rw [toDocuments, ofDocuments?, AllFaithful, ← ofDocument?_toDocument_iff v,
      ← ofDocuments?_toDocuments_iff vs]
    simp only [Option.bind_eq_some_iff, Option.map_eq_some_iff, List.cons.injEq]
    exact ⟨fun ⟨_, hv, _, hvs, hsame, hsame'⟩ => ⟨hsame ▸ hv, hsame' ▸ hvs⟩,
      fun ⟨hv, hvs⟩ => ⟨v, hv, vs, hvs, rfl, rfl⟩⟩

end

end Value

/-- A value comes back from its serialized text, as the same value of the same kind, exactly when
the binary numbers and JSON values in it come back, no decimal in it is a zero with a sign, and its
text is not nested deeper than a reader follows brackets. -/
theorem serialized_value_reads_back_iff (v : Value) :
    Value.ofSerialText? v.serialText = some v ↔
      v.Faithful ∧ v.toDocument.depth ≤ Json.maxDepth := by
  rw [Value.ofSerialText?, v.document_parse?_serialText, Option.bind_some]
  split
  · rename_i hdepth
    rw [v.ofDocument?_toDocument_iff]
    exact ⟨fun h => ⟨h, hdepth⟩, And.left⟩
  · rename_i hdepth
    exact iff_of_false nofun fun h => hdepth h.2

/-- A list for examples: the word for null as a text, one half in both formats, and an object. -/
def Value.assorted : Value :=
  .list [.null, .string "Null", .single ⟨0x3f000000#32⟩,
    .list [.double ⟨0x3fe0000000000000#64⟩, .json (.object [("half", .null)])]]

/-- The list comes back. -/
theorem serialized_value_reads_back_assorted :
    Value.ofSerialText? Value.assorted.serialText = some Value.assorted := by
  have hsingle : Numeral.ofBinary? (⟨0x3f000000#32⟩ : Single) = some ⟨false, [0], [5], none⟩ := by
    decide +kernel
  have hdouble : Numeral.ofBinary? (⟨0x3fe0000000000000#64⟩ : Double) =
      some ⟨false, [0], [5], none⟩ := by decide +kernel
  refine (serialized_value_reads_back_iff _).mpr ⟨⟨trivial, trivial, ⟨by decide +kernel, ?_⟩,
    ⟨⟨by decide +kernel, ?_⟩, ⟨List.pairwise_singleton _ _, trivial, trivial⟩, trivial⟩, trivial⟩,
    by decide⟩
  · intro n hn
    obtain rfl := Option.some.inj (hsingle.symm.trans hn)
    decide +kernel
  · intro n hn
    obtain rfl := Option.some.inj (hdouble.symm.trans hn)
    decide +kernel

end EntitySql
