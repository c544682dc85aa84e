import EntitySql.Proofs.Session.Handover
import EntitySql.Proofs.Sql.SortLists

/-!
# Where an order puts nulls

Oracle is told to put nulls last by one mark behind the whole list that sorts, whether the
list stands in a query or in the query for a page. There the mark belongs to the last
column alone. So nulls are last for that column and for all columns that ascend, and first
for every other column that descends.
-/

namespace EntitySql

namespace Statement

/-- A query sorted by a list. -/
def sortedBy (s : Statement) (list : String) : Statement :=
  ⟨s.text ++ " ORDER BY " ++ list, s.parameters⟩

/-- The query of Oracle for a page of a query that is sorted by a list. -/
def sortedPage (s : Statement) (list : String) (w : Window) : Statement :=
  ⟨"SELECT * FROM (SELECT tt1.*, ROWNUM rn FROM (" ++ (s.sortedBy list).text ++
    ") tt1 WHERE ROWNUM <= " ++ toString w.stop ++ ") tt2 WHERE rn > " ++ toString w.start,
    s.parameters⟩

end Statement

/-- The columns of sort keys in their order, with their directions. -/
def Metadata.Sorts (m : Metadata) (keys : List SortKey) (items : List SortItem) : Prop :=
  List.Forall₂ (fun k x => (∃ f, m.lookup k.member = .ok f ∧ x.column = f.column) ∧
    x.direction = k.direction) keys items

namespace Session

variable {σ : Type}

/-- The operations that read instances in an order. -/
inductive ReadsSorted (t : EntityType) (c : Option Condition) (order : List SortKey) :
    {α : Type} → Operation σ α → Prop
  | selectWhere : ReadsSorted t c order (selectWhere t c (some order))
  | first : ReadsSorted t c order (first t c (some order))
  | selectPage (index size : Int) : ReadsSorted t c order (selectPage t c (some order) index size)

/-- What is handed over for a query that is sorted by a list: the query, the query for a page of it,
or the query for the number of its rows. -/
def HandedSorted (t : EntityType) (c : Option Condition) (list : String) (q : Statement) : Prop :=
  ∃ inner, t.Answers (Statement.select .oracle t c none) (.ok inner) ∧
    (q = inner.sortedBy list ∨ (∃ w, q = inner.sortedPage list w) ∨ q = inner.pageCount)

end Session

open Session in
/-- The list by which Oracle is told to sort by keys. A query has it behind it, the query for a page
has it behind the query for the rows, and nothing else is handed over by a session. -/
structure EntityType.EmitsOrder (t : EntityType) (keys : List SortKey) (list : String) : Prop where
  select : ∀ c r, t.Answers (Statement.select .oracle t c none) r →
    t.Answers (Statement.select .oracle t c (some keys)) (r.map (·.sortedBy list))
  page : ∃ text, t.Answers (Statement.orderText .oracle t keys) (.ok text) ∧
    ∀ (inner : Statement) (w : Window),
      inner.pageRows .oracle (some text) w = inner.sortedPage list w
  session : ∀ {σ α : Type} (g : Gateway σ) (o : Options) (st : SessionState σ)
    (c : Option Condition) (x : Operation (σ × List CallRecord) α),
      g.dialect = .oracle → st.catalog.Serves t → ReadsSorted t c keys x →
        ∀ q ∈ x.handed g o st, HandedSorted t c list q

section Emission

variable {t : EntityType} {m : Metadata} {keys : List SortKey} {items : List SortItem}

/-- The sort keys of known members are columns with directions. -/
theorem Metadata.exists_sorts (hmembers : ∀ k ∈ keys, ∃ f, m.lookup k.member = .ok f) :
    ∃ items, m.Sorts keys items ∧ ∀ x ∈ items, x.marked = false := by
  induction keys with
  | nil => exact ⟨[], .nil, by simp⟩
  | cons k keys ih =>
    obtain ⟨⟨f, hf⟩, hrest⟩ := List.forall_mem_cons.mp hmembers
    obtain ⟨items, hitems, hunmarked⟩ := ih hrest
    exact ⟨⟨f.column, k.direction, false⟩ :: items, .cons ⟨⟨f, hf, rfl⟩, rfl⟩ hitems,
      List.forall_mem_cons.mpr ⟨rfl, hunmarked⟩⟩

/-- Marking the last column leaves columns and directions as they are. -/
theorem Metadata.Sorts.markLast (h : m.Sorts keys items) :
    m.Sorts keys (SortItem.markLast items) := by
  induction h with
  | nil => exact .nil
  | @cons k x keys items hx hrest ih =>
    cases hrest with
    | nil => exact .cons hx .nil
    | cons => exact .cons hx ih

/-- The columns of sort keys have the directions of the keys. -/
theorem Metadata.Sorts.directions_eq (h : m.Sorts keys items) :
    items.map SortItem.direction = keys.map SortKey.direction := by
  induction h with
  | nil => rfl
  | cons hx _ ih => rw [List.map_cons, List.map_cons, hx.2, ih]

/-- Once the last column is marked, nulls are last for all columns exactly when all keys before the
last ascend. -/
theorem Metadata.Sorts.forall_placesNullsLast_iff (h : m.Sorts keys items)
    (hunmarked : ∀ x ∈ items, x.marked = false) :
    (∀ x ∈ SortItem.markLast items, x.PlacesNullsLast) ↔
      ∀ k ∈ keys.dropLast, k.direction = .ascending := by
  rw [SortItem.forall_placesNullsLast_markLast_iff hunmarked,
    ← List.forall_mem_map (f := SortItem.direction) (P := (· = .ascending)),
    ← List.forall_mem_map (f := SortKey.direction) (P := (· = .ascending)), List.map_dropLast,
    List.map_dropLast, h.directions_eq]

/-- The written form of sort keys is a list without marks. -/
theorem Surroundings.orderText_of_sorts (d : Dialect) (hkeys : keys ≠ [])
    (h : m.Sorts keys items) (hunmarked : ∀ x ∈ items, x.marked = false) :
    (⟨m, d, ""⟩ : Surroundings).orderText keys = .ok (SortItem.list items) := by
  have htexts : keys.mapM (⟨m, d, ""⟩ : Surroundings).sortKeyText =
      .ok (items.map SortItem.text) := by
    rw [mapM_eq_ok_iff, List.forall₂_map_right_iff]
    clear hkeys
    induction h with
    | nil => exact .nil
    | @cons k x keys items hx _ ih =>
      obtain ⟨⟨f, hf, hcolumn⟩, hdirection⟩ := hx
      obtain ⟨hx, hrest⟩ := List.forall_mem_cons.mp hunmarked
      refine .cons ?_ (ih hrest)
      simp [sortKeyText, column, hf, Except.map, SortItem.text, SortItem.order, hcolumn, hdirection,
        hx]
  rw [orderText, if_neg (by simpa using hkeys), htexts]
  rfl

/-- The clause of Oracle that sorts by sort keys marks their last column. -/
theorem Dialect.orderClause_of_sorts (hkeys : keys ≠ []) (h : m.Sorts keys items)
    (hunmarked : ∀ x ∈ items, x.marked = false) :
    Dialect.oracle.orderClause (some (SortItem.list items)) =
      " ORDER BY " ++ Text.trim (SortItem.list (SortItem.markLast items)) := by
  have hsome : items ≠ [] := by
    rintro rfl
    cases h
    exact hkeys rfl
  have hpresent := Surroundings.presentOrder?_of_orderText
    (Surroundings.orderText_of_sorts .oracle hkeys h hunmarked)
  rw [← SortItem.trim_list_append_mark hsome hunmarked, orderClause, hpresent]
  exact String.append_assoc

/-- A query in an order is the query for the rows, sorted by the list. -/
theorem Statement.select_of_orderClause {list : String} {text : String}
    (hm : Metadata.ofMapping t.mapping = .ok m)
    (htext : (⟨m, .oracle, ""⟩ : Surroundings).orderText keys = .ok text)
    (hclause : Dialect.oracle.orderClause (some text) = " ORDER BY " ++ list)
    (c : Option Condition) (r : Except Fault Statement)
    (hr : t.Answers (select .oracle t c none) r) :
    t.Answers (select .oracle t c (some keys)) (r.map (·.sortedBy list)) := by
  obtain rfl := (Build.answers_select hm c none).iff_eq.mp hr
  refine (Build.answers_select hm c (some keys)).congr ?_
  have hkeys : Build.orderKeys? .oracle m (some keys) = .ok (some text) := by
    rw [Build.orderKeys?, htext]
    rfl
  rw [Build.draftSelect, Build.draftSelect, hkeys]
  cases (selectAll m m.selectFields).filteredBy .oracle m c with
  | error e => rfl
  | ok x =>
    show Except.ok ((x.thenText (Dialect.oracle.orderClause (some text))).statement .oracle) =
      .ok (((x.thenText (Dialect.oracle.orderClause none)).statement .oracle).sortedBy list)
    rw [hclause, Draft.statement_thenText, Draft.statement_thenText]
    simp [sortedBy, Dialect.orderClause, Dialect.presentOrder?, String.append_assoc]

/-- The text of Oracle for a page has the clause behind the query for the rows. -/
theorem Dialect.paginate_of_orderClause {list text : String}
    (hclause : Dialect.oracle.orderClause (some text) = " ORDER BY " ++ list)
    (inner : Statement) (start stop : Nat) :
    Dialect.paginate .oracle inner.text (some text) start stop =
      "SELECT * FROM (SELECT tt1.*, ROWNUM rn FROM (" ++ (inner.sortedBy list).text ++
        ") tt1 WHERE ROWNUM <= " ++ toString stop ++ ") tt2 WHERE rn > " ++ toString start := by
  show "SELECT * FROM (SELECT tt1.*, ROWNUM rn FROM (" ++ inner.text ++
    Dialect.oracle.orderClause (some text) ++ ") tt1 WHERE ROWNUM <= " ++ toString stop ++
      ") tt2 WHERE rn > " ++ toString start = _
  rw [hclause]
  simp only [Statement.sortedBy, String.append_assoc]

/-- The query of Oracle for a page is the one for the sorted query. -/
theorem Statement.pageRows_of_orderClause {list text : String}
    (hclause : Dialect.oracle.orderClause (some text) = " ORDER BY " ++ list)
    (inner : Statement) (w : Window) :
    inner.pageRows .oracle (some text) w = inner.sortedPage list w := by
  rw [pageRows, Dialect.paginate_of_orderClause hclause]
  rfl

namespace Session

open Operation

variable {σ α : Type} {g : Gateway σ} {o : Options} {c : Option Condition} {list text : String}

/-- A query whose parameters are those of a built query is handed over as it is. -/
theorem handedSorted_prepare {inner q : Statement} (hdialect : g.dialect = .oracle)
    (hinner : t.Answers (Statement.select .oracle t c none) (.ok inner))
    (hq : q = inner.sortedBy list ∨ (∃ w, q = inner.sortedPage list w) ∨ q = inner.pageCount) :
    HandedSorted t c list (prepare g.dialect q) := by
  have hparameters : q.parameters = inner.parameters := by
    rcases hq with rfl | ⟨w, rfl⟩ | rfl <;> rfl
  have hbuilt : t.Answers ((Build.select c none).statements .oracle t) (.ok [inner]) :=
    EntityType.answers_bind hinner fun s _ => EntityType.answers_pure [s]
  have hbound : q.IsBound g.dialect := by
    intro p hp
    rw [hparameters] at hp
    rw [hdialect]
    exact Build.isBound_of_answers hbuilt inner (List.mem_singleton_self _) p hp
  rw [prepare_eq_of_isBound hbound]
  exact ⟨inner, hinner, hq⟩

/-- An operation that reads in an order hands over queries that are sorted by the list. -/
theorem ReadsSorted.hands {x : Operation (σ × List CallRecord) α} (hdialect : g.dialect = .oracle)
    (hm : Metadata.ofMapping t.mapping = .ok m)
    (htext : (⟨m, .oracle, ""⟩ : Surroundings).orderText keys = .ok text)
    (hclause : Dialect.oracle.orderClause (some text) = " ORDER BY " ++ list)
    (h : ReadsSorted t c keys x) :
    x.Hands g o (·.Serves t) (HandedSorted t c list) fun _ => True := by
  have hengine : (⟨g.recorded, o⟩ : Session (σ × List CallRecord)).gateway.dialect = .oracle :=
    hdialect
  obtain ⟨r, hr⟩ : ∃ r, t.Answers (Statement.select .oracle t c none) r :=
    ⟨_, Build.answers_select hm c none⟩
  have hkeys : Build.orderKeys? .oracle m (some keys) = .ok (some text) := by
    rw [Build.orderKeys?, htext]
    rfl
  have hordered : (selectOrdered t c (some keys)).Offline ⟨g.recorded, o⟩ t fun query =>
      r = .ok query.1 ∧ query.2 = some text := by
    refine (offline_build (r := r >>= fun inner => .ok (inner, some text)) ?_).weaken ?_
    · rw [hengine]
      exact EntityType.answers_bind hr fun inner _ => EntityType.answers_bind
        ((Build.answers_orderText? hm (some keys)).congr hkeys) fun order _ =>
          EntityType.answers_pure (inner, order)
    · intro query hquery
      obtain ⟨inner, hinner, hquery⟩ := bind_eq_ok_iff.mp hquery
      cases hquery
      exact ⟨hinner, rfl⟩
  cases h with
  | selectWhere =>
    have hsorted := Statement.select_of_orderClause hm htext hclause c r hr
    rw [← hengine] at hsorted
    refine (offline_build hsorted).hands.bind fun q hq => ?_
    obtain ⟨inner, rfl, rfl⟩ := map_eq_ok_iff.mp hq
    exact hands_instances (serves_ofColumns t) _ (handedSorted_prepare hdialect hr (.inl rfl))
  | first =>
    refine hordered.hands.bind fun query hquery => ?_
    obtain ⟨rfl, hkeysText⟩ := hquery
    refine (hands_pageRows query.1 query.2 _).bind fun q hq => ?_
    rw [hdialect, hkeysText, Statement.pageRows_of_orderClause hclause] at hq
    exact (hands_instances (serves_ofColumns t) _
      (handedSorted_prepare hdialect hr (.inr (.inl ⟨_, hq⟩)))).bind fun _ _ => hands_pure trivial
  | selectPage index size =>
    refine hordered.hands.bind fun query hquery => ?_
    obtain ⟨rfl, hkeysText⟩ := hquery
    refine (hands_window _ _ index size
      (handedSorted_prepare hdialect hr (.inr (.inr rfl)))).bind fun w _ => ?_
    split
    · exact hands_pure trivial
    · refine (hands_pageRows query.1 query.2 w).bind fun q hq => ?_
      rw [hdialect, hkeysText, Statement.pageRows_of_orderClause hclause] at hq
      exact (hands_instances (serves_ofColumns t) _
        (handedSorted_prepare hdialect hr (.inr (.inl ⟨w, hq⟩)))).bind fun _ _ => hands_pure trivial

end Session

/-- Keys of known members are sorted by the list of their columns whose last one is marked. -/
theorem EntityType.emitsOrder_of_sorts (hm : Metadata.ofMapping t.mapping = .ok m)
    (hkeys : keys ≠ []) (h : m.Sorts keys items) (hunmarked : ∀ x ∈ items, x.marked = false) :
    t.EmitsOrder keys (Text.trim (SortItem.list (SortItem.markLast items))) := by
  have htext := Surroundings.orderText_of_sorts .oracle hkeys h hunmarked
  have hclause := Dialect.orderClause_of_sorts hkeys h hunmarked
  refine ⟨fun c r => Statement.select_of_orderClause hm htext hclause c r, ⟨_, ?_,
    Statement.pageRows_of_orderClause hclause⟩, ?_⟩
  · exact EntityType.answers_metadata_bind hm
      ((EntityType.answers_lift _).congr htext)
  · intro σ α g o st c x hdialect hserves hx
    exact (hx.hands hdialect hm htext hclause).handed hserves

end Emission

/-- Where the nulls of each sort key go on Oracle. For every valid type and every order by known
members there is one list by which queries and queries for pages are sorted. It has the columns of
the keys with their directions, and can be read in no other way. Only the last column is marked, so
nulls are last for the last key and for each key that ascends; they are last for all keys exactly
when all keys before the last ascend. -/
theorem order_places_nulls_last_iff {t : EntityType} {m : Metadata} {keys : List SortKey}
    (hm : Metadata.ofMapping t.mapping = .ok m) (hkeys : keys ≠ [])
    (hmembers : ∀ k ∈ keys, ∃ f, m.lookup k.member = .ok f) :
    ∃ (list : String) (items : List SortItem), t.EmitsOrder keys list ∧ m.Sorts keys items ∧
      (∀ others : List SortItem, others.map SortItem.column = items.map SortItem.column →
        (list = Text.trim (SortItem.list others) ↔ others = items)) ∧
      (∀ (i : Nat) (k : SortKey) (x : SortItem), keys[i]? = some k → items[i]? = some x →
        (x.marked = true ↔ i + 1 = keys.length) ∧
        (x.PlacesNullsLast ↔ i + 1 = keys.length ∨ k.direction = .ascending)) ∧
      ((∀ x ∈ items, x.PlacesNullsLast) ↔ ∀ k ∈ keys.dropLast, k.direction = .ascending) := by
  obtain ⟨plain, hplain, hunmarked⟩ := Metadata.exists_sorts hmembers
  refine ⟨_, SortItem.markLast plain, EntityType.emitsOrder_of_sorts hm hkeys hplain hunmarked,
    hplain.markLast, fun others hcolumns => ?_, fun i k x hk hx => ?_,
    hplain.forall_placesNullsLast_iff hunmarked⟩
  · exact ⟨fun h => SortItem.trim_list_inj hcolumns h.symm, fun h => by rw [h]⟩
  · have hdirection := congrArg (·[i]?) hplain.markLast.directions_eq
    simp only [List.getElem?_map, hk, hx, Option.map_some, Option.some.injEq] at hdirection
    rw [SortItem.placesNullsLast_markLast_iff hunmarked hx,
      SortItem.marked_markLast_iff hunmarked hx, hplain.length_eq, hdirection]
    exact ⟨Iff.rfl, Iff.rfl⟩

section Parts

/-- The metadata of parts. -/
def partsMetadata : Metadata :=
  ⟨"Part", "PARTS", EntityType.parts.mapping.members⟩

/-- Parts by their size, the greatest first, and those of one size by their number. -/
def partsBySize : List SortKey :=
  [⟨"size", .descending⟩, ⟨"id", .ascending⟩]

/-- The metadata of parts is that of their mapping. -/
theorem ofMapping_parts : Metadata.ofMapping EntityType.parts.mapping = .ok partsMetadata := by
  decide +kernel

/-- The size of a part is a known member. -/
theorem lookup_parts_size :
    partsMetadata.lookup "size" = .ok ⟨"size", "SIZE", .column, .optional .int64⟩ := by
  decide +kernel

/-- The number of a part is a known member. -/
theorem lookup_parts_id : partsMetadata.lookup "id" = .ok ⟨"id", "ID", .key, .required .int64⟩ := by
  decide +kernel

/-- Parts are sorted by known members. -/
theorem exists_lookup_of_mem_partsBySize :
    ∀ k ∈ partsBySize, ∃ f, partsMetadata.lookup k.member = .ok f := by
  rw [partsBySize, List.forall_mem_cons, List.forall_mem_singleton]
  exact ⟨⟨_, lookup_parts_size⟩, _, lookup_parts_id⟩

/-- For parts by their size the mark goes to the number, and the nulls of the size come first. -/
theorem order_places_nulls_last_iff_parts :
    EntityType.parts.EmitsOrder partsBySize "SIZE DESC, ID ASC NULLS LAST" ∧
      ¬SortItem.PlacesNullsLast ⟨"SIZE", .descending, false⟩ := by
  obtain ⟨list, items, hemits, hsorts, hread, hplaces, -⟩ :=
    order_places_nulls_last_iff ofMapping_parts (by simp [partsBySize])
      exists_lookup_of_mem_partsBySize
  have hlist := (hread items rfl).mpr rfl
  obtain _ | ⟨⟨⟨_, hf, hcolumn⟩, hdirection⟩, hrest⟩ := hsorts
  obtain _ | ⟨⟨⟨_, hf', hcolumn'⟩, hdirection'⟩, _ | _⟩ := hrest
  cases lookup_parts_size.symm.trans hf
  cases lookup_parts_id.symm.trans hf'
  rename_i x y
  obtain ⟨column, direction, marked⟩ := x
  obtain ⟨column', direction', marked'⟩ := y
  cases hcolumn
  cases hcolumn'
  cases hdirection
  cases hdirection'
  obtain ⟨hmarked, hnulls⟩ := hplaces 0 _ _ rfl rfl
  obtain ⟨hmarked', -⟩ := hplaces 1 _ _ rfl rfl
  obtain rfl : marked = false := by simpa [partsBySize] using hmarked
  obtain rfl : marked' = true := by simpa [partsBySize] using hmarked'
  have htext : Text.trim (SortItem.list [⟨"SIZE", .descending, false⟩, ⟨"ID", .ascending, true⟩]) =
      "SIZE DESC, ID ASC NULLS LAST" := by decide +kernel
  refine ⟨htext ▸ hlist ▸ hemits, fun h => ?_⟩
  rcases hnulls.mp h with hlast | hascending
  · cases hlast
  · cases hascending

/-- Not every key has its nulls last: a key that descends before the last has not. -/
theorem descending_key_places_nulls_first :
    ¬∀ (t : EntityType) (m : Metadata) (keys : List SortKey) (list : String)
      (items : List SortItem), Metadata.ofMapping t.mapping = .ok m → keys ≠ [] →
        (∀ k ∈ keys, ∃ f, m.lookup k.member = .ok f) → t.EmitsOrder keys list →
          m.Sorts keys items → list = Text.trim (SortItem.list items) →
            ∀ x ∈ items, x.PlacesNullsLast := by
  intro hall
  have hkeys : partsBySize ≠ [] := by simp [partsBySize]
  obtain ⟨items, hsorts, hunmarked⟩ :=
    Metadata.exists_sorts exists_lookup_of_mem_partsBySize
  have hemits := EntityType.emitsOrder_of_sorts ofMapping_parts hkeys hsorts hunmarked
  have hplaces := hall _ _ _ _ _ ofMapping_parts hkeys exists_lookup_of_mem_partsBySize hemits
    hsorts.markLast rfl
  rw [hsorts.forall_placesNullsLast_iff hunmarked] at hplaces
  cases hplaces ⟨"size", .descending⟩ List.mem_cons_self

end Parts

end EntitySql
