import EntitySql.Proofs.Sql.Placeholder

/-!
# What engines write around a query

The texts in which the engines differ are plain, and none of them goes on with a name
that stands before it. A page of a query is the query with such texts around it.
-/

namespace EntitySql

/-- A plain text that may stand behind a placeholder: it does not go on with a name. -/
structure Dialect.IsTail (d : Dialect) (s : String) : Prop where
  plain : d.IsPlainText s
  stops : ∀ c ∈ s.toList.head?, Text.continuesName c = false

namespace Dialect

variable {d : Dialect} {a b : String}

/-- A plain text that begins with a character of no name. -/
theorem IsTail.of_cons {c : Char} {cs : List Char} (hplain : d.IsPlainText a)
    (hs : a.toList = c :: cs) (hc : Text.continuesName c = false) : d.IsTail a :=
  ⟨hplain, by simp [hs, hc]⟩

/-- No text at all. -/
theorem IsTail.empty (d : Dialect) : d.IsTail "" :=
  ⟨.of_all (by decide), by simp⟩

/-- Two such texts in a row. -/
theorem IsTail.append (ha : d.IsTail a) (hb : d.IsTail b) : d.IsTail (a ++ b) := by
  refine ⟨ha.plain.append hb.plain, fun c hc => ?_⟩
  rw [String.toList_append, List.head?_append] at hc
  rcases Option.or_eq_some_iff.mp hc with hc | ⟨_, hc⟩
  · exact ha.stops c hc
  · exact hb.stops c hc

/-- Any plain text may follow when there is something before it. -/
theorem IsTail.append_plain (ha : d.IsTail a) (hne : a.toList ≠ []) (hb : d.IsPlainText b) :
    d.IsTail (a ++ b) := by
  refine ⟨ha.plain.append hb, fun c hc => ?_⟩
  rw [String.toList_append, List.head?_append_of_ne_nil _ hne] at hc
  exact ha.stops c hc

/-- No name goes on with such a text. -/
theorem IsTail.closes (ha : d.IsTail a) : Phrase.Closes d [.text a] := by
  intro c hc
  rw [Phrase.render_cons, Phrase.render, List.map_nil, String.join_nil, String.append_empty] at hc
  exact ha.stops c hc

/-- The query for a generated key may stand behind a placeholder. -/
theorem isTail_identityQuery {table : String} (htable : d.IsPlainText table) :
    d.IsTail (d.identityQuery table) := by
  have hhead : d.IsTail "; SELECT " := .of_cons (.of_all (by decide)) rfl (by decide)
  have hquery {s : String} (hs : d.IsPlainText s) : d.IsTail ("; SELECT " ++ s) :=
    hhead.append_plain (by decide) hs
  cases d with
  | sqlServer => exact hquery (s := "SCOPE_IDENTITY()") (.of_all (by decide))
  | oracle =>
    exact (hquery htable).append_plain (by simp) (.of_all (by decide))
  | mySql => exact hquery (s := "LAST_INSERT_ID()") (.of_all (by decide))
  | postgreSql => exact hquery (s := "LASTVAL()") (.of_all (by decide))
  | sqlite => exact hquery (s := "last_insert_rowid()") (.of_all (by decide))

/-- Trimming keeps a text plain. -/
theorem IsPlainText.trim (ha : d.IsPlainText a) : d.IsPlainText (Text.trim a) := by
  intro c hc
  rw [Text.trim, String.toList_ofList, Text.trimmed, List.mem_reverse] at hc
  have hmem := (List.dropWhile_sublist _).subset hc
  exact ha c ((List.dropWhile_sublist _).subset (List.mem_reverse.mp hmem))

/-- The sort keys that are left after trimming are plain. -/
theorem isPlainText_presentOrder? {order : Option String}
    (h : ∀ k, order = some k → d.IsPlainText k) {keys : String}
    (hkeys : presentOrder? order = some keys) : d.IsPlainText keys := by
  obtain ⟨hmap, -⟩ := Option.filter_eq_some_iff.mp hkeys
  obtain ⟨k, hk, rfl⟩ := Option.map_eq_some_iff.mp hmap
  exact (h k hk).trim

/-- The clause that sorts may stand behind a placeholder. -/
theorem isTail_orderClause {order : Option String}
    (h : ∀ k, order = some k → d.IsPlainText k) : d.IsTail (d.orderClause order) := by
  unfold orderClause
  split
  · rename_i keys hkeys
    have hhead : d.IsTail " ORDER BY " := .of_cons (.of_all (by decide)) rfl (by decide)
    have hsuffix : d.IsPlainText d.orderSuffix := by cases d <;> exact .of_all (by decide)
    exact (hhead.append_plain (by decide) (isPlainText_presentOrder? h hkeys)).append_plain
      (by simp) hsuffix
  · exact .empty d

/-- A page of a query is the query with plain texts around it. -/
theorem exists_paginate {order : Option String} (h : ∀ k, order = some k → d.IsPlainText k)
    (start stop : Nat) : ∃ before after, d.IsPlainText before ∧ d.IsTail after ∧
      ∀ inner, d.paginate inner order start stop = before ++ inner ++ after := by
  have hstart := IsPlainText.toString (d := d) start
  have hstop := IsPlainText.toString (d := d) stop
  have hsize := IsPlainText.toString (d := d) (stop - start)
  have horder := isTail_orderClause h
  have hplain : d.IsPlainText "" := .of_all (by decide)
  have hlimit : d.IsTail " LIMIT " := .of_cons (.of_all (by decide)) rfl (by decide)
  cases d with
  | sqlServer =>
    have hkeys : sqlServer.IsPlainText ((presentOrder? order).getD "(SELECT 0)") := by
      cases hpresent : presentOrder? order with
      | none => exact .of_all (by decide)
      | some keys => exact isPlainText_presentOrder? h hpresent
    have hnumbered : sqlServer.IsPlainText "SELECT * FROM (SELECT ROW_NUMBER() OVER(ORDER BY " :=
      .of_all (by decide)
    have hfrom : sqlServer.IsPlainText ") rn, tt1.* FROM (" := .of_all (by decide)
    have hwhere : sqlServer.IsTail ") tt1) tt2 WHERE rn > " :=
      .of_cons (.of_all (by decide)) rfl (by decide)
    have hand : sqlServer.IsPlainText " AND rn <= " := .of_all (by decide)
    have hrange := hwhere.append_plain (by decide) ((hstart.append hand).append hstop)
    refine ⟨_, _, (hnumbered.append hkeys).append hfrom, hrange, fun inner => ?_⟩
    unfold paginate
    simp only [String.append_assoc]
  | oracle =>
    have hnumbered : oracle.IsPlainText "SELECT * FROM (SELECT tt1.*, ROWNUM rn FROM (" :=
      .of_all (by decide)
    have hrownum : oracle.IsTail ") tt1 WHERE ROWNUM <= " :=
      .of_cons (.of_all (by decide)) rfl (by decide)
    have hwhere : oracle.IsPlainText ") tt2 WHERE rn > " := .of_all (by decide)
    have hrange := hrownum.append_plain (by decide) ((hstop.append hwhere).append hstart)
    refine ⟨_, _, hnumbered, horder.append hrange, fun inner => ?_⟩
    unfold paginate
    simp only [String.append_assoc]
  | mySql =>
    have hcomma : mySql.IsPlainText ", " := .of_all (by decide)
    have hrange := hlimit.append_plain (by decide) ((hstart.append hcomma).append hsize)
    refine ⟨_, _, hplain, horder.append hrange, fun inner => ?_⟩
    unfold paginate
    simp only [String.append_assoc, String.empty_append]
  | postgreSql =>
    have hoffset : postgreSql.IsPlainText " OFFSET " := .of_all (by decide)
    have hrange := hlimit.append_plain (by decide) ((hsize.append hoffset).append hstart)
    refine ⟨_, _, hplain, horder.append hrange, fun inner => ?_⟩
    unfold paginate
    simp only [String.append_assoc, String.empty_append]
  | sqlite =>
    have hoffset : sqlite.IsPlainText " OFFSET " := .of_all (by decide)
    have hrange := hlimit.append_plain (by decide) ((hsize.append hoffset).append hstart)
    refine ⟨_, _, hplain, horder.append hrange, fun inner => ?_⟩
    unfold paginate
    simp only [String.append_assoc, String.empty_append]

end Dialect

end EntitySql
