import EntitySql.Proofs.Text.Digits
import EntitySql.Statement.Page
import Mathlib.Algebra.Ring.Int.Defs

/-!
# Pages make up the rows

Each engine selects the rows of a page by two numbers that its page query ends with, and
each reads them in its own way: as bounds on the numbers of the rows, or as rows to skip
and rows to keep. Whatever the engine, the rows kept are those between the start and the
stop of the page, and the pages in their order are the rows.
-/

namespace EntitySql

variable {α : Type}

namespace Dialect

/-- What is written in front of each of the two numbers that a page query ends with. -/
def pageWords : Dialect → String × String
  | .sqlServer => (") tt1) tt2 WHERE rn > ", " AND rn <= ")
  | .oracle => (") tt1 WHERE ROWNUM <= ", ") tt2 WHERE rn > ")
  | .mySql => (" LIMIT ", ", ")
  | .postgreSql | .sqlite => (" LIMIT ", " OFFSET ")

/-- The rows that an engine keeps by the two numbers of a page query. Rows are numbered from one
on, by two engines in a column that the query compares. -/
def keptRows (d : Dialect) (first second : Nat) (rows : List α) : List α :=
  match d with
  | .sqlServer =>
    ((rows.zipIdx 1).filter fun row => first < row.2 && row.2 ≤ second).map Prod.fst
  | .oracle =>
    (((rows.zipIdx 1).filter fun row => row.2 ≤ first).filter fun row => second < row.2).map
      Prod.fst
  | .mySql => (rows.drop first).take second
  | .postgreSql | .sqlite => (rows.drop second).take first

/-- A page query keeps certain rows of those of its inner query, by the numbers it ends with. -/
def Keeps (d : Dialect) (text : String) (rows kept : List α) : Prop :=
  ∃ (head : String) (first second : Nat),
    text = head ++ d.pageWords.1 ++ toString first ++ d.pageWords.2 ++ toString second ∧
      kept = d.keptRows first second rows

/-- The two numbers of a page, in the order of the text. -/
def pageNumbers (d : Dialect) (start stop : Nat) : Nat × Nat :=
  match d with
  | .sqlServer => (start, stop)
  | .oracle => (stop, start)
  | .mySql => (start, stop - start)
  | .postgreSql | .sqlite => (stop - start, start)

/-- A page query ends with the two numbers of the page. -/
theorem exists_paginate_eq (d : Dialect) (inner : String) (order : Option String)
    (start stop : Nat) : ∃ head, d.paginate inner order start stop =
      head ++ d.pageWords.1 ++ toString (d.pageNumbers start stop).1 ++ d.pageWords.2 ++
        toString (d.pageNumbers start stop).2 := by
  cases d with
  | sqlServer =>
    exact ⟨"SELECT * FROM (SELECT ROW_NUMBER() OVER(ORDER BY " ++
      (presentOrder? order).getD "(SELECT 0)" ++ ") rn, tt1.* FROM (" ++ inner, rfl⟩
  | oracle =>
    exact ⟨"SELECT * FROM (SELECT tt1.*, ROWNUM rn FROM (" ++ inner ++
      oracle.orderClause order, rfl⟩
  | mySql | postgreSql | sqlite => exact ⟨inner ++ orderClause _ order, rfl⟩

/-- No digit stands before either of the two numbers. -/
theorem digit?_getLast?_pageWords (d : Dialect) (s : String) :
    (∀ c ∈ (s ++ d.pageWords.1).toList.getLast?, Text.digit? c = none) ∧
      ∀ c ∈ (s ++ d.pageWords.2).toList.getLast?, Text.digit? c = none := by
  have hwords : ∃ c₁ c₂, d.pageWords.1.toList.getLast? = some c₁ ∧ Text.digit? c₁ = none ∧
      d.pageWords.2.toList.getLast? = some c₂ ∧ Text.digit? c₂ = none := by
    cases d <;> exact ⟨' ', ' ', by decide⟩
  obtain ⟨c₁, c₂, h₁, hc₁, h₂, hc₂⟩ := hwords
  simp [String.toList_append, List.getLast?_append, h₁, h₂, hc₁, hc₂]

/-- The numbers are read off the text of a page query in one way only. -/
theorem keeps_iff (d : Dialect) (head : String) (first second : Nat) (rows kept : List α) :
    d.Keeps (head ++ d.pageWords.1 ++ toString first ++ d.pageWords.2 ++ toString second) rows
      kept ↔ kept = d.keptRows first second rows := by
  refine ⟨?_, fun hkept => ⟨head, first, second, rfl, hkept⟩⟩
  rintro ⟨head', first', second', htext, rfl⟩
  obtain ⟨hfront, rfl⟩ := Text.append_toString_inj (d.digit?_getLast?_pageWords _).2
    (d.digit?_getLast?_pageWords _).2 htext
  obtain ⟨-, rfl⟩ := Text.append_toString_inj (d.digit?_getLast?_pageWords _).1
    (d.digit?_getLast?_pageWords _).1 ((String.append_left_inj _).mp hfront)
  rfl

/-- Of numbered rows, those with numbers between two bounds are the ones taken up to the upper
bound and dropped up to the lower one. -/
theorem numbered_between (rows : List α) (n lower upper : Nat) :
    ((rows.zipIdx (n + 1)).filter fun row => lower < row.2 && row.2 ≤ upper).map Prod.fst =
      (rows.take (upper - n)).drop (lower - n) := by
  induction rows generalizing n with
  | nil => simp
  | cons x rows ih =>
    have hrest := ih (n + 1)
    rw [List.zipIdx_cons, List.filter_cons]
    rcases Nat.lt_or_ge n upper with hupper | hupper
    · rw [show upper - n = upper - (n + 1) + 1 by omega, List.take_succ_cons]
      rcases Nat.lt_or_ge n lower with hlower | hlower
      · have hout : ¬(lower < n + 1 && n + 1 ≤ upper) = true := by simp; omega
        rw [if_neg hout, hrest, show lower - n = lower - (n + 1) + 1 by omega,
          List.drop_succ_cons]
      · have hin : (lower < n + 1 && n + 1 ≤ upper) = true := by simp; omega
        rw [if_pos hin, List.map_cons, hrest, Nat.sub_eq_zero_of_le hlower,
          Nat.sub_eq_zero_of_le (Nat.le_succ_of_le hlower), List.drop_zero, List.drop_zero]
    · have hout : ¬(lower < n + 1 && n + 1 ≤ upper) = true := by simp; omega
      rw [if_neg hout, hrest, Nat.sub_eq_zero_of_le hupper,
        Nat.sub_eq_zero_of_le (Nat.le_succ_of_le hupper), List.take_zero, List.take_zero,
        List.drop_nil, List.drop_nil]

/-- Every engine keeps the rows after the first `start` and up to the row `stop`. -/
theorem keptRows_pageNumbers (d : Dialect) (start stop : Nat) (rows : List α) :
    d.keptRows (d.pageNumbers start stop).1 (d.pageNumbers start stop).2 rows =
      (rows.drop start).take (stop - start) := by
  have hnumbered := numbered_between rows 0 start stop
  rw [Nat.sub_zero, Nat.sub_zero, List.drop_take] at hnumbered
  cases d with
  | sqlServer => exact hnumbered
  | oracle =>
    simp only [pageNumbers, keptRows, List.filter_filter]
    exact hnumbered
  | mySql | postgreSql | sqlite => rfl

/-- The page query of an engine keeps the rows after the first `start` and up to the row `stop`,
and no others. -/
theorem keeps_paginate_iff (d : Dialect) (inner : String) (order : Option String)
    (start stop : Nat) (rows kept : List α) :
    d.Keeps (d.paginate inner order start stop) rows kept ↔
      kept = (rows.drop start).take (stop - start) := by
  obtain ⟨head, htext⟩ := d.exists_paginate_eq inner order start stop
  rw [htext, keeps_iff, keptRows_pageNumbers]

end Dialect

namespace Window

/-- A page has room for at least one row. -/
theorem sizeOf_pos (request : Int) (default : Nat) : 0 < sizeOf request default := by
  unfold sizeOf
  split <;> omega

/-- A size that is at least one is taken as it is. -/
theorem sizeOf_of_pos {size : Nat} (hsize : 0 < size) (default : Nat) :
    sizeOf size default = size := by
  rw [sizeOf, if_neg (by omega), Int.toNat_natCast]

/-- How many pages of a size there are: as many as it takes to hold the rows. -/
def pagesOf (records size : Nat) : Nat :=
  (records + size - 1) / size

/-- The pages hold all rows, and they would not without the last of them. -/
theorem pagesOf_bounds (records : Nat) {size : Nat} (hsize : 0 < size) :
    records ≤ pagesOf records size * size ∧ pagesOf records size * size < records + size := by
  have hdiv := Nat.div_add_mod (records + size - 1) size
  have hmod := Nat.mod_lt (records + size - 1) hsize
  rw [Nat.mul_comm] at hdiv
  unfold pagesOf
  omega

/-- A page that has a successor, or is one, starts before the rows end. -/
theorem mul_lt_of_lt_pagesOf {records size k : Nat} (hsize : 0 < size)
    (hk : k < pagesOf records size) : k * size < records := by
  have hlt := (pagesOf_bounds records hsize).2
  have hle := Nat.mul_le_mul_right size (Nat.succ_le_of_lt hk)
  rw [Nat.succ_mul] at hle
  omega

/-- There are pages when there are rows. -/
theorem pagesOf_pos {records size : Nat} (hsize : 0 < size) (hrecords : 0 < records) :
    0 < pagesOf records size := by
  have hle := (pagesOf_bounds records hsize).1
  rcases Nat.eq_zero_or_pos (pagesOf records size) with hzero | hpos
  · rw [hzero, Nat.zero_mul] at hle
    omega
  · exact hpos

variable (records : Nat) (index request : Int) (default : Nat)

/-- A window is at one of the pages, or at the first one if there are none. -/
theorem pageIndex_bounds :
    1 ≤ (ofRequest records index request default).pageIndex ∧
      (ofRequest records index request default).pageIndex ≤
        max (pagesOf records (sizeOf request default)) 1 := by
  simp only [ofRequest, pagesOf]
  omega

/-- A window ends a page after its start. -/
theorem start_add_pageSize :
    (ofRequest records index request default).start +
      (ofRequest records index request default).pageSize =
        (ofRequest records index request default).stop := by
  obtain ⟨k, hk⟩ := Nat.exists_eq_add_one.mpr (pageIndex_bounds records index request default).1
  show ((ofRequest records index request default).pageIndex - 1) * sizeOf request default +
    sizeOf request default =
      (ofRequest records index request default).pageIndex * sizeOf request default
  rw [hk, Nat.add_sub_cancel, Nat.succ_mul]

/-- A window is as long as a page. -/
theorem stop_sub_start :
    (ofRequest records index request default).stop -
      (ofRequest records index request default).start = sizeOf request default :=
  Nat.sub_eq_of_eq_add' (start_add_pageSize records index request default).symm

/-- A window starts before the rows end. -/
theorem start_lt (hrecords : 0 < records) :
    (ofRequest records index request default).start < records := by
  have hsize := sizeOf_pos request default
  have hpages := pagesOf_pos hsize hrecords
  obtain ⟨hfirst, hlast⟩ := pageIndex_bounds records index request default
  have hbefore : (ofRequest records index request default).pageIndex - 1 <
      pagesOf records (sizeOf request default) := by omega
  exact mul_lt_of_lt_pagesOf hsize hbefore

/-- The figures of a page that asks for its own number and size are its figures. -/
theorem ofRequest_again (again : Nat) :
    ofRequest records (ofRequest records index request default).pageIndex
      (ofRequest records index request default).pageSize again =
        ofRequest records index request default := by
  have hsize := sizeOf_of_pos (sizeOf_pos request default) again
  have hindex (count : Nat) :
      min (max ((min (max index 1).toNat (max count 1) : Nat) : Int) 1).toNat (max count 1) =
        min (max index 1).toNat (max count 1) := by omega
  simp only [ofRequest, hsize, hindex]

/-- The size of a page fits in 64 bits, if a requested size fits with its sign and the default
without one. -/
theorem sizeOf_lt {request : Int} {default : Nat} (hrequest : request < 2 ^ 63)
    (hdefault : default < 2 ^ 64) : sizeOf request default < 2 ^ 64 := by
  unfold sizeOf
  split <;> omega

/-- The last row number of a page fits in 64 bits, for as many rows as a signed count has and any
size that fits. -/
theorem stop_lt (hrecords : records < 2 ^ 63) (hrequest : request < 2 ^ 63)
    (hdefault : default < 2 ^ 64) : (ofRequest records index request default).stop < 2 ^ 64 := by
  have hindex := (pageIndex_bounds records index request default).2
  have hsize := sizeOf_lt hrequest hdefault
  have hbounds := pagesOf_bounds records (sizeOf_pos request default)
  have hstop : (ofRequest records index request default).stop ≤
      max (pagesOf records (sizeOf request default)) 1 * sizeOf request default :=
    Nat.mul_le_mul_right _ hindex
  rcases Nat.lt_or_ge 1 (pagesOf records (sizeOf request default)) with hmany | hone
  · -- Of two pages or more, each is shorter than all the rows.
    have htwo := Nat.mul_le_mul_right (sizeOf request default) hmany
    rw [Nat.max_eq_left (Nat.le_of_lt hmany)] at hstop
    omega
  · rw [Nat.max_eq_right hone, Nat.one_mul] at hstop
    omega

end Window

/-- Pages of a size, numbered from one on, make up the rows: each is full but the last, which is
not empty if there are rows. -/
structure Tiles (rows : List α) (size count : Nat) (page : Nat → List α) : Prop where
  /-- The pages in their order are the rows in theirs. -/
  whole : (List.range count).flatMap (fun k => page (k + 1)) = rows
  full : ∀ k, 0 < k → k < count → (page k).length = size
  last : rows ≠ [] → page count ≠ [] ∧ (page count).length ≤ size

/-- The rows of a page. -/
def pageOf (rows : List α) (size k : Nat) : List α :=
  (rows.drop ((k - 1) * size)).take size

/-- The first pages are the first rows. -/
theorem flatMap_pageOf (rows : List α) (size count : Nat) :
    (List.range count).flatMap (fun k => pageOf rows size (k + 1)) = rows.take (count * size) := by
  induction count with
  | zero => simp
  | succ count ih =>
    rw [List.range_succ, List.flatMap_append, ih, Nat.succ_mul, List.take_add]
    simp [pageOf]

/-- The length of a page is its size or what is left of the rows. -/
theorem length_pageOf (rows : List α) (size k : Nat) :
    (pageOf rows size k).length = min size (rows.length - (k - 1) * size) := by
  rw [pageOf, List.length_take, List.length_drop]

/-- The pages of a size make up the rows. -/
theorem tiles_pageOf (rows : List α) {size : Nat} (hsize : 0 < size) :
    Tiles rows size (Window.pagesOf rows.length size) (pageOf rows size) where
  whole := by
    rw [flatMap_pageOf]
    exact List.take_of_length_le (Window.pagesOf_bounds rows.length hsize).1
  full k hk hlast := by
    have hnext := Window.mul_lt_of_lt_pagesOf hsize hlast
    obtain ⟨k, rfl⟩ := Nat.exists_eq_add_one.mpr hk
    rw [Nat.succ_mul] at hnext
    rw [length_pageOf, Nat.add_sub_cancel]
    omega
  last hrows := by
    have hlength : 0 < rows.length := List.length_pos_iff.mpr hrows
    have hpages := Window.pagesOf_pos hsize hlength
    have hstart := Window.mul_lt_of_lt_pagesOf hsize (Nat.sub_one_lt_of_lt hpages)
    have hlast := length_pageOf rows size (Window.pagesOf rows.length size)
    exact ⟨List.length_pos_iff.mp (by omega), by omega⟩

/-- The page query of every engine keeps the rows of the page with the number of the window. -/
theorem keeps_pageRows_iff (d : Dialect) (rows kept : List α) (index request : Int)
    (default : Nat) (inner : Statement) (order : Option String) :
    d.Keeps (Statement.pageRows d inner order
      (Window.ofRequest rows.length index request default)).text rows kept ↔
        kept = pageOf rows (Window.sizeOf request default)
          (Window.ofRequest rows.length index request default).pageIndex := by
  have hkeeps := d.keeps_paginate_iff inner.text order
    (Window.ofRequest rows.length index request default).start
    (Window.ofRequest rows.length index request default).stop rows kept
  rw [Window.stop_sub_start] at hkeeps
  exact hkeeps

/-- On every engine, the pages of a result are its rows. -/
theorem pages_tile_rows (rows : List α) (request : Int) (default : Nat) (inner : Statement)
    (order : Option String) :
    ∃ (count : Nat) (page : Nat → List α),
      Tiles rows (Window.sizeOf request default) count page ∧
      ∀ index : Int,
        let w := Window.ofRequest rows.length index request default
        w.pageCount = count ∧ w.pageSize = Window.sizeOf request default ∧
        (w.pageIndex : Int) = min (max index 1) (max count 1) ∧
        (∀ (d : Dialect) (kept : List α),
          d.Keeps (Statement.pageRows d inner order w).text rows kept ↔
            kept = page w.pageIndex) ∧
        (∀ again, Window.ofRequest rows.length w.pageIndex w.pageSize again = w) ∧
        (rows.length < 2 ^ 63 → request < 2 ^ 63 → default < 2 ^ 64 → w.stop < 2 ^ 64) := by
  refine ⟨_, _, tiles_pageOf rows (Window.sizeOf_pos request default), fun index => ?_⟩
  have hindex : ((Window.ofRequest rows.length index request default).pageIndex : Int) =
      min (max index 1)
        (max (Window.pagesOf rows.length (Window.sizeOf request default) : Nat) 1) := by
    simp only [Window.ofRequest, Window.pagesOf]
    omega
  refine ⟨rfl, rfl, hindex, fun d kept => ?_, fun again => ?_, ?_⟩
  · exact keeps_pageRows_iff d rows kept index request default inner order
  · exact Window.ofRequest_again rows.length index request default again
  · exact Window.stop_lt rows.length index request default

end EntitySql
