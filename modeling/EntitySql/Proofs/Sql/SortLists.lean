import EntitySql.Proofs.Text.Digits
import EntitySql.Query.Expression

/-!
# Lists that sort

A list that sorts has columns with their directions, and behind some of them the mark that
puts nulls last. The mark belongs to the one column that it follows. A list is read in one
way only once its columns are known, so it can be told of each column where its nulls go.
-/

namespace EntitySql

/-- The first letter of a word tells the direction. -/
theorem Direction.word_append_inj {a b : Direction} {s u : String} (h : a.word ++ s = b.word ++ u) :
    a = b ∧ s = u := by
  have hchars := congrArg String.toList h
  cases a <;> cases b
  case ascending.ascending => exact ⟨rfl, (String.append_right_inj "ASC").mp h⟩
  case descending.descending => exact ⟨rfl, (String.append_right_inj "DESC").mp h⟩
  all_goals simp [Direction.word] at hchars

/-- One column of a list that sorts. -/
structure SortItem where
  column : String
  direction : Direction
  /-- Whether the mark that puts nulls last follows directly. -/
  marked : Bool
  deriving DecidableEq, Repr

namespace SortItem

variable {x y : SortItem} {xs ys : List SortItem}

/-- The mark that puts the nulls of one column last. -/
def mark : String := " NULLS LAST"

/-- What is written behind a column. -/
def order (x : SortItem) : String :=
  x.direction.word ++ if x.marked then mark else ""

/-- A column in writing. -/
def text (x : SortItem) : String :=
  x.column ++ " " ++ x.order

/-- A list in writing. -/
def list (xs : List SortItem) : String :=
  ", ".intercalate (xs.map text)

/-- Where the nulls of a column go: the mark puts them last, and without it they are last in the
ascending and first in the descending direction. -/
def PlacesNullsLast (x : SortItem) : Prop :=
  x.marked = true ∨ x.direction = .ascending

/-- Columns further on in a list. -/
def further (xs : List SortItem) : String :=
  match xs with
  | [] => ""
  | x :: xs => ", " ++ list (x :: xs)

/-- Columns further on are separated from what stands before them. -/
theorem further_of_ne_nil (h : xs ≠ []) : further xs = ", " ++ list xs := by
  obtain ⟨x, xs, rfl⟩ := List.exists_cons_of_ne_nil h
  rfl

/-- A list starts with its first column. -/
theorem list_cons (x : SortItem) (xs : List SortItem) :
    list (x :: xs) = x.column ++ " " ++ (x.order ++ further xs) := by
  cases xs with
  | nil => simp [list, further, text]
  | cons y ys => simp [list, further, text, String.append_assoc]

/-- What goes on in a list does not begin like the mark. -/
theorem further_ne_mark_append (xs : List SortItem) (s : String) : further xs ≠ mark ++ s := by
  intro h
  have hchars := congrArg String.toList h
  cases xs with
  | nil => simp [further, mark] at hchars
  | cons x xs => simp [further, mark] at hchars

/-- What is behind a column tells its direction, whether it is marked, and what follows. -/
theorem order_append_inj (h : x.order ++ further xs = y.order ++ further ys) :
    x.direction = y.direction ∧ x.marked = y.marked ∧ further xs = further ys := by
  obtain ⟨column, direction, marked⟩ := x
  obtain ⟨column', direction', marked'⟩ := y
  simp only [order, String.append_assoc] at h ⊢
  obtain ⟨rfl, h⟩ := Direction.word_append_inj h
  refine ⟨rfl, ?_⟩
  cases marked <;> cases marked'
  · exact ⟨rfl, h⟩
  · exact absurd h (further_ne_mark_append xs _)
  · exact absurd h.symm (further_ne_mark_append ys _)
  · exact ⟨rfl, (String.append_right_inj mark).mp h⟩

/-- A list is read in one way only, once its columns are known. -/
theorem list_inj (hcolumns : xs.map column = ys.map column) (h : list xs = list ys) : xs = ys := by
  induction xs generalizing ys with
  | nil => exact (List.map_eq_nil_iff.mp hcolumns.symm).symm
  | cons x xs ih =>
    cases ys with
    | nil => cases hcolumns
    | cons y ys =>
      obtain ⟨hcolumn, hrests⟩ := List.cons.inj hcolumns
      rw [list_cons, list_cons, hcolumn, String.append_right_inj] at h
      obtain ⟨hdirection, hmarked, hfurther⟩ := order_append_inj h
      have hrest : list xs = list ys := by
        by_cases hnil : xs = []
        · subst hnil
          rw [List.map_eq_nil_iff.mp hrests.symm]
        · have hnil' : ys ≠ [] := by
            rintro rfl
            exact hnil (List.map_eq_nil_iff.mp hrests)
          rw [further_of_ne_nil hnil, further_of_ne_nil hnil'] at hfurther
          exact (String.append_right_inj ", ").mp hfurther
      obtain ⟨column, direction, marked⟩ := x
      obtain ⟨column', direction', marked'⟩ := y
      obtain ⟨rfl, rfl, rfl⟩ : column = column' ∧ direction = direction' ∧ marked = marked' :=
        ⟨hcolumn, hdirection, hmarked⟩
      rw [ih hrests hrest]

/-- What is behind a column starts with a letter. -/
theorem isBlank_head_order (x : SortItem) (s : String) :
    ∀ c ∈ (x.order ++ s).toList.head?, Text.isBlank c = false := by
  obtain ⟨column, direction, marked⟩ := x
  intro c hc
  cases direction <;> simp [order, Direction.word] at hc <;> subst hc <;> decide

/-- A list ends with a letter. -/
theorem isBlank_last_order (x : SortItem) (xs : List SortItem) :
    ∀ c ∈ (x.order ++ further xs).toList.getLast?, Text.isBlank c = false := by
  induction xs generalizing x with
  | nil =>
    obtain ⟨column, direction, marked⟩ := x
    intro c hc
    cases direction <;> cases marked <;> simp [order, further, mark, Direction.word] at hc <;>
      subst hc <;> decide
  | cons y xs ih =>
    have hsome : (y.order ++ further xs).toList ≠ [] := by
      obtain ⟨column, direction, marked⟩ := y
      cases direction <;> simp [order, Direction.word]
    rw [further, list_cons, ← String.append_assoc, ← String.append_assoc, String.toList_append,
      List.getLast?_append_of_ne_nil _ hsome]
    exact ih y

/-- Trimming a list drops white space in front of its first column. -/
theorem trim_list_cons (x : SortItem) (xs : List SortItem) :
    Text.trim (list (x :: xs)) =
      String.ofList ((x.column ++ " ").toList.dropWhile Text.isBlank) ++
        (x.order ++ further xs) := by
  have hsome : x.order ++ further xs ≠ "" := by
    obtain ⟨column, direction, marked⟩ := x
    cases direction <;> simp [order, Direction.word]
  rw [list_cons, Text.trim_append hsome (isBlank_head_order x _) (isBlank_last_order x xs)]

/-- A list without white space around it is read in one way only, once its columns are known. -/
theorem trim_list_inj (hcolumns : xs.map column = ys.map column)
    (h : Text.trim (list xs) = Text.trim (list ys)) : xs = ys := by
  refine list_inj hcolumns ?_
  cases xs with
  | nil =>
    rw [List.map_eq_nil_iff.mp hcolumns.symm]
  | cons x xs =>
    cases ys with
    | nil => cases hcolumns
    | cons y ys =>
      have hcolumn : x.column = y.column := (List.cons.inj hcolumns).1
      rw [trim_list_cons, trim_list_cons, hcolumn, String.append_right_inj] at h
      rw [list_cons, list_cons, hcolumn, h]

/-- A list whose last column is marked. -/
def markLast : List SortItem → List SortItem
  | [] => []
  | [x] => [{ x with marked := true }]
  | x :: y :: rest => x :: markLast (y :: rest)

/-- Marking the last column keeps the columns. -/
theorem map_column_markLast (xs : List SortItem) : (markLast xs).map column = xs.map column := by
  fun_induction markLast xs with
  | case1 | case2 => rfl
  | case3 x y rest ih => rw [List.map_cons, ih, ← List.map_cons]

/-- Only the last column is marked. -/
theorem getElem?_markLast (xs : List SortItem) (i : Nat) :
    (markLast xs)[i]? =
      xs[i]?.map fun x => if i + 1 = xs.length then { x with marked := true } else x := by
  fun_induction markLast xs generalizing i with
  | case1 => rfl
  | case2 x => cases i <;> simp
  | case3 x y rest ih => cases i <;> simp [ih]

/-- The mark behind a list is the mark of its last column. -/
theorem list_markLast (hsome : xs ≠ []) (h : ∀ x ∈ xs, x.marked = false) :
    list (markLast xs) = list xs ++ mark := by
  fun_induction markLast xs with
  | case1 => exact absurd rfl hsome
  | case2 x =>
    have hx : x.marked = false := h x List.mem_cons_self
    simp [list, text, order, hx, String.append_assoc]
  | case3 x y rest ih =>
    have hrest := ih (by simp) fun z hz => h z (List.mem_cons_of_mem _ hz)
    have hmarked : markLast (y :: rest) ≠ [] := fun hnil => by
      simpa [hnil] using map_column_markLast (y :: rest)
    rw [list_cons, list_cons, further_of_ne_nil hmarked, further_of_ne_nil (by simp), hrest]
    simp only [String.append_assoc]

/-- The mark behind a list without white space around it is the mark of its last column. -/
theorem trim_list_append_mark (hsome : xs ≠ []) (h : ∀ x ∈ xs, x.marked = false) :
    Text.trim (list xs) ++ mark = Text.trim (list (markLast xs)) := by
  have hlist := list_markLast hsome h
  have hcolumns := map_column_markLast xs
  obtain ⟨x, rest, rfl⟩ := List.exists_cons_of_ne_nil hsome
  cases hmarked : markLast (x :: rest) with
  | nil =>
    rw [hmarked] at hcolumns
    cases hcolumns
  | cons x' rest' =>
    rw [hmarked] at hcolumns hlist
    have hcolumn : x'.column = x.column := (List.cons.inj hcolumns).1
    have hbehind : x'.order ++ further rest' = x.order ++ further rest ++ mark := by
      rw [list_cons, list_cons, hcolumn] at hlist
      exact (String.append_right_inj (x.column ++ " ")).mp (hlist.trans String.append_assoc)
    rw [trim_list_cons, trim_list_cons, hcolumn, hbehind, String.append_assoc]

/-- In a list whose last column is marked, no other column is. -/
theorem marked_markLast_iff {i : Nat} (h : ∀ x ∈ xs, x.marked = false)
    (hx : (markLast xs)[i]? = some x) : x.marked = true ↔ i + 1 = xs.length := by
  rw [getElem?_markLast] at hx
  obtain ⟨y, hy, rfl⟩ := Option.map_eq_some_iff.mp hx
  have hunmarked := h y (List.mem_of_getElem? hy)
  by_cases hlast : i + 1 = xs.length <;> simp [hlast, hunmarked]

/-- In a list whose last column is marked, nulls are last for this column and for those that
ascend. -/
theorem placesNullsLast_markLast_iff {i : Nat} (h : ∀ x ∈ xs, x.marked = false)
    (hx : (markLast xs)[i]? = some x) :
    x.PlacesNullsLast ↔ i + 1 = xs.length ∨ x.direction = .ascending := by
  rw [PlacesNullsLast, marked_markLast_iff h hx]

/-- In a list whose last column is marked, nulls are last for all columns exactly when all columns
before the last ascend. -/
theorem forall_placesNullsLast_markLast_iff (h : ∀ x ∈ xs, x.marked = false) :
    (∀ x ∈ markLast xs, x.PlacesNullsLast) ↔ ∀ x ∈ xs.dropLast, x.direction = .ascending := by
  fun_induction markLast xs with
  | case1 => simp
  | case2 x => simp [PlacesNullsLast]
  | case3 x y rest ih =>
    have hx : x.marked = false := h x List.mem_cons_self
    rw [List.dropLast_cons_of_ne_nil (by simp), List.forall_mem_cons, List.forall_mem_cons,
      ih fun z hz => h z (List.mem_cons_of_mem _ hz)]
    simp [PlacesNullsLast, hx]

end SortItem

end EntitySql
