import EntitySql.Proofs.Grammar.Token

/-!
# The grammar of conditions

Trees of conditions and right sides, and when tokens read as a tree. `OR` binds loosest,
then `AND`, then `NOT`, then comparisons, `IS [NOT] NULL`, `LIKE` and `IN`, then sums and
then products; operators of one level go together from the left, and parentheses come
before everything.
-/

namespace EntitySql.Grammar

/-- An operator between two operands. -/
inductive Connective where
  | or
  | and
  | comparison (c : Comparison)
  | like
  | arithmetic (a : Arithmetic)
  deriving DecidableEq, Repr

namespace Connective

/-- How tightly an operator binds. -/
def level : Connective → Nat
  | .or => 1
  | .and => 2
  | .comparison _ => 4
  | .like => 4
  | .arithmetic .add => 5
  | .arithmetic .sub => 5
  | .arithmetic .mul => 6
  | .arithmetic .div => 6

/-- The token of an operator. -/
def token : Connective → Token
  | .or => .keyword .or
  | .and => .keyword .and
  | .comparison c => .comparison c
  | .like => .keyword .like
  | .arithmetic a => .arithmetic a

/-- Operators have different tokens. -/
theorem token_inj {op op' : Connective} (h : op.token = op'.token) : op = op' := by
  cases op <;> cases op' <;> cases h <;> rfl

end Connective

/-- The tree of a condition or a right side. -/
inductive Tree where
  | column (name : String)
  | number (digits : String)
  | parameter (name : String)
  | null
  | binary (left : Tree) (op : Connective) (right : Tree)
  | not (inner : Tree)
  | isNull (inner : Tree)
  | isNotNull (inner : Tree)
  | among (inner : Tree) (items : List Tree)
  deriving Repr

/-- The tree that a token is by itself. -/
def Token.leaf? : Token → Option Tree
  | .word name => some (.column name)
  | .number digits => some (.number digits)
  | .parameter name => some (.parameter name)
  | .keyword .null => some .null
  | _ => none

/-- Several lists of tokens with a comma between each two. -/
def commaJoin : List (List Token) → List Token
  | [] => []
  | [ts] => ts
  | ts :: us :: rest => ts ++ .comma :: commaJoin (us :: rest)

/-- Tokens that read as a tree at a level: no operator outside of parentheses binds less tightly
than the level says. -/
inductive Reads : Nat → List Token → Tree → Prop
  | leaf {tok : Token} {t : Tree} (h : tok.leaf? = some t) : Reads 7 [tok] t
  | group {ts : List Token} {t : Tree} (h : Reads 1 ts t) :
      Reads 7 (.opening :: (ts ++ [.closing])) t
  | tighter {n : Nat} {ts : List Token} {t : Tree} (hn : n < 7) (h : Reads (n + 1) ts t) :
      Reads n ts t
  | not {ts : List Token} {t : Tree} (h : Reads 3 ts t) : Reads 3 (.keyword .not :: ts) (.not t)
  | binary {n : Nat} {ls rs : List Token} {l r : Tree} (op : Connective) (hn : op.level = n)
      (hl : Reads n ls l) (hr : Reads (n + 1) rs r) :
      Reads n (ls ++ op.token :: rs) (.binary l op r)
  | isNull {ts : List Token} {t : Tree} (h : Reads 4 ts t) :
      Reads 4 (ts ++ [.keyword .is, .keyword .null]) (.isNull t)
  | isNotNull {ts : List Token} {t : Tree} (h : Reads 4 ts t) :
      Reads 4 (ts ++ [.keyword .is, .keyword .not, .keyword .null]) (.isNotNull t)
  | among {ts : List Token} {t : Tree} {items : List (List Token × Tree)} (h : Reads 4 ts t)
      (hne : items ≠ []) (hitems : ∀ item ∈ items, Reads 1 item.1 item.2) :
      Reads 4 (ts ++ .keyword .among :: .opening ::
        (commaJoin (items.map (·.1)) ++ [.closing])) (.among t (items.map (·.2)))

/-- Tokens that read as an assignment: a column, an equals sign and a right side. -/
inductive ReadsAssignment : List Token → String × Tree → Prop
  | assign {column : String} {ts : List Token} {t : Tree} (h : Reads 1 ts t) :
      ReadsAssignment (.word column :: .comparison .equal :: ts) (column, t)

/-- Tokens that read as assignments: one or more of them with commas between them. -/
def ReadsAssignments (ts : List Token) (as : List (String × Tree)) : Prop :=
  ∃ items : List (List Token × String × Tree), items ≠ [] ∧
    (∀ item ∈ items, ReadsAssignment item.1 item.2) ∧
    ts = commaJoin (items.map (·.1)) ∧ as = items.map (·.2)

/-- A text that reads as the tree of a condition. -/
def ReadsText (mark : Char) (text : String) (t : Tree) : Prop :=
  ∃ ts, lex mark text.toList = some ts ∧ Reads 1 ts t

/-- A text that reads as assignments. -/
def ReadsAssignmentsText (mark : Char) (text : String) (as : List (String × Tree)) : Prop :=
  ∃ ts, lex mark text.toList = some ts ∧ ReadsAssignments ts as

/-- What reads at a level reads at every looser one. -/
theorem Reads.loosen {m n : Nat} {ts : List Token} {t : Tree} (h : Reads n ts t) (hmn : m ≤ n)
    (hn : n ≤ 7) : Reads m ts t := by
  induction hmn with
  | refl => exact h
  | @step k hle ih => exact ih (.tighter (by omega) h) (by omega)

end EntitySql.Grammar
