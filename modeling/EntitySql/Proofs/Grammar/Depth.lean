import EntitySql.Proofs.Grammar.Tree
import Mathlib.Data.List.Basic

/-!
# Parentheses and the tokens outside of them

What reads as a tree has balanced parentheses, and outside of them no operator binds less
tightly than the level of the reading. So of the operators of one level outside of
parentheses the last can be told, and with it where the right operand begins.
-/

namespace EntitySql.Grammar

/-- How a token changes the depth of parentheses. -/
def Token.depth : Token → Int
  | .opening => 1
  | .closing => -1
  | _ => 0

/-- How tokens change the depth of parentheses. -/
def depth : List Token → Int
  | [] => 0
  | tok :: ts => tok.depth + depth ts

/-- The first token changes the depth first. -/
theorem depth_cons (tok : Token) (ts : List Token) : depth (tok :: ts) = tok.depth + depth ts :=
  rfl

/-- Tokens in a row change the depth one after the other. -/
theorem depth_append (as bs : List Token) : depth (as ++ bs) = depth as + depth bs := by
  induction as with
  | nil => simp [depth]
  | cons tok as ih =>
    rw [List.cons_append, depth_cons, depth_cons, ih]
    omega

/-- Every parenthesis that opens is closed, and none closes that has not opened. -/
structure Balanced (ts : List Token) : Prop where
  depth_eq : depth ts = 0
  nonneg : ∀ as bs, ts = as ++ bs → 0 ≤ depth as

/-- A token stands outside of all parentheses. -/
def Outside (tok : Token) (ts : List Token) : Prop :=
  ∃ as bs, ts = as ++ tok :: bs ∧ depth as = 0

/-- The level of a token that operators of a level are told by. -/
def Token.level? : Token → Option Nat
  | .comma => some 0
  | .keyword .or => some 1
  | .keyword .and => some 2
  | .keyword .is => some 4
  | .keyword .like => some 4
  | .keyword .among => some 4
  | .comparison _ => some 4
  | .arithmetic .add => some 5
  | .arithmetic .sub => some 5
  | .arithmetic .mul => some 6
  | .arithmetic .div => some 6
  | _ => none

namespace Balanced

variable {as bs : List Token}

/-- No tokens are balanced. -/
theorem nil : Balanced [] := by
  constructor
  · rfl
  · intro as bs h
    obtain ⟨rfl, -⟩ := List.append_eq_nil_iff.mp h.symm
    exact Int.le_refl 0

/-- A token that is no parenthesis, and then balanced tokens. -/
theorem cons {tok : Token} (htok : tok.depth = 0) (h : Balanced as) : Balanced (tok :: as) := by
  constructor
  · rw [depth_cons, htok, h.depth_eq]
    rfl
  · intro bs cs heq
    cases bs with
    | nil => exact Int.le_refl 0
    | cons b bs =>
      obtain ⟨rfl, hrest⟩ := List.cons.inj heq
      have hnonneg := h.nonneg bs cs hrest
      rw [depth_cons, htok]
      omega

/-- Balanced tokens in a row are balanced. -/
theorem append (ha : Balanced as) (hb : Balanced bs) : Balanced (as ++ bs) := by
  constructor
  · rw [depth_append, ha.depth_eq, hb.depth_eq]
    rfl
  · intro cs ds heq
    rcases List.append_eq_append_iff.mp heq with ⟨mid, rfl, hmid⟩ | ⟨mid, hmid, -⟩
    · have hnonneg := hb.nonneg mid ds hmid
      rw [depth_append, ha.depth_eq]
      omega
    · exact ha.nonneg cs mid hmid

/-- Balanced tokens in parentheses are balanced. -/
theorem group (h : Balanced as) : Balanced (.opening :: (as ++ [.closing])) := by
  constructor
  · rw [depth_cons, depth_append, h.depth_eq]
    rfl
  · intro bs cs heq
    cases bs with
    | nil => exact Int.le_refl 0
    | cons b bs =>
      obtain ⟨rfl, hrest⟩ := List.cons.inj heq
      rw [depth_cons]
      have hopening : Token.opening.depth = 1 := rfl
      rcases List.append_eq_append_iff.mp hrest with ⟨mid, rfl, hmid⟩ | ⟨mid, hmid, -⟩
      · have hmid' : depth mid = 0 ∨ depth mid = -1 := by
          cases mid with
          | nil => exact Or.inl rfl
          | cons x mid =>
            obtain ⟨rfl, hnil⟩ := List.cons.inj hmid
            obtain ⟨rfl, -⟩ := List.append_eq_nil_iff.mp hnil.symm
            exact Or.inr rfl
        rw [depth_append, h.depth_eq]
        omega
      · have hnonneg := h.nonneg bs mid hmid
        omega

/-- Balanced lists of tokens with commas between them are balanced. -/
theorem commaJoin {tss : List (List Token)} (h : ∀ ts ∈ tss, Balanced ts) :
    Balanced (Grammar.commaJoin tss) := by
  induction tss with
  | nil => exact nil
  | cons ts rest ih =>
    have hts := h ts List.mem_cons_self
    have hrest := ih fun us hus => h us (List.mem_cons_of_mem ts hus)
    cases rest with
    | nil => exact hts
    | cons us rest => exact hts.append (.cons rfl hrest)

end Balanced

variable {as bs ts : List Token} {tok x : Token}

/-- What stands outside behind balanced tokens is in them or behind them. -/
theorem outside_append (ha : Balanced as) (h : Outside tok (as ++ bs)) :
    Outside tok as ∨ Outside tok bs := by
  obtain ⟨cs, ds, heq, hdepth⟩ := h
  rcases List.append_eq_append_iff.mp heq with ⟨mid, rfl, hmid⟩ | ⟨mid, hmid, hrest⟩
  · rw [depth_append, ha.depth_eq] at hdepth
    exact Or.inr ⟨mid, ds, hmid, by omega⟩
  · cases mid with
    | nil => exact Or.inr ⟨[], ds, by simpa using hrest.symm, rfl⟩
    | cons y mid =>
      obtain ⟨rfl, -⟩ := List.cons.inj hrest
      exact Or.inl ⟨cs, mid, hmid, hdepth⟩

/-- What stands outside behind a token that is no parenthesis is that token or behind it. -/
theorem outside_cons (hx : x.depth = 0) (h : Outside tok (x :: ts)) : tok = x ∨ Outside tok ts := by
  obtain ⟨as, bs, heq, hdepth⟩ := h
  cases as with
  | nil => exact Or.inl (List.cons.inj heq).1.symm
  | cons a as =>
    obtain ⟨rfl, hrest⟩ := List.cons.inj heq
    rw [depth_cons, hx] at hdepth
    exact Or.inr ⟨as, bs, hrest, by omega⟩

/-- A token that stands outside is one of the tokens. -/
theorem Outside.mem (h : Outside tok ts) : tok ∈ ts := by
  obtain ⟨as, bs, rfl, -⟩ := h
  exact List.mem_append_right as List.mem_cons_self

/-- Of tokens in parentheses only the one that opens stands outside. -/
theorem outside_group (hts : Balanced ts) (h : Outside tok (.opening :: (ts ++ [.closing]))) :
    tok = .opening := by
  obtain ⟨as, bs, heq, hdepth⟩ := h
  cases as with
  | nil => exact (List.cons.inj heq).1.symm
  | cons a as =>
    obtain ⟨rfl, hrest⟩ := List.cons.inj heq
    have hopening : Token.opening.depth = 1 := rfl
    rw [depth_cons] at hdepth
    rcases List.append_eq_append_iff.mp hrest with ⟨mid, rfl, hmid⟩ | ⟨mid, hmid, -⟩
    · cases mid with
      | nil =>
        rw [depth_append, hts.depth_eq] at hdepth
        exact absurd hdepth (by decide)
      | cons y mid =>
        have hlength := congrArg List.length hmid
        simp at hlength
    · have hnonneg := hts.nonneg as mid hmid
      omega

/-- Where tokens are split at an operator outside of parentheses that does not come again behind
it, they can be split in one way only. -/
theorem split_unique {as' bs' : List Token} {x' : Token}
    (h : as ++ x :: bs = as' ++ x' :: bs') (has : depth as = 0) (has' : depth as' = 0)
    (hx : x.depth = 0) (hx' : x'.depth = 0) (hbs : ¬Outside x' bs) (hbs' : ¬Outside x bs') :
    as = as' ∧ x = x' ∧ bs = bs' := by
  rcases List.append_eq_append_iff.mp h with ⟨mid, hmid, hrest⟩ | ⟨mid, hmid, hrest⟩
  · cases mid with
    | nil =>
      obtain ⟨hxx, hbb⟩ := List.cons.inj hrest
      exact ⟨by simpa using hmid.symm, hxx, hbb⟩
    | cons y mid =>
      obtain ⟨rfl, hbb⟩ := List.cons.inj hrest
      rw [hmid, depth_append, depth_cons, has, hx] at has'
      exact absurd ⟨mid, bs', hbb, by omega⟩ hbs
  · cases mid with
    | nil =>
      obtain ⟨hxx, hbb⟩ := List.cons.inj hrest
      exact ⟨by simpa using hmid, hxx.symm, hbb.symm⟩
    | cons y mid =>
      obtain ⟨rfl, hbb⟩ := List.cons.inj hrest
      rw [hmid, depth_append, depth_cons, has', hx'] at has
      exact absurd ⟨mid, bs, hbb, by omega⟩ hbs'

/-- A token that is a tree by itself is no parenthesis and no operator. -/
theorem Token.plain_of_leaf? {t : Tree} (h : tok.leaf? = some t) :
    tok.depth = 0 ∧ tok.level? = none := by
  cases tok with
  | keyword k =>
    cases k with
    | null => exact ⟨rfl, rfl⟩
    | _ => cases h
  | word | number | parameter => exact ⟨rfl, rfl⟩
  | _ => cases h

/-- The token of an operator is no parenthesis and tells the level of the operator. -/
theorem Connective.level?_token (op : Connective) :
    op.token.depth = 0 ∧ op.token.level? = some op.level := by
  cases op with
  | arithmetic a => cases a <;> exact ⟨rfl, rfl⟩
  | _ => exact ⟨rfl, rfl⟩

namespace Reads

variable {n : Nat} {t : Tree}

/-- What reads as a tree has balanced parentheses. -/
theorem balanced (h : Reads n ts t) : Balanced ts := by
  induction h with
  | leaf h => exact Balanced.nil.cons (Token.plain_of_leaf? h).1
  | group _ ih => exact ih.group
  | tighter _ _ ih => exact ih
  | not _ ih => exact ih.cons rfl
  | binary op _ _ _ ihl ihr => exact ihl.append (ihr.cons op.level?_token.1)
  | isNull _ ih => exact ih.append (.cons rfl (.cons rfl .nil))
  | isNotNull _ ih => exact ih.append (.cons rfl (.cons rfl (.cons rfl .nil)))
  | @among ts t items _ _ _ ih ihitems =>
    have hitems : ∀ us ∈ items.map (·.1), Balanced us := by
      intro us hus
      obtain ⟨item, hitem, rfl⟩ := List.mem_map.mp hus
      exact ihitems item hitem
    exact ih.append (.cons rfl (Balanced.commaJoin hitems).group)

/-- Items that read as trees are balanced with commas between them. -/
theorem balanced_items {items : List (List Token × Tree)}
    (hitems : ∀ item ∈ items, Reads 1 item.1 item.2) :
    Balanced (commaJoin (items.map (·.1))) := by
  refine Balanced.commaJoin fun us hus => ?_
  obtain ⟨item, hitem, rfl⟩ := List.mem_map.mp hus
  exact (hitems item hitem).balanced

/-- Outside of parentheses no operator binds less tightly than the level says. -/
theorem level_le (h : Reads n ts t) {k : Nat} (hout : Outside tok ts) (hk : tok.level? = some k) :
    n ≤ k := by
  -- a word of an operator either has no level, or it has that of the operator
  have hnone {x : Token} {m : Nat} (hx : x.level? = none) : tok = x → m ≤ k := by
    rintro rfl
    rw [hx] at hk
    cases hk
  have hsome {x : Token} {m : Nat} (hx : x.level? = some m) : tok = x → m ≤ k := by
    rintro rfl
    rw [hx] at hk
    cases hk
    exact Nat.le_refl _
  induction h with
  | leaf h =>
    obtain ⟨-, hlevel⟩ := Token.plain_of_leaf? h
    exact hnone hlevel (List.mem_singleton.mp hout.mem)
  | group h _ => exact hnone rfl (outside_group h.balanced hout)
  | tighter _ _ ih =>
    have hle := ih hout
    omega
  | not _ ih =>
    rcases outside_cons rfl hout with heq | hout
    · exact hnone rfl heq
    · exact ih hout
  | binary op hn hl _ ihl ihr =>
    rcases outside_append hl.balanced hout with hout | hout
    · exact ihl hout
    · obtain ⟨hdepth, hlevel⟩ := op.level?_token
      rcases outside_cons hdepth hout with heq | hout
      · exact hn ▸ hsome hlevel heq
      · have hle := ihr hout
        omega
  | isNull h ih =>
    rcases outside_append h.balanced hout with hout | hout
    · exact ih hout
    · rcases List.mem_pair.mp hout.mem with heq | heq
      · exact hsome rfl heq
      · exact hnone rfl heq
  | isNotNull h ih =>
    rcases outside_append h.balanced hout with hout | hout
    · exact ih hout
    · rcases List.mem_cons.mp hout.mem with heq | hmem
      · exact hsome rfl heq
      · rcases List.mem_pair.mp hmem with heq | heq <;> exact hnone rfl heq
  | @among ts t items h _ hitems ih _ =>
    rcases outside_append h.balanced hout with hout | hout
    · exact ih hout
    · rcases outside_cons rfl hout with heq | hout
      · exact hsome rfl heq
      · exact hnone rfl (outside_group (balanced_items hitems) hout)

/-- Only a negation begins with the word for it. -/
theorem ne_not (h : Reads n ts t) (hn : 4 ≤ n) (us : List Token) : ts ≠ .keyword .not :: us := by
  induction h generalizing us with
  | leaf h =>
    intro heq
    obtain ⟨rfl, -⟩ := List.cons.inj heq
    cases h
  | group _ _ => simp
  | tighter _ _ ih => exact ih (by omega) us
  | not _ _ => omega
  | @binary _ ls _ _ _ op _ _ _ ihl _ =>
    cases ls with
    | nil =>
      intro heq
      have htok : op.token = .keyword .not := (List.cons.inj heq).1
      cases op <;> cases htok
    | cons x ls =>
      intro heq
      obtain ⟨rfl, -⟩ := List.cons.inj heq
      exact ihl hn ls rfl
  | @isNull ts _ _ ih | @isNotNull ts _ _ ih | @among ts _ _ _ _ _ ih _ =>
    cases ts with
    | nil => simp
    | cons x ts =>
      intro heq
      obtain ⟨rfl, -⟩ := List.cons.inj heq
      exact ih hn ts rfl

end Reads

end EntitySql.Grammar
