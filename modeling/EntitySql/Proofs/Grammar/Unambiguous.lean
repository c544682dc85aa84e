import EntitySql.Proofs.Grammar.Depth

/-!
# The grammar is unambiguous

Tokens read as one tree at most. What reads at a level either reads at the next one, or
it ends in a tail, that is, in an operator of the level and what follows it. The operator
is the last of its level outside of parentheses, so two readings have the same tail.
-/

namespace EntitySql.Grammar

/-- An operator, the tokens that follow it, and what both make of the tree before them. -/
inductive Tail : Nat → Token → List Token → (Tree → Tree) → Prop
  | binary {rs : List Token} {r : Tree} (op : Connective) (h : Reads (op.level + 1) rs r) :
      Tail op.level op.token rs fun l => .binary l op r
  | isNull : Tail 4 (.keyword .is) [.keyword .null] .isNull
  | isNotNull : Tail 4 (.keyword .is) [.keyword .not, .keyword .null] .isNotNull
  | among {items : List (List Token × Tree)} (hne : items ≠ [])
      (hitems : ∀ item ∈ items, Reads 1 item.1 item.2) :
      Tail 4 (.keyword .among) (.opening :: (commaJoin (items.map (·.1)) ++ [.closing]))
        fun t => .among t (items.map (·.2))

namespace Tail

variable {n : Nat} {tok : Token} {rest : List Token} {make : Tree → Tree}

/-- The operator of a tail tells the level, and behind it there is no other one of the level. -/
theorem operator (h : Tail n tok rest make) : tok.depth = 0 ∧ tok.level? = some n ∧
    ∀ x k, Outside x rest → x.level? = some k → n < k := by
  have hnone {x : Token} {k m : Nat} (hk : x.level? = some k) (hx : x.level? = none) : m < k := by
    rw [hx] at hk
    cases hk
  cases h with
  | binary op h =>
    obtain ⟨hdepth, hlevel⟩ := op.level?_token
    exact ⟨hdepth, hlevel, fun x k hout hk => h.level_le hout hk⟩
  | isNull =>
    refine ⟨rfl, rfl, fun x k hout hk => ?_⟩
    obtain rfl := List.mem_singleton.mp hout.mem
    exact hnone hk rfl
  | isNotNull =>
    refine ⟨rfl, rfl, fun x k hout hk => ?_⟩
    rcases List.mem_pair.mp hout.mem with rfl | rfl <;> exact hnone hk rfl
  | among _ hitems =>
    refine ⟨rfl, rfl, fun x k hout hk => ?_⟩
    obtain rfl := outside_group (Reads.balanced_items hitems) hout
    exact hnone hk rfl

/-- There are tails at the levels of operators only. -/
theorem level (h : Tail n tok rest make) : n < 7 ∧ n ≠ 3 := by
  cases h with
  | binary op _ =>
    cases op with
    | arithmetic a => cases a <;> decide
    | _ => simp [Connective.level]
  | _ => decide

/-- The tail of an operator with two operands is its right operand. -/
theorem binary_cases {op : Connective} (h : Tail n op.token rest make) :
    ∃ r, make = (fun l => .binary l op r) ∧ Reads (n + 1) rest r := by
  generalize htok : op.token = tok at h
  cases h with
  | @binary _ r op' h =>
    obtain rfl := Connective.token_inj htok
    exact ⟨r, rfl, h⟩
  | _ => cases op <;> cases htok

/-- The tail of a test for null is one of two. -/
theorem is_cases (h : Tail n (.keyword .is) rest make) :
    (rest = [.keyword .null] ∧ make = .isNull) ∨
      (rest = [.keyword .not, .keyword .null] ∧ make = .isNotNull) := by
  generalize htok : Token.keyword .is = tok at h
  cases h with
  | binary op _ => cases op <;> cases htok
  | isNull => exact Or.inl ⟨rfl, rfl⟩
  | isNotNull => exact Or.inr ⟨rfl, rfl⟩
  | among => cases htok

/-- The tail of a test for membership is a list. -/
theorem among_cases (h : Tail n (.keyword .among) rest make) :
    ∃ items : List (List Token × Tree), items ≠ [] ∧
      (∀ item ∈ items, Reads 1 item.1 item.2) ∧
      rest = .opening :: (commaJoin (items.map (·.1)) ++ [.closing]) ∧
      make = fun t => .among t (items.map (·.2)) := by
  generalize htok : Token.keyword .among = tok at h
  cases h with
  | binary op _ => cases op <;> cases htok
  | among hne hitems => exact ⟨_, hne, hitems, rfl, rfl⟩
  | _ => cases htok

end Tail

namespace Reads

variable {n : Nat} {ts : List Token} {t : Tree}

/-- The ways in which tokens read as a tree. -/
theorem inversion (h : Reads n ts t) :
    (n = 7 ∧ ∃ tok, ts = [tok] ∧ tok.leaf? = some t) ∨
      (n = 7 ∧ ∃ us, ts = .opening :: (us ++ [.closing]) ∧ Reads 1 us t) ∨
      (n < 7 ∧ Reads (n + 1) ts t) ∨
      (n = 3 ∧ ∃ us u, ts = .keyword .not :: us ∧ t = .not u ∧ Reads 3 us u) ∨
      ∃ ls l tok rest make, Tail n tok rest make ∧ Reads n ls l ∧ ts = ls ++ tok :: rest ∧
        t = make l := by
  cases h with
  | @leaf tok _ h => exact Or.inl ⟨rfl, tok, rfl, h⟩
  | @group us _ h => exact Or.inr (Or.inl ⟨rfl, us, rfl, h⟩)
  | tighter hn h => exact Or.inr (Or.inr (Or.inl ⟨hn, h⟩))
  | @not us u h => exact Or.inr (Or.inr (Or.inr (Or.inl ⟨rfl, us, u, rfl, rfl, h⟩)))
  | binary op hn hl hr =>
    subst hn
    exact Or.inr (Or.inr (Or.inr (Or.inr ⟨_, _, _, _, _, .binary op hr, hl, rfl, rfl⟩)))
  | isNull h => exact Or.inr (Or.inr (Or.inr (Or.inr ⟨_, _, _, _, _, .isNull, h, rfl, rfl⟩)))
  | isNotNull h => exact Or.inr (Or.inr (Or.inr (Or.inr ⟨_, _, _, _, _, .isNotNull, h, rfl, rfl⟩)))
  | among h hne hitems =>
    exact Or.inr (Or.inr (Or.inr (Or.inr ⟨_, _, _, _, _, .among hne hitems, h, rfl, rfl⟩)))

/-- What reads at the tightest level is a token by itself or stands in parentheses. -/
theorem atom_cases (h : Reads 7 ts t) :
    (∃ tok, ts = [tok] ∧ tok.leaf? = some t) ∨
      ∃ us, ts = .opening :: (us ++ [.closing]) ∧ Reads 1 us t := by
  rcases h.inversion with ⟨-, h⟩ | ⟨-, h⟩ | ⟨hn, -⟩ | ⟨hn, -⟩ | ⟨_, _, _, _, _, htail, -⟩
  · exact Or.inl h
  · exact Or.inr h
  · exact absurd hn (Nat.lt_irrefl 7)
  · cases hn
  · exact absurd htail.level.1 (Nat.lt_irrefl 7)

/-- Every reading of tokens that end in a tail of a level, at that level, ends in a tail of the
same tokens. -/
theorem split {ls rest : List Token} {l t' : Tree} {tok : Token} {make : Tree → Tree}
    (hl : Reads n ls l) (htail : Tail n tok rest make) (h : Reads n (ls ++ tok :: rest) t') :
    ∃ l' make', t' = make' l' ∧ Reads n ls l' ∧ Tail n tok rest make' := by
  obtain ⟨hdepth, hlevel, hbehind⟩ := htail.operator
  obtain ⟨hlt, hne⟩ := htail.level
  rcases h.inversion with ⟨hn, -⟩ | ⟨hn, -⟩ | ⟨-, h⟩ | ⟨hn, -⟩ |
    ⟨ls', l', tok', rest', make', htail', hl', heq, rfl⟩
  · omega
  · omega
  · have hout : Outside tok (ls ++ tok :: rest) := ⟨ls, rest, rfl, hl.balanced.depth_eq⟩
    have hle := h.level_le hout hlevel
    omega
  · exact absurd hn hne
  · obtain ⟨hdepth', hlevel', hbehind'⟩ := htail'.operator
    have hrest : ¬Outside tok' rest := fun hout => Nat.lt_irrefl n (hbehind tok' n hout hlevel')
    have hrest' : ¬Outside tok rest' := fun hout => Nat.lt_irrefl n (hbehind' tok n hout hlevel)
    obtain ⟨rfl, rfl, rfl⟩ := split_unique heq hl.balanced.depth_eq hl'.balanced.depth_eq hdepth
      hdepth' hrest hrest'
    exact ⟨l', make', rfl, hl', htail'⟩

end Reads

/-- Lists of balanced tokens without commas outside of parentheses can be told from each other when
they are joined by commas. -/
theorem commaJoin_inj {tss uss : List (List Token)} (hts : tss ≠ []) (hus : uss ≠ [])
    (h : commaJoin tss = commaJoin uss)
    (htss : ∀ ts ∈ tss, Balanced ts ∧ ¬Outside .comma ts)
    (huss : ∀ us ∈ uss, Balanced us ∧ ¬Outside .comma us) : tss = uss := by
  induction tss generalizing uss with
  | nil => exact absurd rfl hts
  | cons ts rest ih =>
    obtain ⟨hbalanced, hcomma⟩ := htss ts List.mem_cons_self
    cases uss with
    | nil => exact absurd rfl hus
    | cons us rest' =>
      obtain ⟨hbalanced', hcomma'⟩ := huss us List.mem_cons_self
      cases rest with
      | nil =>
        cases rest' with
        | nil => exact congrArg (fun us => [us]) h
        | cons us' rest' => exact absurd ⟨us, _, h, hbalanced'.depth_eq⟩ hcomma
      | cons ts' rest =>
        cases rest' with
        | nil => exact absurd ⟨ts, _, h.symm, hbalanced.depth_eq⟩ hcomma'
        | cons us' rest' =>
          have hsplit : ts = us ∧ commaJoin (ts' :: rest) = commaJoin (us' :: rest') := by
            rcases List.append_eq_append_iff.mp h with ⟨mid, hmid, hrest⟩ | ⟨mid, hmid, hrest⟩
            · cases mid with
              | nil => exact ⟨by simpa using hmid.symm, (List.cons.inj hrest).2⟩
              | cons x mid =>
                obtain ⟨rfl, -⟩ := List.cons.inj hrest
                exact absurd ⟨ts, mid, hmid, hbalanced.depth_eq⟩ hcomma'
            · cases mid with
              | nil => exact ⟨by simpa using hmid, (List.cons.inj hrest).2.symm⟩
              | cons x mid =>
                obtain ⟨rfl, -⟩ := List.cons.inj hrest
                exact absurd ⟨us, mid, hmid, hbalanced'.depth_eq⟩ hcomma
          obtain ⟨rfl, hrest⟩ := hsplit
          have htail := ih (List.cons_ne_nil _ _) (List.cons_ne_nil _ _) hrest
            (fun us hus => htss us (List.mem_cons_of_mem _ hus))
            (fun us hus => huss us (List.mem_cons_of_mem _ hus))
          rw [htail]

/-- What reads as a tree is balanced and holds no comma outside of parentheses. -/
theorem Reads.no_comma {ts : List Token} {t : Tree} (h : Reads 1 ts t) :
    Balanced ts ∧ ¬Outside .comma ts := by
  refine ⟨h.balanced, fun hout => ?_⟩
  have hle := h.level_le hout rfl
  omega

/-- Items that are read without commas outside of parentheses, each in one way only, are read in
one way only with commas between them. -/
theorem items_unique {α : Type} (reads : List Token → α → Prop)
    {items items' : List (List Token × α)}
    (hclean : ∀ ts a, reads ts a → Balanced ts ∧ ¬Outside .comma ts) (hne : items ≠ [])
    (hne' : items' ≠ []) (h : commaJoin (items.map (·.1)) = commaJoin (items'.map (·.1)))
    (hitems : ∀ item ∈ items, reads item.1 item.2)
    (hitems' : ∀ item ∈ items', reads item.1 item.2)
    (hunique : ∀ item ∈ items, ∀ a, reads item.1 a → item.2 = a) :
    items.map (·.2) = items'.map (·.2) := by
  have hall {items : List (List Token × α)} (hitems : ∀ item ∈ items, reads item.1 item.2) :
      ∀ ts ∈ items.map (·.1), Balanced ts ∧ ¬Outside .comma ts := by
    intro ts hts
    obtain ⟨item, hitem, rfl⟩ := List.mem_map.mp hts
    exact hclean _ _ (hitems item hitem)
  have hfirst := commaJoin_inj (by simpa using hne) (by simpa using hne') h (hall hitems)
    (hall hitems')
  clear h hne hne' hall
  induction items generalizing items' with
  | nil =>
    obtain rfl := List.map_eq_nil_iff.mp hfirst.symm
    rfl
  | cons item rest ih =>
    cases items' with
    | nil => cases hfirst
    | cons item' rest' =>
      obtain ⟨hhead, htail⟩ := List.cons.inj hfirst
      have hreads' : reads item.1 item'.2 := by
        have heq : item.1 = item'.1 := hhead
        rw [heq]
        exact hitems' item' List.mem_cons_self
      have hrest := ih (fun i hi => hitems i (List.mem_cons_of_mem _ hi))
        (fun i hi => hitems' i (List.mem_cons_of_mem _ hi))
        (fun i hi => hunique i (List.mem_cons_of_mem _ hi)) htail
      rw [List.map_cons, List.map_cons, hrest, hunique item List.mem_cons_self _ hreads']

namespace Reads

variable {n : Nat} {ts : List Token} {t t' : Tree}

/-- Tokens read as one tree at most. -/
theorem unique (h : Reads n ts t) (h' : Reads n ts t') : t = t' := by
  -- The induction is on one reading. The other has the same last operator, by `split`.
  induction h generalizing t' with
  | leaf h =>
    rcases h'.atom_cases with ⟨tok, heq, h'⟩ | ⟨us, heq, -⟩
    · obtain ⟨rfl, -⟩ := List.cons.inj heq
      exact Option.some.inj (h.symm.trans h')
    · have hlength := congrArg List.length heq
      simp at hlength
  | group _ ih =>
    rcases h'.atom_cases with ⟨tok, heq, -⟩ | ⟨us, heq, h'⟩
    · have hlength := congrArg List.length heq
      simp at hlength
    · obtain rfl := List.append_cancel_right (List.cons.inj heq).2
      exact ih h'
  | tighter hlt h ih =>
    rcases h'.inversion with ⟨hn, -⟩ | ⟨hn, -⟩ | ⟨-, h'⟩ | ⟨hn, us, u, rfl, -, -⟩ |
      ⟨ls, l, tok, rest, make, htail, hl, rfl, -⟩
    · omega
    · omega
    · exact ih h'
    · exact absurd rfl (h.ne_not (by omega) us)
    · obtain ⟨-, hlevel, -⟩ := htail.operator
      have hle := h.level_le ⟨ls, rest, rfl, hl.balanced.depth_eq⟩ hlevel
      omega
  | @not us _ _ ih =>
    rcases h'.inversion with ⟨hn, -⟩ | ⟨hn, -⟩ | ⟨-, h'⟩ | ⟨-, us', u, heq, rfl, h'⟩ |
      ⟨_, _, _, _, _, htail, -⟩
    · omega
    · omega
    · exact absurd rfl (h'.ne_not (by omega) us)
    · obtain ⟨-, rfl⟩ := List.cons.inj heq
      rw [ih h']
    · exact absurd rfl htail.level.2
  | binary op hn hl hr ihl ihr =>
    subst hn
    obtain ⟨l', make', rfl, hl', htail⟩ := hl.split (.binary op hr) h'
    obtain ⟨r', rfl, hr'⟩ := htail.binary_cases
    rw [ihl hl', ihr hr']
  | isNull h ih =>
    obtain ⟨u', make', rfl, hu', htail⟩ := h.split .isNull h'
    rcases htail.is_cases with ⟨-, rfl⟩ | ⟨hrest, -⟩
    · rw [ih hu']
    · cases hrest
  | isNotNull h ih =>
    obtain ⟨u', make', rfl, hu', htail⟩ := h.split .isNotNull h'
    rcases htail.is_cases with ⟨hrest, -⟩ | ⟨-, rfl⟩
    · cases hrest
    · rw [ih hu']
  | among h hne hitems ih ihitems =>
    obtain ⟨u', make', rfl, hu', htail⟩ := h.split (.among hne hitems) h'
    obtain ⟨items', hne', hitems', hrest, rfl⟩ := htail.among_cases
    have hjoin := List.append_cancel_right (List.cons.inj hrest).2
    have htrees := items_unique (Reads 1) (fun _ _ => Reads.no_comma) hne hne' hjoin hitems hitems'
      fun i hi t ht => ihitems i hi ht
    rw [ih hu', htrees]

end Reads

/-- Tokens read as one assignment at most. -/
theorem ReadsAssignment.unique {ts : List Token} {a a' : String × Tree} (h : ReadsAssignment ts a)
    (h' : ReadsAssignment ts a') : a = a' := by
  cases h with
  | assign h =>
    cases h' with
    | assign h' => rw [h.unique h']

/-- An assignment is balanced and holds no comma outside of parentheses. -/
theorem ReadsAssignment.no_comma {ts : List Token} {a : String × Tree} (h : ReadsAssignment ts a) :
    Balanced ts ∧ ¬Outside .comma ts := by
  cases h with
  | assign h =>
    obtain ⟨hbalanced, hcomma⟩ := h.no_comma
    refine ⟨.cons rfl (.cons rfl hbalanced), fun hout => ?_⟩
    rcases outside_cons rfl hout with heq | hout
    · cases heq
    · rcases outside_cons rfl hout with heq | hout
      · cases heq
      · exact hcomma hout

/-- Tokens read as one list of assignments at most. -/
theorem ReadsAssignments.unique {ts : List Token} {as as' : List (String × Tree)}
    (h : ReadsAssignments ts as) (h' : ReadsAssignments ts as') : as = as' := by
  obtain ⟨items, hne, hitems, rfl, rfl⟩ := h
  obtain ⟨items', hne', hitems', heq, rfl⟩ := h'
  exact items_unique ReadsAssignment (fun _ _ => ReadsAssignment.no_comma) hne hne' heq hitems
    hitems' fun i hi a ha => (hitems i hi).unique ha

variable {mark : Char} {text : String}

/-- A text reads as one tree at most. -/
theorem ReadsText.unique {t t' : Tree} (h : ReadsText mark text t) (h' : ReadsText mark text t') :
    t = t' := by
  obtain ⟨ts, hts, ht⟩ := h
  obtain ⟨us, hus, ht'⟩ := h'
  obtain rfl := Option.some.inj (hts.symm.trans hus)
  exact ht.unique ht'

/-- A text reads as one list of assignments at most. -/
theorem ReadsAssignmentsText.unique {as as' : List (String × Tree)}
    (h : ReadsAssignmentsText mark text as) (h' : ReadsAssignmentsText mark text as') :
    as = as' := by
  obtain ⟨ts, hts, has⟩ := h
  obtain ⟨us, hus, has'⟩ := h'
  obtain rfl := Option.some.inj (hts.symm.trans hus)
  exact has.unique has'

end EntitySql.Grammar
