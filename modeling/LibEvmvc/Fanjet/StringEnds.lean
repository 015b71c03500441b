import LibEvmvc.Fanjet.NodeEnds

set_option autoImplicit false

/-! # The end of a string in code

The parser of a string does not pair backslashes: it passes over a quote that has one directly in front
of it, and ends at the first other quote. In a C++ literal each quote of the content has a backslash in
front, so the string does not end early, but it goes on if the content ends with an escaped backslash. -/

namespace LibEvmvc

namespace Fanjet

/-! ## The content of a literal -/

/-- What is between the quotes `q` of a literal: ordinary characters, and backslashes with what they
    escape. -/
inductive LiteralContent (q : UInt8) : Bytes → Prop
  | nil : LiteralContent q []
  | char {c : UInt8} {s : Bytes} (hquote : c ≠ q) (hslash : c ≠ 92) (hs : LiteralContent q s) :
      LiteralContent q (c :: s)
  | escape (c : UInt8) {s : Bytes} (hs : LiteralContent q s) : LiteralContent q (92 :: c :: s)

/-- A quote in it has a backslash in front. -/
theorem LiteralContent.quote {q : UInt8} (hq : q ≠ 92) {s x y : Bytes} (h : LiteralContent q s)
    (hs : s = x ++ q :: y) : [92] <:+ x := by
  induction h generalizing x with
  | nil => exact absurd hs (by simp)
  | @char c s hquote _ _ ih =>
    rcases x with _ | ⟨d, x⟩
    · exact absurd (List.cons.inj hs).1 hquote
    · exact (ih (List.cons.inj hs).2).trans (List.suffix_cons d x)
  | @escape c s _ ih =>
    rcases x with _ | ⟨d, x⟩
    · exact absurd (List.cons.inj hs).1.symm hq
    · obtain ⟨rfl, htail⟩ := List.cons.inj hs
      rcases x with _ | ⟨e, x⟩
      · exact List.suffix_refl _
      · exact (ih (List.cons.inj htail).2).trans ((List.suffix_cons e x).trans (List.suffix_cons _ _))

/-- Each quote among the tokens has a backslash in front. -/
def Guarded (c : UInt8) (l : List Token) : Prop :=
  ∀ x u z, l = x ++ u :: z → u.text = [c] → ∃ x' b, x = x' ++ [b] ∧ b.text = [92]

section Guarded

variable {c : UInt8} {l : List Token}

/-- Behind a token that is no backslash. -/
theorem Guarded.tail {v : Token} (h : Guarded c (v :: l)) (hv : v.text ≠ [92]) : Guarded c l := by
  intro x u z hl hu
  obtain ⟨x', b, hx, hb⟩ := h (v :: x) u z (by rw [hl]; rfl) hu
  rcases x' with _ | ⟨w, x'⟩
  · rw [(List.cons.inj hx).1] at hv
    exact absurd hb hv
  · exact ⟨x', b, (List.cons.inj hx).2, hb⟩

theorem Guarded.head {v : Token} (h : Guarded c (v :: l)) : v.text ≠ [c] := by
  intro hv
  obtain ⟨x', b, hx, -⟩ := h [] v l rfl hv
  exact absurd hx (by simp)

/-- Behind any token, if no quote follows. -/
theorem Guarded.tail_of_head {v : Token} (h : Guarded c (v :: l)) (hl : ∀ w ∈ l.head?, w.text ≠ [c]) :
    Guarded c l := by
  intro x u z heq hu
  rcases x with _ | ⟨w, x⟩
  · exact absurd hu (hl u (by rw [heq]; exact rfl))
  · obtain ⟨x', b, hx, hb⟩ := h (v :: w :: x) u z (by rw [heq]; rfl) hu
    rcases x' with _ | ⟨w', x'⟩
    · exact absurd hx (by simp)
    · exact ⟨x', b, (List.cons.inj hx).2, hb⟩

/-- The last token of a text that ends with a backslash is one. -/
theorem last_slash (hcut : ∀ t ∈ l, t.MarkCut) (hne : ∀ t ∈ l, t.text ≠ []) :
    [92] <:+ listText l ↔ ∃ x b, l = x ++ [b] ∧ b.text = [92] := by
  constructor
  · intro h
    have hnil : l ≠ [] := by
      rintro rfl
      exact absurd h (by decide)
    obtain ⟨x, b, rfl⟩ : ∃ x b, l = x ++ [b] :=
      ⟨l.dropLast, l.getLast hnil, (List.dropLast_concat_getLast hnil).symm⟩
    have hmem : b ∈ x ++ [b] := List.mem_append_right x List.mem_cons_self
    rw [listText_append, listText_cons, show listText [] = [] from rfl, List.append_nil] at h
    have hpos := List.length_pos_iff.2 (hne b hmem)
    have hb : [92] <:+ b.text :=
      List.suffix_of_suffix_length_le h (List.suffix_append _ _) hpos
    obtain ⟨y, hy⟩ := hb
    have hslash : 92 ∈ b.text := hy ▸ List.mem_append_right y List.mem_cons_self
    rcases hcut b hmem 92 hslash rfl with htext | ⟨-, hbrace⟩
    · exact ⟨x, b, rfl, htext⟩
    · exact absurd hbrace (by decide)
  · rintro ⟨x, b, rfl, hb⟩
    rw [listText_append, listText_cons, hb]
    exact List.suffix_append _ _

theorem guarded_of_content (hc : c ≠ 92) (hcut : ∀ t ∈ l, t.MarkCut) (hne : ∀ t ∈ l, t.text ≠ [])
    (h : LiteralContent c (listText l)) : Guarded c l := by
  intro x u z hl hu
  have hx : [92] <:+ listText x := by
    refine h.quote hc ?_ (y := listText z)
    rw [hl, listText_append, listText_cons, hu]
    rfl
  exact (last_slash (fun t ht => hcut t (hl ▸ List.mem_append_left _ ht))
    fun t ht => hne t (hl ▸ List.mem_append_left _ ht)).1 hx

end Guarded

/-! ## The rounds of the string -/

section Rounds

variable {env : FanEnv} {p : Parsing} {X : OpenNode} {below : List OpenNode} {c : UInt8} {v t : Token}
  {l r : List Token}

/-- A token that is neither the quote nor a backslash in front of it. -/
theorem goesTo_inString (hX : X.kind.Host) (hp : p.At (.string [c] [92, c]) (X :: below) (v :: r))
    (hne : v.text ≠ []) (hcut : v.MarkCut) (hquote : v.text ≠ [c])
    (hescape : v.text = [92] → ∃ u z, r = u :: z ∧ u.text ≠ [] ∧ u.text ≠ [c]) :
    (parseStep env p).GoesTo fun q => q.At (.string [c] [92, c]) (X :: below) r := by
  have hnone : matchText [92, c] [] 0 (v :: r) = none := by
    by_cases hv : v.text = [92]
    · obtain ⟨u, z, rfl, hune, hu⟩ := hescape hv
      exact matchText_escape_other hv hune hu
    · refine matchText_escape_none hne ?_
      rintro ⟨y, hy⟩
      rcases hcut 92 (hy ▸ List.mem_cons_self) rfl with htext | ⟨-, hbrace⟩
      · exact hv htext
      · exact absurd hbrace (by decide)
  refine goesTo_string hX hp fun top htop => ?_
  rw [stringRound, hnone, matchText_quote_none hne hquote]
  exact goesTo_next (hp.top htop)

/-- A quote behind a backslash is passed over. -/
theorem goesTo_escaped (hX : X.kind.Host) (hp : p.At (.string [c] [92, c]) (X :: below) (v :: t :: r))
    (hv : v.text = [92]) (ht : t.text = [c]) :
    (parseStep env p).GoesTo fun q => q.At (.string [c] [92, c]) (X :: below) r := by
  refine goesTo_string hX hp fun top htop => ?_
  rw [stringRound, matchText_escape hv ht]
  exact goesTo_next_next (hp.top htop)

/-- A quote ends the string. -/
theorem goesTo_quote (hc : c ≠ 92) (hX : X.kind.Host)
    (hp : p.At (.string [c] [92, c]) (X :: below) (t :: r)) (ht : t.text = [c]) :
    (parseStep env p).GoesTo fun q => q.At X.kind below r ∧
      ∃ line col childs, q.top.childs = X.childs ++ [.node (.string [c] [92, c]) line col childs] := by
  have hslash : ¬ bytes "\\" <+: t.text := by
    rw [ht]
    intro h
    have hone : bytes "\\" = [c] := (prefix_singleton (by decide)).1 h
    exact hc (List.cons.inj hone).1.symm
  refine goesTo_string hX hp fun top htop => ?_
  rw [stringRound, matchText_escape_none (by simp [ht]) hslash, matchText_quote ht]
  obtain ⟨q, hgo, hq, -, -, hchild⟩ := goesTo_close_child (hp.top htop)
  exact ⟨q, hgo, hq, hchild⟩

/-- Inside a string, in front of the quote `t`. -/
structure InLiteral (c : UInt8) (X : OpenNode) (below : List OpenNode) (t : Token) (r l : List Token)
    (q : Parsing) : Prop where
  at_cur : q.At (.string [c] [92, c]) (X :: below) (l ++ t :: r)
  guarded : Guarded c l
  cut : ∀ u ∈ l, u.MarkCut
  ne : ∀ u ∈ l, u.text ≠ []

/-- A round goes on by a token, or by a backslash and a quote; if the backslash is the last token in front
of `t`, that is passed over. -/
theorem InLiteral.step (hc : c ≠ 92) (hX : X.kind.Host) (ht : t.text = [c])
    (hp : InLiteral c X below t r (v :: l) p) :
    ((v.text = [92] → l ≠ []) ∧ (parseStep env p).GoesTo (InLiteral c X below t r l)) ∨
    (∃ u l', l = u :: l' ∧ u.text = [c] ∧ (parseStep env p).GoesTo (InLiteral c X below t r l')) ∨
    (l = [] ∧ v.text = [92] ∧
      (parseStep env p).GoesTo fun q => q.At (.string [c] [92, c]) (X :: below) r) := by
  obtain ⟨hat, hguarded, hcut, hne⟩ := hp
  have hv : v ∈ v :: l := List.mem_cons_self
  have hcut' : ∀ u ∈ l, u.MarkCut := fun u hu => hcut u (List.mem_cons_of_mem v hu)
  have hne' : ∀ u ∈ l, u.text ≠ [] := fun u hu => hne u (List.mem_cons_of_mem v hu)
  have hplain (hescape : v.text = [92] → ∃ u z, l ++ t :: r = u :: z ∧ u.text ≠ [] ∧ u.text ≠ [c])
      (hl : Guarded c l) : (parseStep env p).GoesTo (InLiteral c X below t r l) := by
    obtain ⟨q, hgo, hq⟩ := @goesTo_inString env _ _ _ _ _ _ hX hat (hne v hv) (hcut v hv) hguarded.head hescape
    exact ⟨q, hgo, hq, hl, hcut', hne'⟩
  by_cases hslash : v.text = [92]
  · rcases l with _ | ⟨u, l⟩
    · exact .inr (.inr ⟨rfl, hslash, goesTo_escaped hX hat hslash ht⟩)
    · by_cases hu : u.text = [c]
      · -- the backslash belongs to the quote behind it
        obtain ⟨q, hgo, hq⟩ := @goesTo_escaped env _ _ _ _ _ _ _ hX hat hslash hu
        have hu92 : u.text ≠ [92] := fun h => hc (List.cons.inj (hu.symm.trans h)).1
        have hl : Guarded c l := by
          intro x w z hl hw
          obtain ⟨x', b, hx, hb⟩ := hguarded (v :: u :: x) w z (by rw [hl]; rfl) hw
          rcases x' with _ | ⟨w', x'⟩
          · exact absurd hx (by simp)
          · rcases x' with _ | ⟨w', x'⟩
            · obtain ⟨rfl, -⟩ := List.cons.inj (List.cons.inj hx).2
              exact absurd hb hu92
            · exact ⟨x', b, (List.cons.inj (List.cons.inj hx).2).2, hb⟩
        exact .inr (.inl ⟨u, l, rfl, hu, q, hgo, hq, hl, fun w hw => hcut' w (List.mem_cons_of_mem u hw),
          fun w hw => hne' w (List.mem_cons_of_mem u hw)⟩)
      · refine .inl ⟨fun _ => List.cons_ne_nil u l, hplain (fun _ => ?_) ?_⟩
        · exact ⟨u, l ++ t :: r, rfl, hne' u List.mem_cons_self, hu⟩
        · refine hguarded.tail_of_head fun w hw => ?_
          cases hw
          exact hu
  · exact .inl ⟨fun h => absurd h hslash, hplain (fun h => absurd h hslash) (hguarded.tail hslash)⟩

/-- If no backslash is the last token in front of the quote, the parser comes to it. -/
theorem InLiteral.leadsTo (hc : c ≠ 92) (hX : X.kind.Host) (ht : t.text = [c])
    (hp : InLiteral c X below t r l p) (hlast : ∀ x b, l = x ++ [b] → b.text ≠ [92]) :
    LeadsTo env p (InLiteral c X below t r []) := by
  induction hlen : l.length using Nat.strong_induction_on generalizing l p with
  | _ n ih =>
    subst hlen
    rcases l with _ | ⟨v, l⟩
    · exact .refl hp
    · rcases hp.step hc hX ht with ⟨-, hgo⟩ | ⟨u, l', rfl, -, hgo⟩ | ⟨rfl, hv, -⟩
      · refine .step hgo fun q hq => ih l.length (Nat.lt_succ_self _) hq (fun x b hl => ?_) rfl
        exact hlast (v :: x) b (by rw [hl]; rfl)
      · refine .step hgo fun q hq => ih l'.length ?_ hq (fun x b hl => ?_) rfl
        · rw [List.length_cons, List.length_cons]
          omega
        · exact hlast (v :: u :: x) b (by rw [hl]; rfl)
      · exact absurd hv (hlast [] v rfl)

/-- If a backslash is the last token in front of the quote, the parser never is at the quote. -/
theorem InLiteral.misses {x : List Token} {b : Token} {q : Parsing} (hc : c ≠ 92) (hX : X.kind.Host)
    (ht : t.text = [c]) (hp : InLiteral c X below t r (x ++ [b]) p) (hb : b.text = [92])
    (hrun : Relation.ReflTransGen (Steps env) p q) :
    q.cur <:+ r ∨ ∃ x', InLiteral c X below t r (x' ++ [b]) q := by
  induction hrun with
  | refl => exact .inr ⟨x, hp⟩
  | @tail q q' _ hstep ih =>
    rcases ih with hcur | ⟨x', hq⟩
    · exact .inl (hstep.cur.trans hcur)
    · have hgo : parseStep env q = .go q' := hstep
      obtain ⟨v, l, hl⟩ : ∃ v l, x' ++ [b] = v :: l := List.exists_cons_of_ne_nil (by simp)
      rw [hl] at hq
      have hsame {Q : Parsing → Prop} (h : (parseStep env q).GoesTo Q) : Q q' := by
        obtain ⟨q'', hgo', hQ⟩ := h
        cases hgo.symm.trans hgo'
        exact hQ
      -- what is left ends with the backslash still
      have hends {l' : List Token} (hsuffix : l' <:+ x' ++ [b]) (hnil : l' ≠ []) : ∃ y, l' = y ++ [b] := by
        obtain ⟨y, hy⟩ := hsuffix
        refine ⟨l'.dropLast, ?_⟩
        have hsplit := List.dropLast_concat_getLast hnil
        rw [← hsplit, ← List.append_assoc] at hy
        rw [← (List.cons.inj (List.append_inj' hy rfl).2).1, hsplit]
      rcases hq.step hc hX ht with ⟨hne, hto⟩ | ⟨u, l', rfl, hu, hto⟩ | ⟨-, -, hto⟩
      · have hnil : l ≠ [] := by
          rintro rfl
          obtain ⟨-, hv⟩ := List.append_inj' (hl.trans (List.nil_append [v]).symm) rfl
          exact hne (by rw [← (List.cons.inj hv).1, hb]) rfl
        obtain ⟨y, rfl⟩ := hends (hl ▸ List.suffix_cons v l) hnil
        exact .inr ⟨y, hsame hto⟩
      · have hnil : l' ≠ [] := by
          rintro rfl
          obtain ⟨-, hv⟩ := List.append_inj' (hl.trans (show [v, u] = [v] ++ [u] from rfl)) rfl
          rw [(List.cons.inj hv).1, hu] at hb
          exact hc (List.cons.inj hb).1
        obtain ⟨y, rfl⟩ := hends (hl ▸ (List.suffix_cons u l').trans (List.suffix_cons v _)) hnil
        exact .inr ⟨y, hsame hto⟩
      · exact .inl ((hsame hto).cur ▸ List.suffix_refl r)

end Rounds

/-! ## Literals in a template -/

/-- The parser of a string in a block or an expression has the content of a literal, its quote and `rest`
to come. -/
structure AtLiteral (env : FanEnv) (text : Bytes) (c : UInt8) (X : OpenNode) (below : List OpenNode)
    (s rest : Bytes) (p : Parsing) : Prop where
  reached : Reached env text p
  quote : c = 34 ∨ c = 39
  at_cur : p.At (.string [c] [92, c]) (X :: below) p.cur
  host : X.kind.Host
  content : LiteralContent c s
  text_eq : listText p.cur = s ++ c :: rest

section Literals

variable {env : FanEnv} {text : Bytes} {c : UInt8} {X : OpenNode} {below : List OpenNode} {s rest : Bytes}
  {p : Parsing}

theorem AtLiteral.slash (h : AtLiteral env text c X below s rest p) : c ≠ 92 := by
  rcases h.quote with rfl | rfl <;> decide

theorem AtLiteral.cut (h : AtLiteral env text c X below s rest p) :
    Tokenized sTokens p.cur ∧ ∀ t ∈ p.cur, t.text ≠ [] :=
  h.reached.cut (by rw [h.at_cur.below]; exact List.cons_ne_nil X below)

/-- The quote is a token, or what is in front of it is in the last token as well. -/
theorem AtLiteral.quote_cases (h : AtLiteral env text c X below s rest p) :
    (∃ l t r, p.cur = l ++ t :: r ∧ t.text = [c] ∧ listText l = s ∧ listText r = rest ∧
      InLiteral c X below t r l p) ∨
    rest = [] ∧ ∃ l t, p.cur = l ++ [t] ∧ t.text ≠ [c] := by
  obtain ⟨hcut, hne⟩ := h.cut
  have hmark : isMark c = true := by
    rcases h.quote with rfl | rfl <;> rfl
  have hbrace : ¬ (c = 123 ∨ c = 125) := by
    rcases h.quote with rfl | rfl <;> decide
  rcases hcut.cuts hne hmark (fun hc => absurd hc hbrace) h.text_eq with ⟨l, t, r, hcur, ht, hl, hr⟩ | hlast
  · rw [hcur] at hcut hne
    have hlcut := hcut.markCut hne
    have hlne : ∀ u ∈ l, u.text ≠ [] := fun u hu => hne u (List.mem_append_left _ hu)
    refine .inl ⟨l, t, r, hcur, ht, hl, hr, hcur ▸ h.at_cur, ?_, hlcut, hlne⟩
    exact guarded_of_content h.slash hlcut hlne (hl ▸ h.content)
  · exact .inr hlast

/-- Behind an escaped backslash the quote is passed over. -/
theorem AtLiteral.misses (h : AtLiteral env text c X below s rest p) (hs : [92] <:+ s) :
    ¬ EndsAt env (.string [c] [92, c]) c X below rest p := by
  intro hends
  obtain ⟨-, hne⟩ := h.cut
  rcases h.quote_cases with ⟨l, t, r, hcur, ht, hl, hr, hin⟩ | ⟨hnil, l, t, hcur, ht⟩
  · obtain ⟨q, hrun, hthere⟩ := hends.at_token hne hcur ht hr
    rw [← hl] at hs
    obtain ⟨x, b, rfl, hb⟩ := (last_slash hin.cut hin.ne).1 hs
    have hlen := congrArg List.length hthere
    rcases hin.misses h.slash h.host ht hb hrun with hshort | ⟨x', hin'⟩
    · have hle := hshort.length_le
      rw [hthere, List.length_cons] at hle
      omega
    · rw [hin'.at_cur.cur] at hlen
      simp only [List.length_append, List.length_cons, List.length_nil] at hlen
      omega
  · exact ht (hends.last_token hne hcur hnil)

/-- **A string in code ends at the quote of its literal exactly if the content does not end with a
backslash**, and the quote is a token of its own if the template ends there. -/
theorem AtLiteral.string_ends_iff (h : AtLiteral env text c X below s rest p) :
    EndsAt env (.string [c] [92, c]) c X below rest p ↔
      ¬ [92] <:+ s ∧ (rest = [] → ∃ l t, p.cur = l ++ [t] ∧ t.text = [c]) := by
  obtain ⟨-, hne⟩ := h.cut
  constructor
  · exact fun hends => ⟨fun hs => h.misses hs hends, hends.own_token hne h.text_eq⟩
  · rintro ⟨hs, hlast⟩
    rcases h.quote_cases with ⟨l, t, r, hcur, ht, hl, hr, hin⟩ | ⟨hnil, l, t, hcur, ht⟩
    · have hnone : ∀ x b, l = x ++ [b] → b.text ≠ [92] := by
        intro x b hx hb
        exact hs (hl ▸ (last_slash hin.cut hin.ne).2 ⟨x, b, hx, hb⟩)
      obtain ⟨q, hrun, hq⟩ := hin.leadsTo h.slash h.host ht hnone
      obtain ⟨e, hstep, he, hchild⟩ := @goesTo_quote env _ _ _ _ _ _ h.slash h.host hq.at_cur ht
      have hcur' := he.cur
      exact ⟨q, e, t, hrun, hcur' ▸ hq.at_cur, ht, hstep, hcur' ▸ he, hchild, hcur' ▸ hr⟩
    · obtain ⟨l', t', hcur', ht'⟩ := hlast hnil
      obtain ⟨-, heq⟩ := List.append_inj' (hcur.symm.trans hcur') rfl
      exact absurd ht' ((List.cons.inj heq).1 ▸ ht)

/-- A string at the beginning of a block at the beginning of a template. -/
theorem opens_string {op q : Token} {ts : List Token} (hmore : ts ≠ [])
    (htext : tokenize text = rootToken :: op :: q :: ts) (hop : op.is "@\x7b" = true) (hq : q.is "\"" = true) :
    ∃ X below p, Reached env text p ∧ p.At (.string [34] [92, 34]) (X :: below) ts ∧ X.kind.Host := by
  obtain ⟨b, hrun, Y, -, -, hb⟩ := @opens_block env op (q :: ts) (List.cons_ne_nil q ts) hop
  have hfan : q.isAny fanWords = false := (Token.isAny_of_is hq _).trans (by decide)
  have hopen : ∀ a, orOpen [openExpr q, openCodeString q, openCodeBlock q] a
      = .openScope (.string [34] [92, 34]) 1 := by
    obtain ⟨t, line, col, pos⟩ := q
    obtain rfl : t = bytes "\"" := of_decide_eq_true hq
    exact fun a => rfl
  obtain ⟨p, hstep, X, hX, hp⟩ := @goesTo_open env _ _ _ _ _ .code hb hmore hfan _ hopen
  refine ⟨X, [Y], p, ?_, hp, hX ▸ .code⟩
  rw [Reached, htext]
  exact hrun.tail hstep

/-- `"1\"2"` in a block ends at its last quote. -/
theorem string_ends_word : ∃ X below p,
    AtLiteral blankTrim (bytes "@\x7b\"1\\\"2\"\x7d3") 34 X below (bytes "1\\\"2") (bytes "\x7d3") p ∧
      (EndsAt blankTrim (.string [34] [92, 34]) 34 X below (bytes "\x7d3") p ↔
        ¬ [92] <:+ bytes "1\\\"2" ∧ (bytes "\x7d3" = [] → ∃ l t, p.cur = l ++ [t] ∧ t.text = [34])) ∧
      EndsAt blankTrim (.string [34] [92, 34]) 34 X below (bytes "\x7d3") p := by
  have htokens : tokenize (bytes "@\x7b\"1\\\"2\"\x7d3") = [rootToken, ⟨bytes "@\x7b", 1, 1, 0⟩,
      ⟨bytes "\"", 1, 3, 2⟩, ⟨bytes "1", 1, 0, 2⟩, ⟨bytes "\\", 1, 5, 4⟩, ⟨bytes "\"", 1, 6, 5⟩,
      ⟨bytes "2", 1, 0, 5⟩, ⟨bytes "\"", 1, 8, 7⟩, ⟨bytes "\x7d", 1, 9, 8⟩, ⟨bytes "3", 1, 0, 8⟩] := by
    rw [tokenize_heads isNoLetter (by decide +kernel)]
    decide +kernel
  obtain ⟨X, below, p, hreached, hp, hX⟩ := @opens_string blankTrim _ _ _ _ (by simp) htokens rfl rfl
  have hcontent : LiteralContent 34 (bytes "1\\\"2") :=
    .char (by decide) (by decide) (.escape 34 (.char (by decide) (by decide) .nil))
  have hat : AtLiteral blankTrim (bytes "@\x7b\"1\\\"2\"\x7d3") 34 X below (bytes "1\\\"2")
      (bytes "\x7d3") p :=
    ⟨hreached, .inl rfl, ⟨hp.kind, hp.below, rfl⟩, hX, hcontent, by rw [hp.cur]; decide⟩
  have hiff := hat.string_ends_iff
  exact ⟨X, below, p, hat, hiff, hiff.2 ⟨by decide, fun h => absurd h (by decide)⟩⟩

/-- `"1\\"` in a block: the string goes on behind its quote. -/
theorem string_not_ended : ∃ X below p,
    AtLiteral blankTrim (bytes "@\x7b\"1\\\\\"\x7d2") 34 X below (bytes "1\\\\") (bytes "\x7d2") p ∧
      ¬ EndsAt blankTrim (.string [34] [92, 34]) 34 X below (bytes "\x7d2") p := by
  have htokens : tokenize (bytes "@\x7b\"1\\\\\"\x7d2") = [rootToken, ⟨bytes "@\x7b", 1, 1, 0⟩,
      ⟨bytes "\"", 1, 3, 2⟩, ⟨bytes "1", 1, 0, 2⟩, ⟨bytes "\\", 1, 5, 4⟩, ⟨bytes "\\", 1, 6, 5⟩,
      ⟨bytes "\"", 1, 7, 6⟩, ⟨bytes "\x7d", 1, 8, 7⟩, ⟨bytes "2", 1, 0, 7⟩] := by
    rw [tokenize_heads isNoLetter (by decide +kernel)]
    decide +kernel
  obtain ⟨X, below, p, hreached, hp, hX⟩ := @opens_string blankTrim _ _ _ _ (by simp) htokens rfl rfl
  have hat : AtLiteral blankTrim (bytes "@\x7b\"1\\\\\"\x7d2") 34 X below (bytes "1\\\\")
      (bytes "\x7d2") p :=
    ⟨hreached, .inl rfl, ⟨hp.kind, hp.below, rfl⟩, hX, .char (by decide) (by decide) (.escape 92 .nil),
      by rw [hp.cur]; decide⟩
  exact ⟨X, below, p, hat, hat.misses ⟨bytes "1\\", by decide⟩⟩

end Literals

end Fanjet

end LibEvmvc
