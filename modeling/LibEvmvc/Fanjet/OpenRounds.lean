import LibEvmvc.Fanjet.Rounds

set_option autoImplicit false

/-! # Opening and closing in a round

The parts the rounds of the parsers are made of, as good rounds: to go on by tokens, to close a scope,
and everything that opens one. -/

namespace LibEvmvc

namespace Fanjet

/-! ## Parts of a good round -/

section Parts

variable {r : Round} {a : Action} {t : Token} {rest : List Token}

theorem Action.Good.next_of (hcur : r.cur = t :: rest)
    (h : a.Good { r with cur := rest, moved := true, kept := true }) : (Action.next a).Good r := by
  rw [Action.Good, hcur]
  exact h

/-- `t = t->next()`, and the loop goes on. -/
theorem next_loop_good (hcur : r.cur = t :: rest) (hent : r.ent = true) (hkey : r.kind.isKey = false) :
    (Action.next .loop).Good r :=
  .next_of hcur ⟨rfl, hent, .inl rfl, hkey⟩

theorem closeScope_good (hcur : r.cur = t :: rest) (hsec : r.kind.isLiteralSec = false) :
    closeScope.Good r :=
  .next_of (r := { r with kept := false }) hcur ⟨hsec, rfl⟩

/-- The members of the parent change, and the scope is closed. -/
theorem setParent_close_good (hcur : r.cur = t :: rest) (hsec : r.kind.isLiteralSec = false)
    {q kind : NodeKind} (hparent : r.parent = some q) (hkeeps : q.Keeps kind) :
    (Action.setParent kind closeScope).Good r :=
  ⟨q, hparent, hkeeps, closeScope_good (r := { r with parent := _ }) hcur hsec⟩

/-- A statement that is done is closed at the next token. -/
theorem closeScopeAt_good {r : Round} (hcur : r.cur ≠ []) (hsec : r.kind.isLiteralSec = false) :
    (closeScopeAt r.cur).Good r := by
  cases h : r.cur with
  | nil => exact absurd h hcur
  | cons t rest => exact closeScope_good h hsec

theorem nextN_good (k : Nat) (hk : k ≤ r.cur.length)
    (h : a.Good { r with cur := r.cur.drop k, moved := r.moved || 0 < k, kept := r.kept || 0 < k }) :
    (nextN k a).Good r := by
  induction k generalizing r with
  | zero =>
    simp only [List.drop_zero, Nat.lt_irrefl, decide_false, Bool.or_false] at h
    exact h
  | succ k ih =>
    cases hcur : r.cur with
    | nil =>
      rw [hcur] at hk
      cases hk
    | cons t rest =>
      refine .next_of hcur (ih ?_ ?_)
      · rw [hcur] at hk
        exact Nat.le_of_succ_le_succ hk
      · simp only [hcur, List.drop_succ_cons, Nat.zero_lt_succ, decide_true, Bool.or_true] at h
        simpa using h

/-- What is opened is opened well, if anything. -/
def OpensGood (r : Round) (o : Option Action) : Prop := ∀ b ∈ o, b.Good r

theorem orOpen_good {opens : List (Option Action)} (hopens : ∀ o ∈ opens, OpensGood r o)
    (ha : a.Good r) : (orOpen opens a).Good r := by
  induction opens with
  | nil => exact ha
  | cons o opens ih =>
    cases o with
    | none => exact ih fun o ho => hopens o (List.mem_cons_of_mem _ ho)
    | some b => exact hopens _ (List.mem_cons_self ..) b rfl

theorem opensGood_none : OpensGood r none := fun b hb => by cases hb

theorem opensGood_some {b : Action} (h : b.Good r) : OpensGood r (some b) := by
  intro c hc
  cases hc
  exact h

/-- An action that is only there under a condition. -/
theorem opensGood_ite {c : Prop} [Decidable c] {o : Option Action} (h : c → OpensGood r o) :
    OpensGood r (if c then o else none) := by
  split
  · next hc => exact h hc
  · exact opensGood_none

theorem orOpen_one_good {r : Round} {o : Option Action} {a : Action} (ho : OpensGood r o)
    (ha : a.Good r) : (orOpen [o] a).Good r := by
  apply orOpen_good _ ha
  intro o' ho'
  rw [List.mem_singleton.1 ho']
  exact ho

/-- A parser that opens a node at a text it has just seen does so. -/
theorem orOpen_finish_good {r : Round} {o : Option Action} (ho : OpensGood r o) (hsome : o ≠ none) :
    (orOpen [o] .finish).Good r := by
  cases o with
  | none => exact absurd rfl hsome
  | some b => exact ho b rfl

/-- The parser is at a token, and may open a node there. -/
structure Round.At (r : Round) (t : Token) (rest : List Token) : Prop where
  cur : r.cur = t :: rest
  ent : r.ent = true
  comment : r.kind.isComment = false
  key : r.kind.isKey = false

theorem Round.At.next_loop_good (h : r.At t rest) : (Action.next .loop).Good r :=
  Fanjet.next_loop_good h.cur h.ent h.key

/-- The members of the node change. -/
theorem Round.At.set (h : r.At t rest) {kind : NodeKind} (hk : kind.Inner) :
    Round.At { r with kind } t rest :=
  ⟨h.cur, h.ent, hk.comment, hk.key⟩

theorem Token.ne_of_is {s : String} (h : t.is s = true) (hs : bytes s ≠ []) : t.text ≠ [] := by
  rw [Token.is, decide_eq_true_eq] at h
  rw [h]
  exact hs

theorem Token.ne_of_isAny {ss : List String} (h : t.isAny ss = true)
    (hss : (ss.all fun s => bytes s ≠ []) = true) : t.text ≠ [] := by
  obtain ⟨s, hs, his⟩ := List.any_eq_true.1 h
  exact Token.ne_of_is his (by simpa using List.all_eq_true.1 hss s hs)

theorem Round.At.openScope_good (h : r.At t rest) (ht : t.text ≠ []) (kind : NodeKind) {hup : Nat}
    (hhup : 1 ≤ hup) : (Action.openScope kind hup).Good r :=
  ⟨hhup, h.ent, h.comment, t, rest, h.cur, fun _ => ht⟩

theorem Round.At.openBoth_good (h : r.At t rest) (ht : t.text ≠ []) {kind : NodeKind} (inner : NodeKind)
    (hup : Nat) (hskips : kind.skipsDbg = true) (hkind : kind.isComment = false) :
    (Action.openBoth kind inner hup).Good r :=
  ⟨hskips, hkind, h.ent, h.comment, t, rest, h.cur, fun _ => ht⟩

/-- A node that is opened at a token with one text. -/
theorem Round.At.opens (h : r.At t rest) {s : String} (hs : bytes s ≠ []) (kind : NodeKind) :
    OpensGood r (if t.is s then some (.openScope kind 1) else none) :=
  opensGood_ite fun hc => opensGood_some (h.openScope_good (Token.ne_of_is hc hs) kind (Nat.le_refl 1))

/-- A node that is opened at a token with one of several texts. -/
theorem Round.At.opensAny (h : r.At t rest) {ss : List String}
    (hss : (ss.all fun s => bytes s ≠ []) = true) (kind : NodeKind) :
    OpensGood r (if t.isAny ss then some (.openScope kind 1) else none) :=
  opensGood_ite fun hc => opensGood_some (h.openScope_good (Token.ne_of_isAny hc hss) kind (Nat.le_refl 1))

end Parts

/-! ## What opens a scope -/

section Opens

variable {r : Round} {t : Token} {rest : List Token}

theorem openFanComment_good (h : r.At t rest) : OpensGood r (openFanComment t) := by
  refine opensGood_ite fun hc => opensGood_some (h.openScope_good ?_ _ (Nat.le_refl 1))
  rcases Bool.or_eq_true_iff.1 hc with hc | hc
  · exact Token.ne_of_isAny hc (by decide)
  · exact Token.ne_of_isAny hc (by decide)

theorem openFanDirective_good (h : r.At t rest) (pn : NodeKind) :
    OpensGood r (openFanDirective pn t) := by
  refine opensGood_ite fun hc => ?_
  split
  · exact opensGood_some trivial
  · exact opensGood_some (h.openScope_good (Token.ne_of_isAny hc (by decide)) _ (Nat.le_refl 1))

theorem openFanOutput_good (h : r.At t rest) : OpensGood r (openFanOutput t) :=
  opensGood_ite fun hc =>
    opensGood_some (h.openBoth_good (Token.ne_of_isAny hc (by decide)) _ _ rfl rfl)

theorem openFanCodeBlock_good (h : r.At t rest) : OpensGood r (openFanCodeBlock t) :=
  h.opens (by decide) _

theorem openCodeBlock_good (h : r.At t rest) : OpensGood r (openCodeBlock t) :=
  h.opens (by decide) _

theorem openFanControl_good (h : r.At t rest) : OpensGood r (openFanControl t) :=
  h.opensAny (by decide) _

theorem openControl_good (h : r.At t rest) (pn : NodeKind) : OpensGood r (openControl pn t) := by
  refine opensGood_ite fun hc => opensGood_some (h.openScope_good ?_ _ (Nat.le_refl 1))
  rcases Bool.or_eq_true_iff.1 hc with hc | hc
  · exact Token.ne_of_isAny hc (by decide)
  · exact Token.ne_of_is (Bool.and_eq_true_iff.1 hc).1 (by decide)

theorem openFanTry_good (h : r.At t rest) : OpensGood r (openFanTry t) :=
  h.opens (by decide) _

theorem openTry_good (h : r.At t rest) : OpensGood r (openTry t) :=
  h.opens (by decide) _

theorem openFanFuniFunc_good (h : r.At t rest) : OpensGood r (openFanFuniFunc t) :=
  h.opensAny (by decide) _

theorem openFanFunaAwait_good (h : r.At t rest) : OpensGood r (openFanFunaAwait t) :=
  h.opensAny (by decide) _

theorem openExpr_good (h : r.At t rest) : OpensGood r (openExpr t) := by
  unfold openExpr
  split
  · next hc => exact opensGood_some (h.openScope_good (Token.ne_of_is hc (by decide)) _ (Nat.le_refl 1))
  · exact h.opensAny (by decide) _

theorem openFanMarkup_good (env : FanEnv) (h : r.At t rest) :
    OpensGood r (openFanMarkup env t rest) := by
  refine opensGood_ite fun hc => ?_
  have hne := Token.ne_of_isAny hc (by decide)
  -- whatever the language, the parenthesis is part of what goes into the node
  split
  · exact opensGood_some (h.openScope_good hne _ (Nat.le_add_left 1 _))
  · split
    · exact opensGood_some (h.openScope_good hne _ (Nat.le_add_left 1 _))
    · dsimp only
      split
      · exact opensGood_some trivial
      · split
        · exact opensGood_some (h.openScope_good hne _ (Nat.le_add_left 1 _))
        · exact opensGood_some (h.openScope_good hne _ (Nat.le_add_left 1 _))

theorem openFanKey_good (h : r.At t rest) : OpensGood r (openFanKey t) :=
  h.opensAny (by decide) _

theorem openFanFn_good (h : r.At t rest) : OpensGood r (openFanFn t) := by
  refine opensGood_ite fun hc => ?_
  have hne := Token.ne_of_isAny hc (by decide)
  split
  · exact opensGood_some (h.openBoth_good hne _ _ rfl rfl)
  · exact opensGood_some (h.openScope_good hne _ (Nat.le_refl 1))

theorem openTag_good (h : r.At t rest) : OpensGood r (openTag t rest) := by
  refine opensGood_ite fun hc => ?_
  split
  · exact opensGood_none
  · exact opensGood_some (h.openScope_good (Token.ne_of_is hc (by decide)) _ (Nat.le_refl 1))

theorem openCodeString_good (h : r.At t rest) : OpensGood r (openCodeString t) :=
  h.opensAny (by decide) _

/-- The line after a line break in markdown is blank, is indented by four blanks or more, and is the
    last one. -/
def endsIndented : List Token → Bool
  | t :: nt :: rest =>
    t.is "\n" && nt.is " " && (nt :: rest).all (·.isAny [" ", "\t"]) && 4 ≤ (nt :: rest).length
  | _ => false

/-- There is something behind the indentation of a line of markdown. -/
theorem indentation_lt {nt : Token} (ht : t.is "\n" = true)
    (h : endsIndented (t :: nt :: rest) = false) {blanks : List Token}
    (hblanks : blanks = if nt.is " " then (nt :: rest).takeWhile fun nt => nt.isAny [" ", "\t"] else [])
    (hline : 4 ≤ blanks.length ∨ nt.is "\t" = true) : blanks.length < (nt :: rest).length := by
  split at hblanks
  · next hnt =>
    have hlen : 4 ≤ blanks.length := by
      refine hline.resolve_right fun htab => ?_
      rw [Token.is, decide_eq_true_eq] at hnt htab
      rw [hnt] at htab
      exact absurd htab (by decide)
    have hpre : blanks <+: nt :: rest := hblanks ▸ List.takeWhile_prefix _
    refine Nat.lt_of_le_of_ne hpre.length_le fun heq => ?_
    have hall : (nt :: rest).all (fun nt => nt.isAny [" ", "\t"]) = true := by
      rw [← hpre.eq_of_length heq, hblanks, List.all_takeWhile]
    rw [heq] at hlen
    rw [endsIndented, ht, hnt, hall, decide_eq_true hlen] at h
    cases h
  · rw [hblanks]
    exact Nat.zero_lt_succ _

theorem openMarkdownString_good (h : r.At t rest) (hsec : r.kind.isLiteralSec = false)
    (hend : endsIndented (t :: rest) = false) : OpensGood r (openMarkdownString t rest) := by
  unfold openMarkdownString
  split
  · next ht =>
    cases rest with
    | nil => exact opensGood_none
    | cons nt rest =>
      dsimp only
      generalize hblanks : (if nt.is " " then
        (nt :: rest).takeWhile fun nt => nt.isAny [" ", "\t"] else []) = blanks
      by_cases hline : 4 ≤ blanks.length ∨ nt.is "\t" = true
      · have hlt := indentation_lt ht hend hblanks.symm hline
        rw [if_pos hline]
        apply opensGood_some
        apply nextN_good
        · rw [h.cur, List.length_cons]
          omega
        · have hdrop : r.cur.drop (1 + blanks.length) = (nt :: rest).drop blanks.length := by
            rw [h.cur, Nat.add_comm]
            rfl
          obtain ⟨u, us, hu⟩ := List.exists_cons_of_ne_nil (mt List.drop_eq_nil_iff.1 (Nat.not_le.2 hlt))
          exact ⟨Nat.le_refl 1, h.ent, h.comment, u, us, hdrop.trans hu,
            fun hlit => absurd (hlit.symm.trans hsec) (by simp)⟩
      · rw [if_neg hline]
        refine opensGood_ite fun hc => opensGood_some (.next_of h.cur ?_)
        have hat : Round.At { r with cur := nt :: rest, moved := true, kept := true } nt rest :=
          ⟨rfl, h.ent, h.comment, h.key⟩
        exact hat.openScope_good (Token.ne_of_isAny hc (by decide)) _ (Nat.le_refl 1)
  · exact h.opensAny (by decide) _

theorem openCodeBlock_ne {t : Token} (h : t.is "\x7b" = true) : openCodeBlock t ≠ none := by
  rw [openCodeBlock, if_pos h]
  simp

theorem openExpr_ne {t : Token} (h : t.is "(" = true) : openExpr t ≠ none := by
  rw [openExpr, if_pos h]
  simp

theorem openFanComment_ne {t : Token} (h : t.isFanComment = true) : openFanComment t ≠ none := by
  rw [openFanComment, if_pos (by rw [h]; rfl)]
  simp

/-- The members of a node change, and a node is opened in it. -/
theorem Round.At.set_open_good (h : r.At t rest) {kind : NodeKind} (hkeeps : r.kind.Keeps kind)
    (hk : kind.Inner) {o : Option Action} (hsome : o ≠ none)
    (ho : ∀ r' : Round, r'.At t rest → OpensGood r' o) :
    (Action.set kind (orOpen [o] .finish)).Good r :=
  ⟨hkeeps, orOpen_finish_good (ho _ (h.set hk)) hsome⟩

/-- A statement ends with the token it is at: the token is added, and the parent goes on. -/
theorem Round.At.set_end_good (h : r.At t rest) {kind : NodeKind} (hkeeps : r.kind.Keeps kind)
    (hk : kind.Inner) : (Action.set kind (.next (.attach .passUp))).Good r :=
  ⟨hkeeps, .next_of (h.set hk).cur ⟨hk.literalSec, rfl⟩⟩

theorem literalOpens_good (env : FanEnv) {r : Round} {t : Token} {rest : List Token} (hat : r.At t rest)
    (k : NodeKind) : ∀ o ∈ literalOpens env k t rest, OpensGood r o := by
  intro o ho
  simp only [literalOpens, List.mem_cons, List.not_mem_nil, or_false] at ho
  rcases ho with rfl | rfl | rfl | rfl | rfl | rfl | rfl | rfl | rfl | rfl
  · exact openFanComment_good hat
  · exact openFanDirective_good hat k
  · exact openFanOutput_good hat
  · exact openFanCodeBlock_good hat
  · exact openFanControl_good hat
  · exact openFanTry_good hat
  · exact openFanFuniFunc_good hat
  · exact openFanMarkup_good env hat
  · exact openFanKey_good hat
  · exact openFanFn_good hat

theorem tagOpens_good (env : FanEnv) {r : Round} {t : Token} {rest : List Token} (hat : r.At t rest) :
    ∀ o ∈ tagOpens env t rest, OpensGood r o := by
  intro o ho
  simp only [tagOpens, List.mem_cons, List.not_mem_nil, or_false] at ho
  rcases ho with rfl | rfl | rfl | rfl | rfl | rfl | rfl | rfl | rfl | rfl
  · exact openFanComment_good hat
  · exact openFanOutput_good hat
  · exact openFanCodeBlock_good hat
  · exact openFanControl_good hat
  · exact openFanTry_good hat
  · exact openFanFuniFunc_good hat
  · exact openFanFunaAwait_good hat
  · exact openFanMarkup_good env hat
  · exact openFanKey_good hat
  · exact openFanFn_good hat

end Opens

end Fanjet

end LibEvmvc
