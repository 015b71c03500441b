import LibEvmvc.Fanjet.Frames

set_option autoImplicit false

/-! # Where an expression ends

The loop of `expr_node_t::parse` looks at the tokens one by one and opens a node at what opens one. Behind an
operator or a `;` it goes on by a token before it looks for the end, so this token opens nothing. `ExprReads`
are the tokens that it so reads up to the end of the expression, and no others (`expr_closes_iff`). -/

namespace LibEvmvc

namespace Fanjet

/-! ## A round -/

/-- What an expression opens at a token. -/
def exprOpens (type : ExprType) (t : Token) : Option Action :=
  [openFanComment t, openFanDirective (.expr type) t, openFanOutput t, openFanKey t, openFanFn t, openExpr t,
    openCodeString t, openCodeBlock t].findSome? id

/-- An action that opens a node. -/
inductive Action.Opening : Action → Prop
  | scope (kind : NodeKind) : Action.Opening (.openScope kind 1)
  | both (kind inner : NodeKind) (hup : Nat) : Action.Opening (.openBoth kind inner hup)
  | fail (err : FanError) : Action.Opening (.fail err)

section Rounds

variable {env : FanEnv} {p q : Parsing} {type : ExprType} {X : OpenNode} {B : List OpenNode} {t : Token}
  {rest : List Token}

theorem opening_ite {c : Prop} [Decidable c] {kind : NodeKind} {a : Action}
    (h : (if c then some (.openScope kind 1) else none) = some a) : a.Opening := by
  split at h
  · cases h
    exact .scope kind
  · cases h

theorem exprOpens_opening {a : Action} (h : exprOpens type t = some a) : a.Opening := by
  have hall : ∀ o ∈ [openFanComment t, openFanDirective (.expr type) t, openFanOutput t, openFanKey t,
      openFanFn t, openExpr t, openCodeString t, openCodeBlock t], ∀ b, o = some b → b.Opening := by
    simp only [List.forall_mem_cons, List.not_mem_nil, false_imp_iff, implies_true, and_true]
    refine ⟨fun b hb => opening_ite hb, fun b hb => ?_, fun b hb => ?_, fun b hb => opening_ite hb,
      fun b hb => ?_, fun b hb => ?_, fun b hb => opening_ite hb, fun b hb => opening_ite hb⟩
    · unfold openFanDirective at hb
      split at hb
      · cases hb
        exact .fail _
      · cases hb
    · unfold openFanOutput at hb
      split at hb
      · cases hb
        exact .both _ _ _
      · cases hb
    · unfold openFanFn at hb
      split at hb
      · split at hb
        · cases hb
          exact .both _ _ _
        · cases hb
          exact .scope _
      · cases hb
    · unfold openExpr at hb
      split at hb
      · cases hb
        exact .scope _
      · exact opening_ite hb
  obtain ⟨o, ho, hoa⟩ := List.exists_of_findSome?_eq_some h
  exact hall o ho a hoa

/-- The round of an expression at a token. -/
theorem parseStep_expr (hp : p.At (.expr type) B (t :: rest)) :
    ∃ top : OpenNode, top.kind = .expr type ∧ parseStep env p = act { p with top }
      ((exprOpens type t).getD (exprRound env type (B.head?.map OpenNode.kind) t rest)) := by
  have haction : parseAction env p = exprParse env p.entry p.top type (B.head?.map OpenNode.kind) (t :: rest) := by
    unfold parseAction
    simp only [hp.kind, hp.cur, hp.below]
  have hbody {n : OpenNode} (hn : n.kind = .expr type) :
      orOpen [openFanComment t, openFanDirective n.kind t, openFanOutput t, openFanKey t, openFanFn t, openExpr t,
        openCodeString t, openCodeBlock t] (exprRound env type (B.head?.map OpenNode.kind) t rest)
        = (exprOpens type t).getD (exprRound env type (B.head?.map OpenNode.kind) t rest) := by
    rw [hn]
    rfl
  rw [parseStep, haction, exprParse, entered]
  split
  · exact ⟨{ p.top with dbgLine := t.line, dbgCol := t.col }, hp.kind, congrArg (act _) (hbody hp.kind)⟩
  · exact ⟨p.top, hp.kind, congrArg (act _) (hbody hp.kind)⟩

/-- Without a token there is an error. -/
theorem parseStep_expr_nil (hp : p.At (.expr type) B []) (q : Parsing) : ¬ Steps env p q := by
  intro h
  rw [Steps, parseStep, parseAction, hp.kind, hp.cur] at h
  dsimp only at h
  rw [exprParse, entered] at h
  split at h
  · cases h
  · cases h

/-- Behind the parameters of an asynchronous function there is a `;` or a block. -/
def ParentReady (env : FanEnv) (type : ExprType) (k : NodeKind) (rest : List Token) : Prop :=
  ∀ an, type = .parens → k = .codeAsync an → an.sec = .codeFuna →
    (firstSolid env rest).any (·.isAny [";", "\x7b"]) = true

/-- At the token that ends an expression. -/
theorem exprEnd_close (k : NodeKind) (ht : t.is type.close = true) :
    (ParentReady env type k rest ∧ (exprEnd env type (some k) t rest = closeScope ∨
      ∃ kind, exprEnd env type (some k) t rest = .setParent kind closeScope)) ∨
    ¬ ParentReady env type k rest ∧ ∃ err, exprEnd env type (some k) t rest = .fail err := by
  cases type with
  | semicol =>
    have ht' : t.is ";" = true := ht
    refine .inl ⟨nofun, .inl ?_⟩
    simp [exprEnd, ht']
  | parens =>
    have ht' : t.is ")" = true := ht
    have hend (k : NodeKind) (hk : k.TakesExpr) : exprEnd env .parens (some k) t rest = closeScope := by
      simp only [exprEnd, ht', decide_true, Bool.and_self, if_true]
      cases k with
      | codeAsync an => exact absurd rfl (hk an)
      | _ => rfl
    by_cases hk : k.TakesExpr
    · exact .inl ⟨fun an _ heq _ => absurd heq (hk an), .inl (hend k hk)⟩
    · unfold NodeKind.TakesExpr at hk
      push Not at hk
      obtain ⟨an, rfl⟩ := hk
      simp only [exprEnd, ht', decide_true, Bool.and_self, if_true]
      by_cases hsec : an.sec = .codeFuna
      · have hready : ParentReady env .parens (.codeAsync an) rest ↔
            (firstSolid env rest).any (·.is ";") = true ∨ (firstSolid env rest).any (·.is "\x7b") = true := by
          cases hfirst : firstSolid env rest with
          | none => simp [ParentReady, hfirst, hsec]
          | some u => simp [ParentReady, hfirst, hsec, Token.isAny]
        rw [hready, if_pos hsec]
        by_cases hsemicol : (firstSolid env rest).any (·.is ";") = true
        · rw [if_pos hsemicol]
          exact .inl ⟨.inl hsemicol, .inr ⟨_, rfl⟩⟩
        · rw [if_neg hsemicol]
          by_cases hbrace : (firstSolid env rest).any (·.is "\x7b") = true
          · rw [if_pos hbrace]
            exact .inl ⟨.inr hbrace, .inr ⟨_, rfl⟩⟩
          · rw [if_neg hbrace]
            exact .inr ⟨not_or.2 ⟨hsemicol, hbrace⟩, _, rfl⟩
      · rw [if_neg hsec]
        refine .inl ⟨fun an' _ heq hsec' => ?_, .inl rfl⟩
        cases heq
        exact absurd hsec' hsec

/-- The end of a round at the token that ends the expression. -/
theorem exprEnd_closes (ht : t.is type.close = true) (hready : ParentReady env type X.kind rest)
    (hp : p.At (.expr type) (X :: B) (t :: rest)) :
    ∃ q, act p (exprEnd env type (some X.kind) t rest) = .go q ∧ q.below = B ∧ q.cur = rest := by
  have hclose {Y : OpenNode} {p : Parsing} (hp : p.At (.expr type) (Y :: B) (t :: rest)) :
      ∃ q, act p closeScope = .go q ∧ q.below = B ∧ q.cur = rest := by
    obtain ⟨q, hgo, hq, -⟩ := goesTo_close hp
    exact ⟨q, hgo, hq.below, hq.cur⟩
  rcases @exprEnd_close env type t rest X.kind ht with ⟨-, hend | ⟨kind, hend⟩⟩ | ⟨hnot, -⟩
  · rw [hend]
    exact hclose hp
  · have hset : ({ p with below := { X with kind } :: B } : Parsing).At (.expr type) ({ X with kind } :: B)
        (t :: rest) := ⟨hp.kind, rfl, hp.cur⟩
    rw [hend, act, hp.below]
    exact hclose hset
  · exact absurd hready hnot

/-- At another token. -/
theorem exprEnd_next (ht : t.is type.close = false) (hp : p.At (.expr type) (X :: B) (t :: rest)) :
    ∃ q, act p (exprEnd env type (some X.kind) t rest) = .go q ∧ q.At (.expr type) (X :: B) rest := by
  rw [exprEnd_plain _ _ ht]
  exact goesTo_next hp

/-- The end of a round, if there is a next one. -/
theorem exprEnd_cases (hp : p.At (.expr type) (X :: B) (t :: rest))
    (h : act p (exprEnd env type (some X.kind) t rest) = .go q) :
    (t.is type.close = true ∧ ParentReady env type X.kind rest ∧ q.below = B ∧ q.cur = rest) ∨
      (t.is type.close = false ∧ q.At (.expr type) (X :: B) rest) := by
  cases ht : t.is type.close with
  | false =>
    obtain ⟨q', hgo, hq'⟩ := @exprEnd_next env _ _ _ _ _ _ ht hp
    cases h.symm.trans hgo
    exact .inr ⟨rfl, hq'⟩
  | true =>
    rcases @exprEnd_close env type t rest X.kind ht with ⟨hready, -⟩ | ⟨-, err, hend⟩
    · obtain ⟨q', hgo, hq'⟩ := exprEnd_closes ht hready hp
      cases h.symm.trans hgo
      exact .inl ⟨rfl, hready, hq'⟩
    · rw [hend] at h
      cases h

/-- A round at a token that opens nothing. -/
theorem round_plain (ht : exprOpens type t = none) (hop : splitsOff type t = false)
    (hp : p.At (.expr type) (X :: B) (t :: rest)) :
    ∃ p', p'.At (.expr type) (X :: B) (t :: rest) ∧
      parseStep env p = act p' (exprEnd env type (some X.kind) t rest) := by
  obtain ⟨top, htop, hround⟩ := @parseStep_expr env _ _ _ _ _ hp
  rw [ht, Option.getD_none, exprRound_plain hop] at hround
  exact ⟨_, hp.top htop, hround⟩

/-- A round at an operator: its end is at the token behind it. -/
theorem round_operator {u : Token} (ht : exprOpens type t = none) (hop : splitsOff type t = true)
    (hp : p.At (.expr type) (X :: B) (t :: u :: rest)) :
    ∃ p', p'.At (.expr type) (X :: B) (u :: rest) ∧
      parseStep env p = act p' (exprEnd env type (some X.kind) u rest) := by
  obtain ⟨top, htop, hround⟩ := @parseStep_expr env _ _ _ _ _ hp
  rw [ht, Option.getD_none, exprRound_splits hop] at hround
  refine ⟨{ p with top := (top.addToken p.pre).addToken [t], pre := [], cur := u :: rest }, ⟨?_, hp.below, rfl⟩, ?_⟩
  · rw [OpenNode.kind_addToken, OpenNode.kind_addToken, htop]
  · rw [hround]
    simp only [act, hp.cur, List.nil_append]
    rfl

/-- At an operator that is the last token, a null token is dereferenced. -/
theorem round_last (ht : exprOpens type t = none) (hop : splitsOff type t = true)
    (hp : p.At (.expr type) (X :: B) [t]) (q : Parsing) : ¬ Steps env p q := by
  intro h
  obtain ⟨top, htop, hround⟩ := @parseStep_expr env _ _ _ _ _ hp
  rw [Steps, hround, ht, Option.getD_none, exprRound, if_pos hop] at h
  cases h

/-- A round at a token that opens a node. -/
theorem round_opens {a : Action} (ht : exprOpens type t = some a) (hp : p.At (.expr type) B (t :: rest)) :
    ∃ p', p'.At (.expr type) B (t :: rest) ∧ parseStep env p = act p' a := by
  obtain ⟨top, htop, hround⟩ := @parseStep_expr env _ _ _ _ _ hp
  rw [ht, Option.getD_some] at hround
  exact ⟨_, hp.top htop, hround⟩

/-- The node is opened in the expression. -/
theorem Action.Opening.frame {a : Action} (ha : a.Opening) (hp : p.At (.expr type) B (t :: rest))
    (h : act p a = .go q) : ∃ X, X.kind = .expr type ∧ X :: B <:+ q.below ∧ q.cur <:+ rest := by
  have hX : (p.top.addToken p.pre).kind = .expr type := by
    rw [OpenNode.kind_addToken, hp.kind]
  refine ⟨p.top.addToken p.pre, hX, ?_⟩
  cases ha with
  | scope kind =>
    rw [act, hp.cur] at h
    dsimp only at h
    split at h
    · cases h
      rw [Parsing.open, hp.below, hp.cur]
      exact ⟨List.suffix_refl _, List.suffix_refl rest⟩
    · cases h
  | both kind inner hup =>
    rw [act, hp.cur] at h
    split at h
    · cases h
    · cases h
    · next u v w heq =>
      split at h
      · cases h
        rw [Parsing.open, Parsing.open, hp.below, hp.cur]
        exact ⟨List.suffix_cons _ _, List.drop_suffix hup rest⟩
      · cases h
  | fail err => cases h

end Rounds

/-! ## What is read up to the end of an expression -/

/-- An expression at these tokens. -/
def exprAt (type : ExprType) (cur : List Token) : Parsing where
  top := { kind := .expr type, dbgLine := 1, dbgCol := 1, childs := [] }
  below := []
  pre := []
  cur := cur
  entry := true

/-- The node that an expression opens at `t` takes the tokens `g`: its parser, and those it calls, close it
there. -/
def NodeTakes (env : FanEnv) (type : ExprType) (t : Token) (g tail : List Token) : Prop :=
  ∃ a q r, exprOpens type t = some a ∧ act (exprAt type (t :: (g ++ tail))) a = .go q ∧
    ClosesTo env 1 q r ∧ r.cur = tail

/-- The tokens an expression reads up to `tail`, which begins with the token that ends it. An expression in it
is read in the same way; a string, a block, or a node of fanjet's own takes what its parser takes. -/
inductive ExprReads (env : FanEnv) : ExprType → List Token → List Token → Prop
  | done {type : ExprType} {tail : List Token} : ExprReads env type tail []
  | plain {type : ExprType} {tail ts : List Token} {t : Token} (ht : exprOpens type t = none)
      (hop : splitsOff type t = false) (hclose : t.is type.close = false) (hts : ExprReads env type tail ts) :
      ExprReads env type tail (t :: ts)
  | passed {type : ExprType} {tail ts : List Token} {t u : Token} (ht : exprOpens type t = none)
      (hop : splitsOff type t = true) (hclose : u.is type.close = false) (hts : ExprReads env type tail ts) :
      ExprReads env type tail (t :: u :: ts)
  | last {type : ExprType} {tail : List Token} {t : Token} (ht : exprOpens type t = none)
      (hop : splitsOff type t = true) : ExprReads env type tail [t]
  | nested {type type' : ExprType} {tail g ts : List Token} {t r : Token}
      (ht : exprOpens type t = some (.openScope (.expr type') 1)) (hr : r.is type'.close = true)
      (hg : ExprReads env type' (r :: (ts ++ tail)) g) (hts : ExprReads env type tail ts) :
      ExprReads env type tail (t :: (g ++ r :: ts))
  | other {type : ExprType} {tail g ts : List Token} {t : Token}
      (ht : ∀ type', exprOpens type t ≠ some (.openScope (.expr type') 1))
      (hg : NodeTakes env type t g (ts ++ tail)) (hts : ExprReads env type tail ts) :
      ExprReads env type tail (t :: (g ++ ts))

/-- The expression is closed, and its parent goes on at `rest`. -/
def ClosesAt (env : FanEnv) (p : Parsing) (rest : List Token) : Prop :=
  ∃ r, ClosesTo env p.below.length p r ∧ r.cur = rest

section Reads

variable {env : FanEnv} {p q r : Parsing} {type : ExprType} {X : OpenNode} {B : List OpenNode} {t c : Token}
  {E rest tail : List Token}

/-- The token that ends an expression opens nothing. -/
theorem exprOpens_close (hc : c.is type.close = true) :
    exprOpens type c = none ∧ splitsOff type c = false := by
  obtain ⟨text, line, col, pos⟩ := c
  cases type with
  | parens =>
    obtain rfl : text = bytes ")" := of_decide_eq_true hc
    exact ⟨rfl, rfl⟩
  | semicol =>
    obtain rfl : text = bytes ";" := of_decide_eq_true hc
    exact ⟨rfl, rfl⟩

theorem parentReady_expr {type' : ExprType} (hX : X.kind = .expr type') : ParentReady env type X.kind rest := by
  intro an _ hasync
  rw [hX] at hasync
  cases hasync

/-- The node that is opened in expressions with other nodes below them. -/
theorem Action.Opening.alike {a : Action} (ha : a.Opening) {p' : Parsing} {B' : List OpenNode}
    (hp : p.At (.expr type) B (t :: rest)) (hp' : p'.At (.expr type) B' (t :: rest)) (h : act p a = .go q) :
    ∃ q', act p' a = .go q' ∧ Alike B B' q q' := by
  have halike : Alike B B' { p with entry := true } { p' with entry := true } :=
    ⟨hp'.kind.trans hp.kind.symm, hp'.cur.trans hp.cur.symm, rfl, [], [], hp.below, hp'.below, rfl⟩
  cases ha with
  | scope kind =>
    rw [act, hp.cur] at h
    rw [act, hp'.cur]
    dsimp only at h ⊢
    split at h
    · next hlen =>
      cases h
      exact ⟨_, if_pos hlen, halike.opened kind 1⟩
    · cases h
  | both kind inner hup =>
    rw [act, hp.cur] at h
    rw [act, hp'.cur]
    split at h
    · cases h
    · cases h
    · split at h
      · next hlen =>
        cases h
        exact ⟨_, if_pos hlen, (halike.opened kind 1).opened inner hup⟩
      · cases h
  | fail err => cases h

/-- A node in the expression is closed, and the expression goes on. -/
theorem closes_behind {m : Parsing} {X' : OpenNode} (hX' : X'.kind = .expr type) (hstep : Steps env p q)
    (hframe : X' :: X :: B <:+ q.below) (hm : ClosesTo env ((X :: B).length + 1) q m)
    (hrest : m.At (.expr type) (X :: B) m.cur → ∃ r, ClosesTo env (B.length + 1) m r ∧ r.cur = rest) :
    ∃ r, ClosesTo env (B.length + 1) p r ∧ r.cur = rest := by
  have hat := hm.at_expr hX' hframe
  obtain ⟨r, hr, hcur⟩ := hrest hat
  have hq := hframe.length_le
  rw [List.length_cons, List.length_cons] at hq
  have hdepth : B.length + 1 ≤ m.below.length := by
    rw [hat.below, List.length_cons]
  exact ⟨r, .step hstep (by omega) (ReturnsTo.trans hm (by simp) hdepth hr), hcur⟩

/-- A round ends with the expression. -/
theorem closes_here {p' : Parsing}
    (hround : parseStep env p = act p' (exprEnd env type (some X.kind) c rest)) (hc : c.is type.close = true)
    (hready : ParentReady env type X.kind rest) (hp' : p'.At (.expr type) (X :: B) (c :: rest)) :
    ∃ r, ClosesTo env (B.length + 1) p r ∧ r.cur = rest := by
  obtain ⟨q, hgo, hbelow, hcur⟩ := exprEnd_closes hc hready hp'
  refine ⟨q, .last (hround.trans hgo) ?_, hcur⟩
  rw [hbelow]
  exact Nat.lt_succ_self _

/-- A round ends at another token. -/
theorem closes_later {p' : Parsing} {u : Token} {ts : List Token}
    (hround : parseStep env p = act p' (exprEnd env type (some X.kind) u ts)) (hu : u.is type.close = false)
    (hp' : p'.At (.expr type) (X :: B) (u :: ts))
    (hrest : ∀ q, q.At (.expr type) (X :: B) ts → ∃ r, ClosesTo env (B.length + 1) q r ∧ r.cur = rest) :
    ∃ r, ClosesTo env (B.length + 1) p r ∧ r.cur = rest := by
  obtain ⟨q, hgo, hq⟩ := exprEnd_next hu hp'
  obtain ⟨r, hr, hcur⟩ := hrest q hq
  refine ⟨r, .step (hround.trans hgo) ?_ hr, hcur⟩
  rw [hq.below]
  exact Nat.le_refl _

/-- What an expression reads is what it is made of. -/
theorem ExprReads.closes (h : ExprReads env type tail E) (htail : tail = c :: rest) (hc : c.is type.close = true)
    (hready : ParentReady env type X.kind rest) (hp : p.At (.expr type) (X :: B) (E ++ tail)) :
    ∃ r, ClosesTo env (B.length + 1) p r ∧ r.cur = rest := by
  induction h generalizing p X B c rest with
  | done =>
    rw [List.nil_append, htail] at hp
    obtain ⟨hopens, hop⟩ := exprOpens_close hc
    obtain ⟨p', hp', hround⟩ := round_plain hopens hop hp
    exact closes_here hround hc hready hp'
  | plain ht hop hclose _ ih =>
    obtain ⟨p', hp', hround⟩ := round_plain ht hop hp
    exact closes_later hround hclose hp' fun q hq => ih htail hc hready hq
  | passed ht hop hclose _ ih =>
    obtain ⟨p', hp', hround⟩ := round_operator ht hop hp
    exact closes_later hround hclose hp' fun q hq => ih htail hc hready hq
  | last ht hop =>
    rw [htail] at hp
    obtain ⟨p', hp', hround⟩ := round_operator ht hop hp
    exact closes_here hround hc hready hp'
  | @nested type type' tail g ts t r ht hr _ _ ihg ih =>
    rw [List.cons_append, List.append_assoc, List.cons_append] at hp
    obtain ⟨p', hp', hround⟩ := round_opens ht hp
    obtain ⟨q, hgo, X', hX', hq⟩ := goesTo_openScope hp' (by simp) (.expr type')
    obtain ⟨m, hm, hcur⟩ := ihg rfl hr (parentReady_expr hX') hq
    refine closes_behind hX' (hround.trans hgo) (by rw [hq.below]) hm fun hat => ?_
    rw [hcur] at hat
    exact ih htail hc hready hat
  | @other type tail g ts t ht hg _ ih =>
    rw [List.cons_append, List.append_assoc] at hp
    obtain ⟨a, q₀, r₀, ha, hgo₀, hcloses, hend⟩ := hg
    have hopening := exprOpens_opening ha
    have hp₀ : (exprAt type (t :: (g ++ (ts ++ tail)))).At (.expr type) [] (t :: (g ++ (ts ++ tail))) :=
      ⟨rfl, rfl, rfl⟩
    obtain ⟨p', hp', hround⟩ := round_opens ha hp
    obtain ⟨q, hgo, halike⟩ := hopening.alike hp₀ hp' hgo₀
    obtain ⟨X₀, -, hframe₀, -⟩ := hopening.frame hp₀ hgo₀
    obtain ⟨X', hX', hframe, -⟩ := hopening.frame hp' hgo
    have hne : r₀.cur ≠ [] := by
      rw [hend, htail]
      simp
    obtain ⟨m, hm, hcur⟩ := halike.closes hframe₀.length_le hne hcloses
    refine closes_behind hX' (hround.trans hgo) hframe hm fun hat => ?_
    rw [hcur, hend] at hat
    exact ih htail hc hready hat

/-- The first round of a node that is closed. -/
theorem ClosesTo.first {n : Nat} (h : ClosesTo env n p r) :
    ∃ q, Steps env p q ∧ ((q = r ∧ r.below.length < n) ∨ (n ≤ q.below.length ∧ ClosesTo env n q r)) := by
  cases h with
  | last hstep hr => exact ⟨r, hstep, .inl ⟨rfl, hr⟩⟩
  | step hstep hq hrest => exact ⟨_, hstep, .inr ⟨hq, hrest⟩⟩

theorem openScope_at {k kind : NodeKind} (hp : p.At k B (t :: rest)) (h : act p (.openScope kind 1) = .go q) :
    ∃ X, X.kind = k ∧ q.At kind (X :: B) rest := by
  by_cases hmore : rest = []
  · rw [act, hp.cur, hmore] at h
    cases h
  · obtain ⟨q', hgo, hq⟩ := goesTo_openScope hp hmore kind
    cases h.symm.trans hgo
    exact hq

/-- The other way round: what an expression has read when it is closed. -/
theorem reads_of_closes (hp : p.At (.expr type) (X :: B) p.cur) (h : ClosesTo env (B.length + 1) p r) :
    ∃ E c, p.cur = E ++ c :: r.cur ∧ c.is type.close = true ∧ ParentReady env type X.kind r.cur ∧
      ExprReads env type (c :: r.cur) E := by
  induction hk : p.cur.length using Nat.strong_induction_on generalizing p type X B r with
  | _ k ih =>
    obtain ⟨q, hstep, hrest⟩ := h.first
    -- what is left when the round has ended at `u`
    have hend {p' : Parsing} {u : Token} {ts : List Token} (hlen : ts.length < k)
        (hround : parseStep env p = act p' (exprEnd env type (some X.kind) u ts))
        (hp' : p'.At (.expr type) (X :: B) (u :: ts)) :
        (u.is type.close = true ∧ ts = r.cur ∧ ParentReady env type X.kind r.cur) ∨
          (u.is type.close = false ∧ ∃ E c, ts = E ++ c :: r.cur ∧ c.is type.close = true ∧
            ParentReady env type X.kind r.cur ∧ ExprReads env type (c :: r.cur) E) := by
      rcases exprEnd_cases hp' (hround.symm.trans hstep) with ⟨hclose, hready, hbelow, hcur⟩ | ⟨hclose, hq⟩
      · rcases hrest with ⟨rfl, -⟩ | ⟨hdepth, -⟩
        · exact .inl ⟨hclose, hcur.symm, hcur ▸ hready⟩
        · rw [hbelow] at hdepth
          exact absurd hdepth (Nat.not_succ_le_self _)
      · rcases hrest with ⟨rfl, hdepth⟩ | ⟨-, hcloses⟩
        · rw [hq.below] at hdepth
          exact absurd hdepth (Nat.lt_irrefl _)
        · have hreads := ih q.cur.length (by rw [hq.cur]; exact hlen) (hq.cur.symm ▸ hq) hcloses rfl
          rw [hq.cur] at hreads
          exact .inr ⟨hclose, hreads⟩
    cases hcur : p.cur with
    | nil =>
      rw [hcur] at hp
      exact absurd hstep (parseStep_expr_nil hp q)
    | cons t ts =>
      rw [hcur] at hp
      rw [hcur, List.length_cons] at hk
      cases hopens : exprOpens type t with
      | none =>
        cases hop : splitsOff type t with
        | false =>
          obtain ⟨p', hp', hround⟩ := round_plain hopens hop hp
          rcases hend (by omega) hround hp' with ⟨hclose, hts, hready⟩ | ⟨hclose, E, c, hts, hc, hready, hE⟩
          · exact ⟨[], t, by rw [hts]; rfl, hclose, hready, .done⟩
          · exact ⟨t :: E, c, by rw [hts]; rfl, hc, hready, .plain hopens hop hclose hE⟩
        | true =>
          cases ts with
          | nil => exact absurd hstep (round_last hopens hop hp q)
          | cons u us =>
            rw [List.length_cons] at hk
            obtain ⟨p', hp', hround⟩ := round_operator hopens hop hp
            rcases hend (by omega) hround hp' with ⟨hclose, hts, hready⟩ | ⟨hclose, E, c, hts, hc, hready, hE⟩
            · exact ⟨[t], u, by rw [hts]; rfl, hclose, hready, .last hopens hop⟩
            · exact ⟨t :: u :: E, c, by rw [hts]; rfl, hc, hready, .passed hopens hop hclose hE⟩
      | some a =>
        obtain ⟨p', hp', hround⟩ := round_opens hopens hp
        have hgo : act p' a = .go q := hround.symm.trans hstep
        obtain ⟨X', hX', hframe, hsuffix⟩ := (exprOpens_opening hopens).frame hp' hgo
        have hdeep := hframe.length_le
        rw [List.length_cons, List.length_cons] at hdeep
        rcases hrest with ⟨rfl, hdepth⟩ | ⟨-, hcloses⟩
        · omega
        -- the node that is opened is closed first, and the expression goes on at `m`
        obtain ⟨m, hm, -, hback⟩ : ∃ m, ClosesTo env ((X :: B).length + 1) q m ∧
            m.below.length = B.length + 1 ∧ ClosesTo env (B.length + 1) m r :=
          ReturnsTo.split (fun _ _ h => Steps.depth h) hcloses hdeep
        have hat : m.At (.expr type) (X :: B) m.cur := ClosesTo.at_expr hm hX' hframe
        have hmcur : m.cur <:+ ts := (ClosesTo.cur hm).trans hsuffix
        obtain ⟨E, c, hE, hc, hready, hreads⟩ :=
          ih m.cur.length (by have := hmcur.length_le; omega) hat hback rfl
        by_cases hnested : ∃ type', a = .openScope (.expr type') 1
        · obtain ⟨type', rfl⟩ := hnested
          obtain ⟨Y, -, hq⟩ := openScope_at hp' hgo
          obtain ⟨g, r', hg, hr', -, hreads'⟩ :=
            @ih q.cur.length (by rw [hq.cur]; omega) q m type' Y (X :: B) (hq.cur.symm ▸ hq) hm rfl
          rw [hq.cur] at hg
          rw [hE] at hg hreads'
          refine ⟨t :: (g ++ r' :: E), c, ?_, hc, hready, .nested hopens hr' hreads' hreads⟩
          rw [hg]
          simp
        · obtain ⟨g, hg⟩ := hmcur
          have hother (type' : ExprType) : exprOpens type t ≠ some (.openScope (.expr type') 1) := by
            rw [hopens]
            exact fun heq => hnested ⟨type', Option.some.inj heq⟩
          have hp₀ : (exprAt type (t :: ts)).At (.expr type) [] (t :: ts) := ⟨rfl, rfl, rfl⟩
          obtain ⟨q₀, hgo₀, halike⟩ := (exprOpens_opening hopens).alike hp' hp₀ hgo
          have hne : m.cur ≠ [] := by
            rw [hE]
            simp
          obtain ⟨r₀, hr₀, hend₀⟩ := halike.closes hdeep hne hm
          rw [hE] at hg hend₀
          refine ⟨t :: (g ++ E), c, ?_, hc, hready, .other hother ⟨a, q₀, r₀, hopens, ?_, hr₀, hend₀⟩ hreads⟩
          · rw [← hg]
            simp
          · rw [hg]
            exact hgo₀

end Reads

/-! ## Parentheses -/

/-- Tokens that are balanced in parentheses and braces outside of strings. -/
inductive Balanced : List Token → Prop
  | nil : Balanced []
  | word {t : Token} {ts : List Token}
      (ht : t.isAny ["(", ")", "@(", "\x7b", "\x7d", "@\x7b", "@\x7d", "\"", "'"] = false)
      (hts : Balanced ts) : Balanced (t :: ts)
  | string {q q' : Token} {s ts : List Token} (hq : q.isAny ["\"", "'"] = true) (hq' : q'.text = q.text)
      (hs : StringBody false q.text s) (hts : Balanced ts) : Balanced (q :: (s ++ q' :: ts))
  | parens {l r : Token} {g ts : List Token} (hl : l.is "(" = true) (hr : r.is ")" = true) (hg : Balanced g)
      (hts : Balanced ts) : Balanced (l :: (g ++ r :: ts))
  | braces {l r : Token} {g ts : List Token} (hl : l.is "\x7b" = true) (hr : r.is "\x7d" = true)
      (hg : Balanced g) (hts : Balanced ts) : Balanced (l :: (g ++ r :: ts))

section Parens

variable {env : FanEnv} {text : Bytes} {p : Parsing} {type : ExprType} {X : OpenNode} {B : List OpenNode}
  {E rest ts tail : List Token} {t u c : Token}

/-- No expression reads the token that ends it. -/
theorem ExprReads.not_close (hc : c.is type.close = true) : ¬ ExprReads env type tail (c :: ts) := by
  obtain ⟨hopens, hop⟩ := exprOpens_close hc
  intro h
  cases h with
  | plain _ _ hclose _ => cases hclose.symm.trans hc
  | passed _ hop' _ _ => cases hop'.symm.trans hop
  | last _ hop' => cases hop'.symm.trans hop
  | nested ht _ _ _ => cases ht.symm.trans hopens
  | other _ hg _ =>
    obtain ⟨a, q, r, ha, -⟩ := hg
    cases ha.symm.trans hopens

/-- Behind a token that stands for itself. -/
theorem ExprReads.behind_word (h : ExprReads env type tail (t :: ts)) (ht : exprOpens type t = none)
    (hop : splitsOff type t = false) : ExprReads env type tail ts := by
  cases h with
  | plain _ _ _ hts => exact hts
  | passed _ hop' _ _ => cases hop'.symm.trans hop
  | last _ hop' => cases hop'.symm.trans hop
  | nested ht' _ _ _ => cases ht'.symm.trans ht
  | other _ hg _ =>
    obtain ⟨a, q, r, ha, -⟩ := hg
    cases ha.symm.trans ht

/-- Whatever is behind an operator is passed over. -/
theorem ExprReads.behind_operator (h : ExprReads env type tail (t :: u :: ts)) (ht : exprOpens type t = none)
    (hop : splitsOff type t = true) : ExprReads env type tail ts := by
  generalize hlist : t :: u :: ts = list at h
  cases h with
  | done => cases hlist
  | plain _ hop' _ _ =>
    cases hlist
    cases hop'.symm.trans hop
  | passed _ _ _ hts =>
    cases hlist
    exact hts
  | last _ _ => cases hlist
  | nested ht' _ _ _ =>
    obtain ⟨rfl, -⟩ := List.cons.inj hlist
    cases ht'.symm.trans ht
  | other _ hg _ =>
    obtain ⟨rfl, -⟩ := List.cons.inj hlist
    obtain ⟨a, q, r, ha, -⟩ := hg
    cases ha.symm.trans ht

/-- What is between the parentheses, if they are the ones that match. -/
theorem ClosesAt.reads (hp : p.At (.expr .parens) (X :: B) (E ++ c :: rest)) (h : ClosesAt env p rest) :
    ExprReads env .parens (c :: rest) E ∧ ParentReady env .parens X.kind rest := by
  obtain ⟨r, hr, rfl⟩ := h
  rw [hp.below] at hr
  obtain ⟨E', c', hcur, hc', hready, hE⟩ := reads_of_closes (hp.cur.symm ▸ hp) hr
  obtain ⟨rfl, hsame⟩ := List.append_inj' (hp.cur.symm.trans hcur) rfl
  obtain ⟨rfl, -⟩ := List.cons.inj hsame
  exact ⟨hE, hready⟩

/-- **An expression in parentheses ends at the matching one exactly if the tokens between them are those it
reads**: the token behind an operator or a `;` opens nothing, whatever it is. -/
theorem parens_close_iff (env : FanEnv) (hc : c.is ")" = true)
    (hp : p.At (.expr .parens) (X :: B) (E ++ c :: rest)) :
    ClosesAt env p rest ↔ ExprReads env .parens (c :: rest) E ∧ ParentReady env .parens X.kind rest := by
  constructor
  · exact fun hcloses => hcloses.reads hp
  · rintro ⟨hE, hready⟩
    unfold ClosesAt
    rw [hp.below]
    exact hE.closes rfl hc hready hp

/-- An expression at the beginning of a block at the beginning of a template. -/
theorem opens_parens {op l : Token} (hmore : ts ≠ []) (htext : tokenize text = rootToken :: op :: l :: ts)
    (hop : op.is "@\x7b" = true) (hl : l.is "(" = true) :
    ∃ X B p, Reached env text p ∧ X.kind = .codeBlock ∧ p.At (.expr .parens) (X :: B) ts := by
  obtain ⟨b, hrun, Y, -, -, hb⟩ := @opens_block env op (l :: ts) (List.cons_ne_nil l ts) hop
  have hfan : l.isAny fanWords = false := (Token.isAny_of_is hl _).trans (by decide)
  have hopen : ∀ a, orOpen [openExpr l, openCodeString l, openCodeBlock l] a = .openScope (.expr .parens) 1 := by
    obtain ⟨t, line, col, pos⟩ := l
    obtain rfl : t = bytes "(" := of_decide_eq_true hl
    exact fun a => rfl
  obtain ⟨p, hstep, X, hX, hp⟩ := @goesTo_open env _ _ _ _ _ .code hb hmore hfan _ hopen
  refine ⟨X, [Y], p, ?_, hX, hp⟩
  rw [Reached, htext]
  exact hrun.tail hstep

/-- What is between the outer parentheses of `(_(1))`, and what is behind them. -/
def nestedParens : List Token :=
  [⟨bytes "_", 1, 0, 2⟩, ⟨bytes "(", 1, 5, 4⟩, ⟨bytes "1", 1, 0, 4⟩, ⟨bytes ")", 1, 7, 6⟩]

def behindParens : List Token := [⟨bytes "\x7d", 1, 9, 8⟩, ⟨bytes "2", 1, 0, 8⟩]

/-- `(_(1))` in a block ends at the second of the two parentheses. -/
theorem parens_close_word : ∃ X B p,
    Reached blankTrim (bytes "@\x7b(_(1))\x7d2") p ∧
      p.At (.expr .parens) (X :: B) (nestedParens ++ ⟨bytes ")", 1, 8, 7⟩ :: behindParens) ∧
      (ClosesAt blankTrim p behindParens ↔
        ExprReads blankTrim .parens (⟨bytes ")", 1, 8, 7⟩ :: behindParens) nestedParens ∧
        ParentReady blankTrim .parens X.kind behindParens) ∧
      ClosesAt blankTrim p behindParens := by
  have htokens : tokenize (bytes "@\x7b(_(1))\x7d2") = [rootToken, ⟨bytes "@\x7b", 1, 1, 0⟩,
      ⟨bytes "(", 1, 3, 2⟩, ⟨bytes "_", 1, 0, 2⟩, ⟨bytes "(", 1, 5, 4⟩, ⟨bytes "1", 1, 0, 4⟩,
      ⟨bytes ")", 1, 7, 6⟩, ⟨bytes ")", 1, 8, 7⟩, ⟨bytes "\x7d", 1, 9, 8⟩, ⟨bytes "2", 1, 0, 8⟩] := by
    rw [tokenize_heads isNoLetter (by decide +kernel)]
    decide +kernel
  obtain ⟨X, B, p, hreached, hX, hp⟩ := @opens_parens blankTrim _ _ _ _ (by simp) htokens rfl rfl
  have hat : p.At (.expr .parens) (X :: B) (nestedParens ++ ⟨bytes ")", 1, 8, 7⟩ :: behindParens) := hp
  have hiff := parens_close_iff blankTrim rfl hat
  have hone (tail : List Token) : ExprReads blankTrim .parens tail [⟨bytes "1", 1, 0, 4⟩] :=
    .plain rfl rfl rfl .done
  have hreads : ExprReads blankTrim .parens (⟨bytes ")", 1, 8, 7⟩ :: behindParens) nestedParens :=
    .plain rfl rfl rfl (@ExprReads.nested _ _ _ _ [⟨bytes "1", 1, 0, 4⟩] [] _ _ rfl rfl (hone _) .done)
  have hready : ParentReady blankTrim .parens X.kind behindParens := by
    intro an _ hkind
    rw [hX] at hkind
    cases hkind
  exact ⟨X, B, p, hreached, hat, hiff, hiff.2 ⟨hreads, hready⟩⟩

/-- `(!(1))` in a block ends at the first of the two parentheses. -/
theorem parens_not_closed :
    ¬ ∀ (env : FanEnv) (text : Bytes) (p : Parsing) (X : OpenNode) (B : List OpenNode) (E rest : List Token)
      (c : Token), Reached env text p → p.At (.expr .parens) (X :: B) (E ++ c :: rest) → c.is ")" = true →
      Balanced E → ClosesAt env p rest := by
  intro hall
  have htokens : tokenize (bytes "@\x7b(!(1))\x7d2") = [rootToken, ⟨bytes "@\x7b", 1, 1, 0⟩,
      ⟨bytes "(", 1, 3, 2⟩, ⟨bytes "!", 1, 4, 3⟩, ⟨bytes "(", 1, 5, 4⟩, ⟨bytes "1", 1, 0, 4⟩,
      ⟨bytes ")", 1, 7, 6⟩, ⟨bytes ")", 1, 8, 7⟩, ⟨bytes "\x7d", 1, 9, 8⟩, ⟨bytes "2", 1, 0, 8⟩] := by
    rw [tokenize_heads isNoLetter (by decide +kernel)]
    decide +kernel
  obtain ⟨X, B, p, hreached, -, hp⟩ := @opens_parens blankTrim _ _ _ _ (by simp) htokens rfl rfl
  have hbalanced : Balanced [⟨bytes "!", 1, 4, 3⟩, ⟨bytes "(", 1, 5, 4⟩, ⟨bytes "1", 1, 0, 4⟩,
      ⟨bytes ")", 1, 7, 6⟩] :=
    .word rfl (@Balanced.parens _ _ [⟨bytes "1", 1, 0, 4⟩] [] rfl rfl (.word rfl .nil) .nil)
  have hat : p.At (.expr .parens) (X :: B) ([⟨bytes "!", 1, 4, 3⟩, ⟨bytes "(", 1, 5, 4⟩, ⟨bytes "1", 1, 0, 4⟩,
      ⟨bytes ")", 1, 7, 6⟩] ++ ⟨bytes ")", 1, 8, 7⟩ :: [⟨bytes "\x7d", 1, 9, 8⟩, ⟨bytes "2", 1, 0, 8⟩]) := hp
  have hcloses := hall blankTrim _ p X B _ _ _ hreached hat rfl hbalanced
  have hreads := (hcloses.reads hat).1
  have hbehind := hreads.behind_operator rfl rfl
  have hlast := hbehind.behind_word rfl rfl
  exact ExprReads.not_close rfl hlast

end Parens

end Fanjet

end LibEvmvc
