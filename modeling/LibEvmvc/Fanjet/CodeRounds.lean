import LibEvmvc.Fanjet.CodeGrammar
import LibEvmvc.Fanjet.Lossless

set_option autoImplicit false

/-! # The rounds of the parser over code

How the parsers of blocks, expressions, strings and statements go over the parts of code: each part is
read to its end, in the node it stands in, and that node goes on behind it (`CodePart.Runs`). The nodes
below stay as they are. -/

namespace LibEvmvc

namespace Fanjet

/-! ## Tokens that open nothing -/

section Tokens

variable {t : Token} {s : String} {ss ss' : List String}

/-- A token is one text only. -/
theorem Token.is_of_is (h : t.is s = true) (s' : String) : t.is s' = decide (bytes s = bytes s') := by
  have htext : t.text = bytes s := of_decide_eq_true h
  rw [Token.is, htext]

theorem Token.isAny_of_is (h : t.is s = true) (ss : List String) :
    t.isAny ss = ss.any fun s' => decide (bytes s = bytes s') := by
  unfold Token.isAny
  congr 1
  funext s'
  exact Token.is_of_is h s'

theorem Token.isAny_append : t.isAny (ss ++ ss') = (t.isAny ss || t.isAny ss') := List.any_append

/-- A token without fanjet's own words. -/
theorem Token.fan_none (h : t.isAny fanWords = false) :
    openFanComment t = none ∧ (∀ k, openFanDirective k t = none) ∧ openFanOutput t = none ∧
      openFanFunaAwait t = none ∧ (∀ env rest, openFanMarkup env t rest = none) ∧
      openFanKey t = none ∧ openFanFn t = none := by
  simp only [fanWords, Token.isAny, List.any_cons, List.any_nil, Bool.or_false, Bool.or_eq_false_iff] at h
  simp [openFanComment, openFanDirective, openFanOutput, openFanFunaAwait, openFanMarkup, openFanKey,
    openFanFn, Token.isFanComment, Token.isFanDirective, Token.isAny, h]

end Tokens

/-! ## Rounds -/

/-- The parser of a node of this kind is at these tokens. -/
structure Parsing.At (p : Parsing) (k : NodeKind) (below : List OpenNode) (cur : List Token) : Prop where
  kind : p.top.kind = k
  below : p.below = below
  cur : p.cur = cur

/-- The parse comes to such a state. -/
def LeadsTo (env : FanEnv) (p : Parsing) (Q : Parsing → Prop) : Prop :=
  ∃ q, Relation.ReflTransGen (Steps env) p q ∧ Q q

/-- The round goes on in such a state. -/
def Outcome.GoesTo (o : Outcome) (Q : Parsing → Prop) : Prop := ∃ q, o = .go q ∧ Q q

section Rounds

variable {env : FanEnv} {p : Parsing} {k : NodeKind} {below : List OpenNode} {X : OpenNode} {t : Token}
  {rest : List Token} {Q R : Parsing → Prop}

theorem LeadsTo.refl (h : Q p) : LeadsTo env p Q := ⟨p, .refl, h⟩

theorem LeadsTo.trans (h : LeadsTo env p Q) (hQ : ∀ q, Q q → LeadsTo env q R) : LeadsTo env p R := by
  obtain ⟨q, hrun, hq⟩ := h
  obtain ⟨r, hrun', hr⟩ := hQ q hq
  exact ⟨r, hrun.trans hrun', hr⟩

theorem LeadsTo.mono (h : LeadsTo env p Q) (hQ : ∀ q, Q q → R q) : LeadsTo env p R := by
  obtain ⟨q, hrun, hq⟩ := h
  exact ⟨q, hrun, hQ q hq⟩

theorem LeadsTo.step (h : (parseStep env p).GoesTo Q) (hQ : ∀ q, Q q → LeadsTo env q R) :
    LeadsTo env p R := by
  obtain ⟨q, hstep, hq⟩ := h
  obtain ⟨r, hrun, hr⟩ := hQ q hq
  exact ⟨r, .head hstep hrun, hr⟩

theorem LeadsTo.of_step (h : (parseStep env p).GoesTo Q) : LeadsTo env p Q :=
  .step h fun _ hq => .refl hq

/-- At a token, a round that begins by noting the line does the rest with a node of the same kind. -/
theorem goesTo_entered {body : OpenNode → Action} (hp : p.At k below (t :: rest))
    (haction : parseAction env p = entered p.entry p.top (t :: rest) body)
    (hbody : ∀ top : OpenNode, top.kind = k → (act { p with top } (body top)).GoesTo Q) :
    (parseStep env p).GoesTo Q := by
  unfold parseStep
  rw [haction, entered]
  split
  · exact hbody _ hp.kind
  · exact hbody p.top hp.kind

theorem Parsing.At.top (hp : p.At k below (t :: rest)) {top : OpenNode} (htop : top.kind = k) :
    ({ p with top } : Parsing).At k below (t :: rest) := ⟨htop, hp.below, hp.cur⟩

theorem Parsing.At.parent (hp : p.At k (X :: below) rest) :
    p.below.head?.map OpenNode.kind = some X.kind := by
  rw [hp.below]
  rfl

theorem goesTo_next (hp : p.At k below (t :: rest)) :
    (act p (.next .loop)).GoesTo fun q => q.At k below rest := by
  refine ⟨{ p with pre := p.pre ++ [t], cur := rest, entry := false }, ?_, hp.kind, hp.below, rfl⟩
  rw [act, hp.cur]
  rfl

theorem goesTo_next_next {u : Token} (hp : p.At k below (t :: u :: rest)) :
    (act p (nextN 1 (.next .loop))).GoesTo fun q => q.At k below rest := by
  refine ⟨{ p with pre := p.pre ++ [t] ++ [u], cur := rest, entry := false }, ?_, hp.kind, hp.below, rfl⟩
  rw [nextN, nextN, act, hp.cur]
  rfl

theorem goesTo_openScope (hp : p.At k below (t :: rest)) (hmore : rest ≠ []) (kind : NodeKind) :
    (act p (.openScope kind 1)).GoesTo fun q =>
      ∃ X, X.kind = k ∧ q.At kind (X :: below) rest := by
  have hlen : 1 < (t :: rest).length := Nat.lt_add_of_pos_left (List.length_pos_iff.2 hmore)
  refine ⟨p.open kind 1, ?_, p.top.addToken p.pre, ?_, ?_, ?_, ?_⟩
  · rw [act, hp.cur]
    exact if_pos hlen
  · rw [OpenNode.kind_addToken, hp.kind]
  · rw [Parsing.open, OpenNode.kind_addToken]
  · rw [Parsing.open, hp.below]
  · rw [Parsing.open, hp.cur]
    rfl

theorem goesTo_close_child (hp : p.At k (X :: below) (t :: rest)) :
    (act p closeScope).GoesTo fun q => q.At X.kind below rest ∧ q.entry = true ∧ q.pre = [] ∧
      ∃ line col childs, q.top.childs = X.childs ++ [.node k line col childs] := by
  have hnode : ((p.top.addToken p.pre).addToken [t]).toNode
      = .node k ((p.top.addToken p.pre).addToken [t]).dbgLine
        ((p.top.addToken p.pre).addToken [t]).dbgCol ((p.top.addToken p.pre).addToken [t]).childs := by
    rw [OpenNode.toNode, OpenNode.kind_addToken, OpenNode.kind_addToken, hp.kind]
  refine ⟨{ p with
    top := { X with childs := X.childs ++ [((p.top.addToken p.pre).addToken [t]).toNode] }
    below
    pre := []
    cur := rest
    entry := true }, ?_, ⟨rfl, rfl, rfl⟩, rfl, rfl, _, _, _, congrArg (X.childs ++ [·]) hnode⟩
  simp only [closeScope, act, hp.cur, hp.below, List.nil_append]

theorem goesTo_close (hp : p.At k (X :: below) (t :: rest)) :
    (act p closeScope).GoesTo fun q => q.At X.kind below rest ∧ q.entry = true := by
  obtain ⟨q, hgo, hq, hentry, -⟩ := goesTo_close_child hp
  exact ⟨q, hgo, hq, hentry⟩

/-- The parent of a block after the block. -/
def blockKind (env : FanEnv) (k : NodeKind) (rest : List Token) : NodeKind :=
  match k with
  | .codeControl cn =>
    if cn.sec = .codeIf then
      match elseIf env false rest with
      | (true, true) => .codeControl { cn with needExpr := true, needCode := true }
      | (true, false) => .codeControl { cn with needCode := true }
      | (false, _) => .codeControl { cn with done := true }
    else if cn.sec ≠ .codeDo then .codeControl { cn with done := true }
    else .codeControl cn
  | .codeErr en =>
    if (firstSolid env rest).any (·.is "catch") then
      .codeErr { en with needExpr := true, needCode := true }
    else .codeErr { en with done := true }
  | .codeAsync an => if an.sec = .codeFuna then .codeAsync { an with done := true } else .codeAsync an
  | k => k

theorem goesTo_blockEnd (hp : p.At k (X :: below) (t :: rest)) :
    (act p (blockEnd env (some X.kind) rest)).GoesTo fun q =>
      q.At (blockKind env X.kind rest) below rest ∧ q.entry = true := by
  have hset : ∀ kind : NodeKind, (act p (.setParent kind closeScope)).GoesTo fun q =>
      q.At kind below rest ∧ q.entry = true := by
    intro kind
    have hparent : ({ p with below := { X with kind } :: below } : Parsing).At k
        ({ X with kind } :: below) (t :: rest) := ⟨hp.kind, rfl, hp.cur⟩
    rw [act, hp.below]
    exact goesTo_close hparent
  have hplain := goesTo_close hp
  generalize X.kind = kind at hplain ⊢
  unfold blockEnd blockKind
  cases kind with
  | codeControl cn =>
    simp only
    split
    · rcases elseIf env false rest with ⟨_ | _, _ | _⟩
      · exact hset _
      · exact hset _
      · exact hset _
      · exact hset _
    · split
      · exact hset _
      · exact hplain
  | codeErr en =>
    simp only
    split
    · exact hset _
    · exact hset _
  | codeAsync an =>
    simp only
    split
    · exact hset _
    · exact hplain
  | _ => exact hplain

end Rounds

/-! ## Plain tokens, groups and the end of a block -/

section Code

variable {env : FanEnv} {p : Parsing} {k : NodeKind} {below : List OpenNode} {X : OpenNode} {t : Token}
  {rest : List Token}

/-- What is in a block or in an expression. -/
inductive NodeKind.Host : NodeKind → Prop
  | code : NodeKind.Host .codeBlock
  | expr (type : ExprType) : NodeKind.Host (.expr type)

/-- The round of a code block at a token that is none of fanjet's own. -/
theorem goesTo_code {Q : Parsing → Prop} (hp : p.At .codeBlock below (t :: rest))
    (hfan : t.isAny fanWords = false)
    (hround : ∀ top : OpenNode, top.kind = .codeBlock → (act { p with top }
      (orOpen [openExpr t, openCodeString t, openCodeBlock t, openControl .codeBlock t, openTry t]
        (if t.is "\x7d" then blockEnd env (p.below.head?.map OpenNode.kind) rest else .next .loop))).GoesTo
        Q) : (parseStep env p).GoesTo Q := by
  have haction : parseAction env p
      = codeBlockParse env p.entry p.top (p.below.head?.map OpenNode.kind) (t :: rest) := by
    unfold parseAction
    simp only [hp.kind, hp.cur]
  refine goesTo_entered hp haction fun top htop => ?_
  obtain ⟨hcomment, hdirective, -, hasync, hmarkup, hkey, hfn⟩ := Token.fan_none hfan
  have hopens := hround top htop
  simp only [orOpen, List.findSome?_cons, htop, hcomment, hdirective, hasync, hmarkup, hkey, hfn, id]
    at hopens ⊢
  exact hopens

/-- What an expression does with a token that opens nothing. -/
def exprRound (env : FanEnv) (type : ExprType) (parent : Option NodeKind) (t : Token) (rest : List Token) :
    Action :=
  if splitsOff type t then
    match rest with
    | [] => .null
    | u :: rest => .attach (.next (.attach (exprEnd env type parent u rest)))
  else exprEnd env type parent t rest

theorem exprRound_splits {type : ExprType} (hsplit : splitsOff type t = true) (parent : Option NodeKind)
    (u : Token) (rest : List Token) : exprRound env type parent t (u :: rest)
      = .attach (.next (.attach (exprEnd env type parent u rest))) := by
  unfold exprRound
  exact if_pos hsplit

theorem exprRound_plain {type : ExprType} (hsplit : splitsOff type t = false) (parent : Option NodeKind)
    (rest : List Token) : exprRound env type parent t rest = exprEnd env type parent t rest := by
  unfold exprRound
  exact if_neg (by rw [hsplit]; exact Bool.false_ne_true)

/-- The round of an expression at such a token. -/
theorem goesTo_expr {type : ExprType} {Q : Parsing → Prop} (hp : p.At (.expr type) below (t :: rest))
    (hfan : t.isAny fanWords = false)
    (hround : ∀ top : OpenNode, top.kind = .expr type → (act { p with top }
      (orOpen [openExpr t, openCodeString t, openCodeBlock t]
        (exprRound env type (p.below.head?.map OpenNode.kind) t rest))).GoesTo Q) :
    (parseStep env p).GoesTo Q := by
  have haction : parseAction env p
      = exprParse env p.entry p.top type (p.below.head?.map OpenNode.kind) (t :: rest) := by
    unfold parseAction
    simp only [hp.kind, hp.cur]
  refine goesTo_entered hp haction fun top htop => ?_
  obtain ⟨hcomment, hdirective, houtput, -, -, hkey, hfn⟩ := Token.fan_none hfan
  have hopens := hround top htop
  simp only [orOpen, List.findSome?_cons, htop, hcomment, hdirective, houtput, hkey, hfn, id]
    at hopens ⊢
  exact hopens

/-- A plain token of a block. -/
theorem goesTo_plain (hp : p.At .codeBlock below (t :: rest)) (ht : PlainInCode true t) :
    (parseStep env p).GoesTo fun q => q.At .codeBlock below rest := by
  have hwords := ht.opens
  rw [codeWords, Token.isAny_append, Bool.or_eq_false_iff] at hwords
  refine goesTo_code hp hwords.1 fun top htop => ?_
  have hresult := ht.read rfl
  have hopens := hwords.2
  simp only [Token.isAny, List.any_cons, List.any_nil, Bool.or_false, Bool.or_eq_false_iff] at hopens hresult
  have hnone : orOpen [openExpr t, openCodeString t, openCodeBlock t, openControl .codeBlock t, openTry t]
      (if t.is "\x7d" then blockEnd env (p.below.head?.map OpenNode.kind) rest else .next .loop)
      = .next .loop := by
    simp [orOpen, openExpr, openCodeString, openCodeBlock, openControl, openTry, Token.isAny, hopens,
      hresult, ht.close]
  rw [hnone]
  exact goesTo_next (hp.top htop)

/-- The round of a block at its brace. -/
theorem goesTo_braceRound {Q : Parsing → Prop} (hp : p.At .codeBlock (X :: below) (t :: rest))
    (ht : t.is "\x7d" = true) (hround : ∀ top : OpenNode, top.kind = .codeBlock →
      (act { p with top } (blockEnd env (some X.kind) rest)).GoesTo Q) : (parseStep env p).GoesTo Q := by
  have hnot : ∀ ss : List String, (ss.any fun s' => decide (bytes "\x7d" = bytes s')) = false →
      t.isAny ss = false := fun ss h => (Token.isAny_of_is ht ss).trans h
  refine goesTo_code hp (hnot _ (by decide)) fun top htop => ?_
  have hopens := hnot
    ["(", "return", "throw", "\"", "'", "\x7b", "if", "switch", "for", "do", "while", "try"] (by decide)
  simp only [Token.isAny, List.any_cons, List.any_nil, Bool.or_false, Bool.or_eq_false_iff] at hopens
  have hend : orOpen [openExpr t, openCodeString t, openCodeBlock t, openControl .codeBlock t, openTry t]
      (if t.is "\x7d" then blockEnd env (p.below.head?.map OpenNode.kind) rest else .next .loop)
      = blockEnd env (some X.kind) rest := by
    simp [orOpen, openExpr, openCodeString, openCodeBlock, openControl, openTry, Token.isAny, hopens, ht,
      hp.below]
  rw [hend]
  exact hround top htop

/-- The end of a block. -/
theorem goesTo_brace (hp : p.At .codeBlock (X :: below) (t :: rest)) (ht : t.is "\x7d" = true) :
    (parseStep env p).GoesTo fun q => q.At (blockKind env X.kind rest) below rest ∧ q.entry = true :=
  goesTo_braceRound hp ht fun _ htop => goesTo_blockEnd (hp.top htop)

/-- A string, an expression or a block is opened in a block and in an expression alike. -/
theorem goesTo_open (hk : k.Host) (hp : p.At k below (t :: rest)) (hmore : rest ≠ [])
    (hfan : t.isAny fanWords = false) {kind : NodeKind}
    (hopen : ∀ a, orOpen [openExpr t, openCodeString t, openCodeBlock t] a = .openScope kind 1) :
    (parseStep env p).GoesTo fun q => ∃ X, X.kind = k ∧ q.At kind (X :: below) rest := by
  cases hk with
  | code =>
    refine goesTo_code hp hfan fun top htop => ?_
    have hsame : ∀ a, orOpen [openExpr t, openCodeString t, openCodeBlock t, openControl .codeBlock t,
        openTry t] a = .openScope kind 1 := by
      intro a
      rw [← hopen (orOpen [openControl .codeBlock t, openTry t] a)]
      simp only [orOpen, List.findSome?_cons, List.findSome?_nil, id]
      cases openExpr t <;> cases openCodeString t <;> cases openCodeBlock t <;> rfl
    rw [hsame]
    exact goesTo_openScope (hp.top htop) hmore kind
  | expr type =>
    refine goesTo_expr hp hfan fun top htop => ?_
    rw [hopen]
    exact goesTo_openScope (hp.top htop) hmore kind

end Code

/-! ## Strings -/

section Strings

variable {c : UInt8} {b t u : Token} {rest : List Token}

theorem prefix_singleton {x : Bytes} (hne : x ≠ []) : x <+: [c] ↔ x = [c] := by
  constructor
  · intro h
    obtain ⟨d, y, rfl⟩ := List.exists_cons_of_ne_nil hne
    obtain ⟨rfl, hy⟩ := List.cons_prefix_cons.1 h
    rw [List.prefix_nil.1 hy]
  · rintro rfl
    exact List.prefix_refl _

theorem matchText_of_not_prefix {target tesc : Bytes} {n : Nat} (h : ¬ tesc ++ t.text <+: target) :
    matchText target tesc n (t :: rest) = none := by
  rw [matchText, if_neg (mt List.isPrefixOf_iff_prefix.1 h)]

/-- A token that is not the quote does not end the string. -/
theorem matchText_quote_none (hne : t.text ≠ []) (hq : t.text ≠ [c]) :
    matchText [c] [] 0 (t :: rest) = none :=
  matchText_of_not_prefix (mt (prefix_singleton hne).1 hq)

theorem matchText_quote (hq : t.text = [c]) : matchText [c] [] 0 (t :: rest) = some 0 := by
  rw [matchText, List.nil_append, hq]
  simp

/-- A token that does not begin with a backslash escapes nothing. -/
theorem matchText_escape_none (hne : t.text ≠ []) (hslash : ¬ bytes "\\" <+: t.text) :
    matchText [92, c] [] 0 (t :: rest) = none := by
  refine matchText_of_not_prefix fun h => hslash ?_
  obtain ⟨d, x, htext⟩ := List.exists_cons_of_ne_nil hne
  rw [List.nil_append, htext] at h
  obtain ⟨rfl, -⟩ := List.cons_prefix_cons.1 h
  rw [htext]
  exact ⟨x, rfl⟩

/-- A backslash escapes the quote behind it. -/
theorem matchText_escape (hb : b.text = [92]) (hu : u.text = [c]) :
    matchText [92, c] [] 0 (b :: u :: rest) = some 1 := by
  rw [matchText, List.nil_append, hb, matchText, hu]
  simp

/-- It escapes nothing else. -/
theorem matchText_escape_other (hb : b.text = [92]) (hne : u.text ≠ []) (hu : u.text ≠ [c]) :
    matchText [92, c] [] 0 (b :: u :: rest) = none := by
  have hnot : ¬ [92] ++ u.text <+: [92, c] := by
    intro h
    exact hu ((prefix_singleton hne).1 (List.cons_prefix_cons.1 h).2)
  rw [matchText, List.nil_append, hb, matchText_of_not_prefix hnot]
  simp

variable {env : FanEnv} {p : Parsing} {below : List OpenNode} {X : OpenNode}

/-- What a string does in a block or an expression. -/
def stringRound (c : UInt8) (t : Token) (rest : List Token) : Action :=
  match matchText [92, c] [] 0 (t :: rest) with
  | some k => nextN k (.next .loop)
  | none =>
    match matchText [c] [] 0 (t :: rest) with
    | some k => nextN k closeScope
    | none => .next .loop

theorem stringEnd_host {k : NodeKind} (hk : k.Host) (t : Token) : stringEnd (some k) t = .next .loop := by
  cases hk with
  | code => rfl
  | expr type => rfl

theorem goesTo_string {Q : Parsing → Prop} (hX : X.kind.Host)
    (hp : p.At (.string [c] [92, c]) (X :: below) (t :: rest))
    (hround : ∀ top : OpenNode, top.kind = .string [c] [92, c] →
      (act { p with top } (stringRound c t rest)).GoesTo Q) : (parseStep env p).GoesTo Q := by
  have haction : parseAction env p
      = stringParse p.entry p.top [c] [92, c] (some X.kind) (t :: rest) := by
    unfold parseAction
    simp only [hp.kind, hp.cur, hp.below, List.head?_cons, Option.map_some]
  refine goesTo_entered hp haction fun top htop => ?_
  have hact := hround top htop
  unfold stringRound at hact
  simp only [stringEnd_host hX, List.cons_ne_nil, if_false]
  exact hact

/-- What is in a string does not begin with the quote. -/
theorem StringBody.head {q : Bytes} {ts : List Token} (h : StringBody true q (t :: ts)) (hq : [92] ≠ q) :
    t.text ≠ [] ∧ t.text ≠ q := by
  cases h with
  | char hne hquote _ _ => exact ⟨hne, hquote⟩
  | escape hb _ _ _ _ =>
    have hb' : t.text = [92] := of_decide_eq_true hb
    rw [hb']
    exact ⟨by decide, hq⟩

/-- A string is read up to its end. -/
theorem leadsTo_string {ts : List Token} (hts : StringBody true [c] ts) {q : Token} (hq : q.text = [c])
    (hc : c ≠ 92) (hX : X.kind.Host) (hp : p.At (.string [c] [92, c]) (X :: below) (ts ++ q :: rest)) :
    LeadsTo env p fun r => r.At X.kind below rest ∧ r.entry = true := by
  have hslash : ([92] : Bytes) ≠ [c] := fun h => hc (List.cons.inj h).1.symm
  induction hts generalizing p with
  | nil =>
    refine .of_step (goesTo_string hX hp fun top htop => ?_)
    have hfirst : ¬ bytes "\\" <+: q.text := by
      rw [hq]
      exact fun h => hslash ((prefix_singleton (by decide)).1 h)
    rw [stringRound, matchText_escape_none (by simp [hq]) hfirst, matchText_quote hq]
    exact goesTo_close (hp.top htop)
  | @char t ts hne hquote hfirst _ ih =>
    refine .step (goesTo_string hX hp fun top htop => ?_) fun r hr => ih hr
    rw [stringRound, matchText_escape_none hne hfirst, matchText_quote_none hne hquote]
    exact goesTo_next (hp.top htop)
  | @escape b t ts hb hne hfirst hlast hts ih =>
    have hb' : b.text = [92] := of_decide_eq_true hb
    simp only [List.cons_append] at hp
    by_cases hquote : t.text = [c]
    · -- the quote is passed over
      refine .step (goesTo_string hX hp fun top htop => ?_) fun r hr => ih hr
      rw [stringRound, matchText_escape hb' hquote]
      exact goesTo_next_next (hp.top htop)
    · -- the backslash is passed over, and then what it escapes
      refine .step (goesTo_string (Q := fun r =>
        r.At (.string [c] [92, c]) (X :: below) (t :: (ts ++ q :: rest))) hX hp fun top htop => ?_)
        fun r hr => ?_
      · rw [stringRound, matchText_escape_other hb' hne hquote,
          matchText_quote_none (by simp [hb']) (by rw [hb']; exact hslash)]
        exact goesTo_next (hp.top htop)
      · have hnone : matchText [92, c] [] 0 (t :: (ts ++ q :: rest)) = none := by
          by_cases ht : t.is "\\" = true
          · obtain ⟨u, ts, rfl⟩ := List.exists_cons_of_ne_nil (hlast rfl ht)
            obtain ⟨hune, huq⟩ := hts.head hslash
            exact matchText_escape_other (of_decide_eq_true ht) hune huq
          · exact matchText_escape_none hne (hfirst.resolve_left ht)
        refine .step (goesTo_string hX hr fun top htop => ?_) fun r hr => ih hr
        rw [stringRound, hnone, matchText_quote_none hne hquote]
        exact goesTo_next (hr.top htop)

end Strings

/-! ## Statements -/

/-- `md::trim` leaves nothing of white space, and something of every other text. -/
def TrimsBlank (env : FanEnv) : Prop := ∀ b, env.trim b = [] ↔ ∀ c ∈ b, isspace c = true

/-- The node of a statement that is complete. -/
inductive NodeKind.Finished : NodeKind → Prop
  | control {cn : ControlNode} (hdone : cn.done = true) : NodeKind.Finished (.codeControl cn)
  | err {en : ErrNode} (hdone : en.done = true) : NodeKind.Finished (.codeErr en)

/-- The node of a statement passes over the token. -/
inductive NodeKind.Skips : NodeKind → Token → Prop
  | control {cn : ControlNode} {t : Token} (hdone : cn.done = false)
      (ht : t.isGap = true ∨ t.isAny ["else", "if", "while"] = true) : NodeKind.Skips (.codeControl cn) t
  | err {en : ErrNode} {t : Token} (hdone : en.done = false) (ht : t.isGap = true ∨ t.is "catch" = true) :
      NodeKind.Skips (.codeErr en) t

/-- The node of a statement is to read an expression next, and what it is then. -/
inductive NodeKind.WantsExpr : NodeKind → NodeKind → Prop
  | control {cn : ControlNode} (hdone : cn.done = false) (hneed : cn.needExpr = true)
      (hdo : cn.sec = .codeDo → cn.needCode = false) :
      NodeKind.WantsExpr (.codeControl cn) (.codeControl { cn with needExpr := false })
  | err {en : ErrNode} (hdone : en.done = false) (hneed : en.needExpr = true) :
      NodeKind.WantsExpr (.codeErr en) (.codeErr { en with needExpr := false })

/-- The node of a statement is to read a block next, and what it is then. -/
inductive NodeKind.WantsCode : NodeKind → NodeKind → Prop
  | control {cn : ControlNode} (hdone : cn.done = false) (hneed : cn.needCode = true)
      (hexpr : cn.needExpr = decide (cn.sec = .codeDo)) :
      NodeKind.WantsCode (.codeControl cn) (.codeControl { cn with needCode := false })
  | err {en : ErrNode} (hdone : en.done = false) (hneed : en.needCode = true)
      (hexpr : en.needExpr = false) :
      NodeKind.WantsCode (.codeErr en) (.codeErr { en with needCode := false })

section Statements

variable {env : FanEnv} {p : Parsing} {k k' : NodeKind} {below : List OpenNode} {X : OpenNode} {t : Token}
  {rest : List Token} {Q : Parsing → Prop}

theorem Token.isBlank_eq (htrim : TrimsBlank env) (t : Token) : t.isBlank env = t.isGap := by
  rw [Token.isBlank, Token.isGap, Bool.eq_iff_iff, decide_eq_true_iff, htrim, List.all_eq_true]

theorem Token.isGap_of_is {s : String} (h : t.is s = true) : t.isGap = (bytes s).all isspace := by
  rw [Token.isGap, of_decide_eq_true h]

/-- A line end is white space. -/
theorem Token.not_eol (h : t.isGap = false) : t.is "\n" = false := by
  by_contra hnot
  rw [Token.isGap_of_is (Bool.not_eq_false _ ▸ hnot)] at h
  exact absurd h (by decide)

/-- The node of a complete statement takes the token behind it. -/
theorem goesTo_finished (hk : k.Finished) (hentry : p.entry = true) (hp : p.At k (X :: below) (t :: rest)) :
    (parseStep env p).GoesTo fun q => q.At X.kind below rest := by
  obtain ⟨q, hgo, hq, -⟩ := goesTo_close hp
  refine ⟨q, ?_, hq⟩
  rw [← hgo, parseStep]
  congr 1
  unfold parseAction
  cases hk with
  | control hdone => simp [hp.kind, hp.cur, codeControlParse, hentry, hdone, closeScopeAt]
  | err hdone => simp [hp.kind, hp.cur, codeErrParse, hentry, hdone, closeScopeAt]

/-- A round of a node of a statement that is not complete. -/
theorem goesTo_control {cn : ControlNode} (hdone : cn.done = false)
    (hp : p.At (.codeControl cn) below (t :: rest)) {a : Action}
    (haction : ∀ n, codeControlParse env false n cn (t :: rest) = a)
    (ha : ∀ top : OpenNode, top.kind = .codeControl cn → (act { p with top } a).GoesTo Q) :
    (parseStep env p).GoesTo Q := by
  have hround : parseAction env p = entered p.entry p.top (t :: rest) fun _ => a := by
    unfold parseAction
    simp only [hp.kind, hp.cur]
    have hfree := haction p.top
    rw [codeControlParse, entered] at hfree
    simp only [Bool.false_and, Bool.false_eq_true, if_false] at hfree
    rw [codeControlParse, if_neg (by simp [hdone])]
    simp only [hfree]
  exact goesTo_entered hp hround ha

theorem goesTo_err {en : ErrNode} (hdone : en.done = false) (hp : p.At (.codeErr en) below (t :: rest))
    {a : Action} (haction : ∀ n, codeErrParse env false n en (t :: rest) = a)
    (ha : ∀ top : OpenNode, top.kind = .codeErr en → (act { p with top } a).GoesTo Q) :
    (parseStep env p).GoesTo Q := by
  have hround : parseAction env p = entered p.entry p.top (t :: rest) fun _ => a := by
    unfold parseAction
    simp only [hp.kind, hp.cur]
    have hfree := haction p.top
    rw [codeErrParse, entered] at hfree
    simp only [Bool.false_and, Bool.false_eq_true, if_false] at hfree
    rw [codeErrParse, if_neg (by simp [hdone])]
    simp only [hfree]
  exact goesTo_entered hp hround ha

/-- What the node passes over. -/
theorem goesTo_skip (htrim : TrimsBlank env) (hk : k.Skips t) (hp : p.At k below (t :: rest)) :
    (parseStep env p).GoesTo fun q => q.At k below rest := by
  cases hk with
  | control hdone ht =>
    have hskip : (!t.isBlank env && !t.isAny ["\n", "else", "if", "while"]) = false := by
      rw [Token.isBlank_eq htrim]
      rcases ht with ht | ht
      · rw [ht]
        rfl
      · have hwords : t.isAny ["\n", "else", "if", "while"] = true := by
          rw [show ["\n", "else", "if", "while"] = ["\n"] ++ ["else", "if", "while"] from rfl,
            Token.isAny_append, ht, Bool.or_true]
        rw [hwords, Bool.not_true, Bool.and_false]
    refine goesTo_control hdone hp (a := .next .loop) (fun n => ?_) fun top htop => goesTo_next (hp.top htop)
    simp [codeControlParse, entered, hskip]
  | err hdone ht =>
    have hskip : (!t.isBlank env && !t.isAny ["\n", "catch"]) = false := by
      rw [Token.isBlank_eq htrim]
      rcases ht with ht | ht
      · rw [ht]
        rfl
      · simp [Token.isAny, ht]
    refine goesTo_err hdone hp (a := .next .loop) (fun n => ?_) fun top htop => goesTo_next (hp.top htop)
    simp [codeErrParse, entered, hskip]

/-- The members change, and a node is opened. -/
theorem goesTo_setOpen (hp : p.At k below (t :: rest)) (hmore : rest ≠ []) (kind : NodeKind) :
    (act p (.set k' (.openScope kind 1))).GoesTo fun q =>
      ∃ X, X.kind = k' ∧ q.At kind (X :: below) rest := by
  have hset : ({ p with top := { p.top with kind := k' } } : Parsing).At k' below (t :: rest) :=
    ⟨rfl, hp.below, hp.cur⟩
  rw [act]
  exact goesTo_openScope hset hmore kind

/-- The expression of a statement. -/
theorem goesTo_wantsExpr (htrim : TrimsBlank env) (hk : k.WantsExpr k') (hp : p.At k below (t :: rest))
    (hmore : rest ≠ []) (ht : t.is "(" = true) :
    (parseStep env p).GoesTo fun q => ∃ X, X.kind = k' ∧ q.At (.expr .parens) (X :: below) rest := by
  have hgap : t.isBlank env = false := by
    rw [Token.isBlank_eq htrim, Token.isGap_of_is ht]
    decide
  have hopen : orOpen [openExpr t] .finish = .openScope (.expr .parens) 1 := by
    simp [orOpen, openExpr, ht]
  cases hk with
  | @control cn hdone hneed hdo =>
    have hwords : t.isAny ["\n", "else", "if", "while"] = false := (Token.isAny_of_is ht _).trans (by decide)
    have hnow : (cn.needExpr && (decide (cn.sec ≠ .codeDo) || !cn.needCode)) = true := by
      rw [hneed, Bool.true_and]
      by_cases hsec : cn.sec = .codeDo
      · simp [hdo hsec]
      · simp [hsec]
    refine goesTo_control hdone hp (a := _) (fun n => ?_) fun top htop =>
      goesTo_setOpen (hp.top htop) hmore (.expr .parens)
    rw [codeControlParse, Bool.false_and, if_neg Bool.false_ne_true, entered, Bool.false_and,
      if_neg Bool.false_ne_true]
    simp only [hgap, hwords, hnow, ht, hopen, Bool.not_false, Bool.and_self, if_true]
  | @err en hdone hneed =>
    have hwords : t.isAny ["\n", "catch"] = false := (Token.isAny_of_is ht _).trans (by decide)
    refine goesTo_err hdone hp (a := _) (fun n => ?_) fun top htop =>
      goesTo_setOpen (hp.top htop) hmore (.expr .parens)
    rw [codeErrParse, Bool.false_and, if_neg Bool.false_ne_true, entered, Bool.false_and,
      if_neg Bool.false_ne_true]
    simp only [hgap, hwords, hneed, ht, hopen, Bool.not_false, Bool.and_self, if_true]

/-- The block of a statement. -/
theorem goesTo_wantsCode (htrim : TrimsBlank env) (hk : k.WantsCode k') (hp : p.At k below (t :: rest))
    (hmore : rest ≠ []) (ht : t.is "\x7b" = true) :
    (parseStep env p).GoesTo fun q => ∃ X, X.kind = k' ∧ q.At .codeBlock (X :: below) rest := by
  have hgap : t.isBlank env = false := by
    rw [Token.isBlank_eq htrim, Token.isGap_of_is ht]
    decide
  have hopen : orOpen [openCodeBlock t] .finish = .openScope .codeBlock 1 := by
    simp [orOpen, openCodeBlock, ht]
  cases hk with
  | @control cn hdone hneed hexpr =>
    have hwords : t.isAny ["\n", "else", "if", "while"] = false := (Token.isAny_of_is ht _).trans (by decide)
    have hnot : (cn.needExpr && (decide (cn.sec ≠ .codeDo) || !cn.needCode)) = false := by
      rw [hneed, hexpr]
      by_cases hsec : cn.sec = .codeDo
      · simp [hsec]
      · simp [hsec]
    have hnow : (cn.needCode && (decide (cn.sec ≠ .codeDo) || cn.needExpr)) = true := by
      rw [hneed, hexpr]
      by_cases hsec : cn.sec = .codeDo
      · simp [hsec]
      · simp [hsec]
    refine goesTo_control hdone hp (a := _) (fun n => ?_) fun top htop =>
      goesTo_setOpen (hp.top htop) hmore .codeBlock
    rw [codeControlParse, Bool.false_and, if_neg Bool.false_ne_true, entered, Bool.false_and,
      if_neg Bool.false_ne_true]
    simp only [hgap, hwords, hnot, hnow, ht, hopen, Bool.not_false, Bool.and_self, if_true,
      Bool.false_eq_true, if_false]
  | @err en hdone hneed hexpr =>
    have hwords : t.isAny ["\n", "catch"] = false := (Token.isAny_of_is ht _).trans (by decide)
    refine goesTo_err hdone hp (a := _) (fun n => ?_) fun top htop =>
      goesTo_setOpen (hp.top htop) hmore .codeBlock
    rw [codeErrParse, Bool.false_and, if_neg Bool.false_ne_true, entered, Bool.false_and,
      if_neg Bool.false_ne_true]
    simp only [hgap, hwords, hneed, hexpr, ht, hopen, Bool.not_false, Bool.and_self, if_true,
      Bool.false_eq_true, if_false]

/-- The `;` of a `do` statement. -/
theorem goesTo_semicolon (htrim : TrimsBlank env) {cn : ControlNode} (hdone : cn.done = false)
    (hexpr : cn.needExpr = false) (hcode : cn.needCode = false) (hsemicol : cn.needSemicol = true)
    (ht : t.is ";" = true) (hp : p.At (.codeControl cn) (X :: below) (t :: rest)) :
    (parseStep env p).GoesTo fun q => q.At X.kind below rest := by
  have hgap : t.isBlank env = false := by
    rw [Token.isBlank_eq htrim, Token.isGap_of_is ht]
    decide
  have hwords : t.isAny ["\n", "else", "if", "while"] = false := (Token.isAny_of_is ht _).trans (by decide)
  refine goesTo_control hdone hp
    (a := .set (.codeControl { cn with needSemicol := false }) (.next (.attach .passUp))) (fun n => ?_)
    fun top htop => ?_
  · rw [codeControlParse, Bool.false_and, if_neg Bool.false_ne_true, entered, Bool.false_and,
      if_neg Bool.false_ne_true]
    simp [hgap, hwords, hexpr, hcode, hsemicol, ht]
  · exact ⟨{ p with
      top := { X with childs := X.childs ++ [(({ top with
        kind := .codeControl { cn with needSemicol := false } } : OpenNode).addToken
          (p.pre ++ [t])).toNode] }
      below
      pre := []
      cur := rest
      entry := true }, by simp only [act, hp.cur, hp.below], rfl, rfl, rfl⟩

/-! ## What follows a block -/

theorem elseIf_gap (htrim : TrimsBlank env) {isElse : Bool} (ht : t.isGap = true) :
    elseIf env isElse (t :: rest) = elseIf env isElse rest := by
  rw [elseIf, Token.isBlank_eq htrim, ht]
  rfl

theorem elseIf_gaps (htrim : TrimsBlank env) {isElse : Bool} {g : List Token}
    (hg : ∀ t ∈ g, t.isGap = true) : elseIf env isElse (g ++ rest) = elseIf env isElse rest := by
  induction g with
  | nil => rfl
  | cons t g ih =>
    rw [List.forall_mem_cons] at hg
    rw [List.cons_append, elseIf_gap htrim hg.1, ih hg.2]

theorem elseIf_solid (htrim : TrimsBlank env) {isElse : Bool} (ht : t.isGap = false) :
    elseIf env isElse (t :: rest) =
      if t.is "else" then elseIf env true rest
      else if isElse && t.is "if" then (isElse, true) else (isElse, false) := by
  rw [elseIf, Token.isBlank_eq htrim, ht, Token.not_eol ht]
  rfl

theorem elseIf_else (htrim : TrimsBlank env) {isElse : Bool} (ht : t.is "else" = true) :
    elseIf env isElse (t :: rest) = elseIf env true rest := by
  rw [elseIf_solid htrim ((Token.isGap_of_is ht).trans (by decide)), if_pos ht]

/-- The statement is at its end. -/
theorem elseIf_ends (htrim : TrimsBlank env) {ts : List Token} (h : StatementEnds ts) :
    elseIf env false ts = (false, false) := by
  induction ts with
  | nil => rfl
  | cons t ts ih =>
    cases ht : t.isGap with
    | true =>
      rw [elseIf_gap htrim ht]
      refine ih ?_
      rw [StatementEnds, List.find?_cons_of_neg (by simp [ht])] at h
      exact h
    | false =>
      rw [StatementEnds, List.find?_cons_of_pos (by simp [ht]), Option.any_some] at h
      simp only [Token.isAny, List.any_cons, List.any_nil, Bool.or_false, Bool.or_eq_false_iff] at h
      rw [elseIf_solid htrim ht, h.1, Bool.false_and]
      rfl

theorem firstSolid_eq (htrim : TrimsBlank env) (ts : List Token) :
    firstSolid env ts = ts.find? fun t => !t.isGap := by
  unfold firstSolid
  congr 1
  funext t
  rw [Token.isBlank_eq htrim]
  cases ht : t.isGap with
  | true => rfl
  | false =>
    rw [Token.not_eol ht]
    rfl

theorem firstSolid_gaps (htrim : TrimsBlank env) {g : List Token} (hg : ∀ t ∈ g, t.isGap = true)
    (ht : t.isGap = false) : firstSolid env (g ++ t :: rest) = some t := by
  rw [firstSolid_eq htrim]
  induction g with
  | nil => exact List.find?_cons_of_pos (by simp [ht])
  | cons u g ih =>
    rw [List.forall_mem_cons] at hg
    rw [List.cons_append, List.find?_cons_of_neg (by simp [hg.1]), ih hg.2]

theorem firstSolid_ends (htrim : TrimsBlank env) {ts : List Token} (h : StatementEnds ts) :
    (firstSolid env ts).any (·.is "catch") = false := by
  rw [firstSolid_eq htrim]
  unfold StatementEnds at h
  cases hfind : ts.find? fun t => !t.isGap with
  | none => rfl
  | some t =>
    rw [hfind, Option.any_some] at h
    simp only [Token.isAny, List.any_cons, List.any_nil, Bool.or_false, Bool.or_eq_false_iff] at h
    exact h.2

/-- A brace ends every statement before it. -/
theorem StatementEnds.append {ts : List Token} (h : StatementEnds ts) (ht : t.is "\x7d" = true)
    (rest : List Token) : StatementEnds (ts ++ t :: rest) := by
  unfold StatementEnds at h ⊢
  rw [List.find?_append]
  cases hfind : ts.find? fun t => !t.isGap with
  | some u =>
    rw [hfind] at h
    exact h
  | none =>
    rw [Option.none_or, List.find?_cons_of_pos (by rw [Token.isGap_of_is ht]; decide), Option.any_some,
      Token.isAny_of_is ht]
    decide

/-- The members of an `if` after a block, at the end of the statement. -/
theorem blockKind_if_ends (htrim : TrimsBlank env) {cn : ControlNode} (hsec : cn.sec = .codeIf)
    (h : StatementEnds rest) :
    blockKind env (.codeControl cn) rest = .codeControl { cn with done := true } := by
  simp only [blockKind, hsec, if_true, elseIf_ends htrim h]

theorem blockKind_loop {cn : ControlNode} (hif : cn.sec ≠ .codeIf) (hdo : cn.sec ≠ .codeDo) :
    blockKind env (.codeControl cn) rest = .codeControl { cn with done := true } := by
  simp only [blockKind, if_neg hif, if_pos hdo]

theorem blockKind_do {cn : ControlNode} (hsec : cn.sec = .codeDo) :
    blockKind env (.codeControl cn) rest = .codeControl cn := by
  simp [blockKind, hsec]

theorem blockKind_try_ends (htrim : TrimsBlank env) {en : ErrNode} (h : StatementEnds rest) :
    blockKind env (.codeErr en) rest = .codeErr { en with done := true } := by
  simp only [blockKind, firstSolid_ends htrim h, Bool.false_eq_true, if_false]

end Statements

/-! ## Runs -/

section Runs

variable (env : FanEnv)

/-- The inside of a block is read up to its brace. -/
def CodeRuns (ts : List Token) : Prop :=
  ∀ (p : Parsing) below c rest, c.is "\x7d" = true → p.At .codeBlock below (ts ++ c :: rest) →
    LeadsTo env p fun q => q.At .codeBlock below (c :: rest)

/-- So is what follows a statement, from the node of the statement on. -/
def TakenRuns (ts : List Token) : Prop :=
  ∀ (p : Parsing) k X below c rest, k.Finished → X.kind = .codeBlock → p.entry = true →
    c.is "\x7d" = true → p.At k (X :: below) (ts ++ c :: rest) →
      LeadsTo env p fun q => q.At .codeBlock below (c :: rest)

/-- The node an expression is in. -/
def NodeKind.TakesExpr (k : NodeKind) : Prop := ∀ an, k ≠ .codeAsync an

/-- The inside of an expression is read, and the expression is closed. -/
def ExprRuns (type : ExprType) (ts : List Token) : Prop :=
  ∀ (p : Parsing) X below c rest, c.is type.close = true → X.kind.TakesExpr →
    p.At (.expr type) (X :: below) (ts ++ c :: rest) →
      LeadsTo env p fun q => q.At X.kind below rest

/-- So is it from the middle of a round on, behind an operator. -/
def PassedRuns (type : ExprType) (ts : List Token) : Prop :=
  ∀ (p : Parsing) X below c rest t u, c.is type.close = true → X.kind.TakesExpr →
    ts ++ c :: rest = t :: u → p.At (.expr type) (X :: below) (t :: u) →
      (act p (exprEnd env type (some X.kind) t u)).GoesTo fun q =>
        LeadsTo env q fun r => r.At X.kind below rest

/-- A string, an expression or a block is read. -/
def GroupRuns (ts : List Token) : Prop :=
  ∀ (p : Parsing) k below rest, k.Host → p.At k below (ts ++ rest) →
    LeadsTo env p fun q => q.At k below rest

def HeadRuns (ts : List Token) : Prop :=
  ∀ (p : Parsing) k k' below rest, k.WantsExpr k' → p.At k below (ts ++ rest) →
    LeadsTo env p fun q => q.At k' below rest

def BodyRuns (ts : List Token) : Prop :=
  ∀ (p : Parsing) k k' below rest, k.WantsCode k' → p.At k below (ts ++ rest) →
    LeadsTo env p fun q => q.At (blockKind env k' rest) below rest ∧ q.entry = true

/-- A statement is read, and its node is complete. -/
def StatementRuns (ts : List Token) : Prop :=
  ∀ (p : Parsing) below rest, StatementEnds rest → p.At .codeBlock below (ts ++ rest) →
    LeadsTo env p fun q => ∃ k X, k.Finished ∧ X.kind = .codeBlock ∧ q.At k (X :: below) rest ∧
      q.entry = true

def IfRuns (ts : List Token) : Prop :=
  ∀ (p : Parsing) cn below rest, cn.sec = .codeIf → cn.needExpr = true → cn.needCode = true →
    cn.done = false → StatementEnds rest → p.At (.codeControl cn) below (ts ++ rest) →
      LeadsTo env p fun q => ∃ k, k.Finished ∧ q.At k below rest ∧ q.entry = true

def CatchRuns (ts : List Token) : Prop :=
  ∀ (p : Parsing) en below rest, en.needExpr = true → en.needCode = true → en.done = false →
    StatementEnds rest → p.At (.codeErr en) below (ts ++ rest) →
      LeadsTo env p fun q => ∃ k, k.Finished ∧ q.At k below rest ∧ q.entry = true

def DoRuns (ts : List Token) : Prop :=
  ∀ (p : Parsing) below rest, p.At .codeBlock below (ts ++ rest) →
    LeadsTo env p fun q => q.At .codeBlock below rest

/-- How a part of code is read. -/
def CodePart.Runs : CodePart → List Token → Prop
  | .code false => CodeRuns env
  | .code true => TakenRuns env
  | .expr type false => ExprRuns env type
  | .expr type true => PassedRuns env type
  | .group => GroupRuns env
  | .head => HeadRuns env
  | .body => BodyRuns env
  | .statement => StatementRuns env
  | .ifRest => IfRuns env
  | .catches => CatchRuns env
  | .doWhile => DoRuns env

end Runs

section Parts

variable {env : FanEnv} {type : ExprType} {t : Token} {g ts : List Token}

theorem codeRuns_plain (ht : PlainInCode true t) (hts : CodeRuns env ts) : CodeRuns env (t :: ts) :=
  fun _ below c rest hc hp => .step (goesTo_plain hp ht) fun q hq => hts q below c rest hc hq

theorem takenRuns_cons (hts : CodeRuns env ts) : TakenRuns env (t :: ts) := by
  intro p k X below c rest hk hX hentry hc hp
  refine .step (goesTo_finished hk hentry hp) fun q hq => ?_
  rw [hX] at hq
  exact hts q below c rest hc hq

theorem codeRuns_grouped (hg : GroupRuns env g) (hts : CodeRuns env ts) : CodeRuns env (g ++ ts) := by
  intro p below c rest hc hp
  rw [List.append_assoc] at hp
  exact (hg p _ below _ .code hp).trans fun q hq => hts q below c rest hc hq

theorem codeRuns_statement (hg : StatementRuns env g) (hends : StatementEnds ts) (hts : TakenRuns env ts) :
    CodeRuns env (g ++ ts) := by
  intro p below c rest hc hp
  rw [List.append_assoc] at hp
  refine (hg p below _ (hends.append hc rest) hp).trans ?_
  rintro q ⟨k, X, hk, hX, hq, hentry⟩
  exact hts q k X below c rest hk hX hentry hc hq

theorem codeRuns_do (hg : DoRuns env g) (hts : CodeRuns env ts) : CodeRuns env (g ++ ts) := by
  intro p below c rest hc hp
  rw [List.append_assoc] at hp
  exact (hg p below _ hp).trans fun q hq => hts q below c rest hc hq

/-- The end of an expression. -/
theorem goesTo_exprClose {p : Parsing} {X : OpenNode} {below : List OpenNode} {rest : List Token}
    (hX : X.kind.TakesExpr) (ht : t.is type.close = true)
    (hp : p.At (.expr type) (X :: below) (t :: rest)) :
    (act p (exprEnd env type (some X.kind) t rest)).GoesTo fun q => q.At X.kind below rest := by
  have hend : exprEnd env type (some X.kind) t rest = closeScope := by
    unfold exprEnd
    cases type with
    | parens =>
      have ht' : t.is ")" = true := ht
      simp only [ht', decide_true, Bool.and_self, if_true]
      cases hk : X.kind with
      | codeAsync an => exact absurd hk (hX an)
      | _ => rfl
    | semicol =>
      have ht' : t.is ";" = true := ht
      simp [ht']
  obtain ⟨q, hgo, hq, -⟩ := goesTo_close hp
  rw [hend]
  exact ⟨q, hgo, hq⟩

/-- No other token ends it. -/
theorem exprEnd_plain (parent : Option NodeKind) (rest : List Token) (ht : t.is type.close = false) :
    exprEnd env type parent t rest = .next .loop := by
  unfold exprEnd
  cases type with
  | parens =>
    have ht' : t.is ")" = false := ht
    simp [ht']
  | semicol =>
    have ht' : t.is ";" = false := ht
    simp [ht']

/-- What opens something in an expression is not what closes it. -/
theorem close_opens_none (ht : t.is type.close = true) (a : Action) :
    t.isAny fanWords = false ∧ orOpen [openExpr t, openCodeString t, openCodeBlock t] a = a ∧
      splitsOff type t = false := by
  cases type with
  | parens =>
    have hnot : ∀ ss : List String, (ss.any fun s' => decide (bytes ")" = bytes s')) = false →
        t.isAny ss = false := fun ss h => (Token.isAny_of_is ht ss).trans h
    have hopens := hnot ["(", "return", "throw", "\"", "'", "\x7b", ";"] (by decide)
    simp only [Token.isAny, List.any_cons, List.any_nil, Bool.or_false, Bool.or_eq_false_iff] at hopens
    refine ⟨hnot _ (by decide), ?_, ?_⟩
    · simp [orOpen, openExpr, openCodeString, openCodeBlock, Token.isAny, hopens]
    · have hop : t.isCppOp = false := hnot _ (by decide)
      simp [splitsOff, hop, hopens]
  | semicol =>
    have hnot : ∀ ss : List String, (ss.any fun s' => decide (bytes ";" = bytes s')) = false →
        t.isAny ss = false := fun ss h => (Token.isAny_of_is ht ss).trans h
    have hopens := hnot ["(", "return", "throw", "\"", "'", "\x7b"] (by decide)
    simp only [Token.isAny, List.any_cons, List.any_nil, Bool.or_false, Bool.or_eq_false_iff] at hopens
    refine ⟨hnot _ (by decide), ?_, ?_⟩
    · simp [orOpen, openExpr, openCodeString, openCodeBlock, Token.isAny, hopens]
    · have hop : t.isCppOp = false := hnot _ (by decide)
      simp [splitsOff, hop]

theorem exprRuns_done : ExprRuns env type [] := by
  intro p X below c rest hc hX hp
  obtain ⟨hfan, -, hsplit⟩ := close_opens_none hc .finish
  refine .of_step (goesTo_expr hp hfan fun top htop => ?_)
  rw [(close_opens_none hc _).2.1, exprRound_plain hsplit, hp.parent]
  exact goesTo_exprClose hX hc (hp.top htop)

theorem passedRuns_done : PassedRuns env type [] := by
  intro p X below c rest t u hc hX heq hp
  cases heq
  obtain ⟨q, hgo, hq⟩ := goesTo_exprClose hX hc hp
  exact ⟨q, hgo, .refl hq⟩

theorem exprRuns_plain (ht : PlainInExpr true type t)
    (hpassed : splitsOff type t = true → PassedRuns env type ts)
    (hplain : splitsOff type t = false → ExprRuns env type ts) : ExprRuns env type (t :: ts) := by
  intro p X below c rest hc hX hp
  have hwords := ht.opens
  rw [exprWords, Token.isAny_append, Bool.or_eq_false_iff] at hwords
  have hopens := hwords.2
  have hresult := ht.read rfl
  simp only [Token.isAny, List.any_cons, List.any_nil, Bool.or_false, Bool.or_eq_false_iff] at hopens hresult
  have hnone : ∀ a, orOpen [openExpr t, openCodeString t, openCodeBlock t] a = a := by
    intro a
    simp [orOpen, openExpr, openCodeString, openCodeBlock, Token.isAny, hopens, hresult]
  cases hsplit : splitsOff type t with
  | true =>
    -- the next token is looked at in the same round
    obtain ⟨u, v, huv⟩ := List.exists_cons_of_ne_nil (l := ts ++ c :: rest) (by simp)
    rw [List.cons_append, huv] at hp
    refine .step (Q := fun q => LeadsTo env q fun r => r.At X.kind below rest)
      (goesTo_expr hp hwords.1 fun top htop => ?_) fun q hq => hq
    have hat : Parsing.At { p with top := (top.addToken p.pre).addToken [t], pre := [], cur := u :: v }
        (.expr type) (X :: below) (u :: v) := by
      refine ⟨?_, hp.below, rfl⟩
      simp only [OpenNode.kind_addToken, htop]
    have hgo := hpassed hsplit _ X below c rest u v hc hX huv hat
    rw [hnone, exprRound_splits hsplit, hp.parent]
    simp only [act, hp.cur, hp.below, List.nil_append] at hgo ⊢
    exact hgo
  | false =>
    refine .step (goesTo_expr hp hwords.1 fun top htop => ?_) fun q hq =>
      hplain hsplit q X below c rest hc hX hq
    rw [hnone, exprRound_plain hsplit, exprEnd_plain _ _ ht.close]
    exact goesTo_next (hp.top htop)

theorem passedRuns_cons (hclose : t.is type.close = false) (hts : ExprRuns env type ts) :
    PassedRuns env type (t :: ts) := by
  intro p X below c rest t' u hc hX heq hp
  cases heq
  obtain ⟨q, hgo, hq⟩ := goesTo_next hp
  refine ⟨q, ?_, hts q X below c rest hc hX hq⟩
  rw [exprEnd_plain _ _ hclose]
  exact hgo

theorem exprRuns_grouped (hg : GroupRuns env g) (hts : ExprRuns env type ts) :
    ExprRuns env type (g ++ ts) := by
  intro p X below c rest hc hX hp
  rw [List.append_assoc] at hp
  exact (hg p _ _ _ (.expr type) hp).trans fun q hq => hts q X below c rest hc hX hq

/-! ### Groups -/

theorem groupRuns_string {q q' : Token} (hq : q.isAny ["\"", "'"] = true) (hq' : q'.text = q.text)
    (hts : StringBody true q.text ts) : GroupRuns env (q :: (ts ++ [q'])) := by
  intro p k below rest hk hp
  rw [List.cons_append, List.append_assoc, List.singleton_append] at hp
  obtain ⟨c, hc, htext⟩ : ∃ c : UInt8, c ≠ 92 ∧ q.text = [c] := by
    simp only [Token.isAny, List.any_cons, List.any_nil, Bool.or_false, Bool.or_eq_true] at hq
    rcases hq with hq | hq
    · exact ⟨34, by decide, of_decide_eq_true hq⟩
    · exact ⟨39, by decide, of_decide_eq_true hq⟩
  have hnot : ∀ ss : List String,
      ss.all (fun s => decide (bytes s ≠ bytes "\"" ∧ bytes s ≠ bytes "'")) = true →
        q.isAny ss = false := by
    intro ss hss
    simp only [Token.isAny, List.any_cons, List.any_nil, Bool.or_false, Bool.or_eq_true] at hq
    rw [Token.isAny, List.any_eq_false]
    intro s hs hqs
    obtain ⟨hne, hne'⟩ := of_decide_eq_true (List.all_eq_true.1 hss s hs)
    have hqs' : q.text = bytes s := of_decide_eq_true hqs
    rcases hq with hq | hq
    · exact hne (hqs'.symm.trans (of_decide_eq_true hq))
    · exact hne' (hqs'.symm.trans (of_decide_eq_true hq))
  have hopens := hnot ["(", "return", "throw"] (by decide)
  simp only [Token.isAny, List.any_cons, List.any_nil, Bool.or_false, Bool.or_eq_false_iff] at hopens
  have hopen : ∀ a, orOpen [openExpr q, openCodeString q, openCodeBlock q] a
      = .openScope (.string [c] [92, c]) 1 := by
    intro a
    have hcode : openCodeString q = some (.openScope (.string [c] [92, c]) 1) := by
      rw [openCodeString, if_pos hq, htext]
      rfl
    simp [orOpen, openExpr, hcode, Token.isAny, hopens]
  rw [htext] at hts hq'
  refine .step (goesTo_open hk hp (by simp) (hnot _ (by decide)) hopen) fun r hr => ?_
  obtain ⟨X, hX, hat⟩ := hr
  refine (leadsTo_string hts hq' hc (hX ▸ hk) hat).mono fun r' hr' => ?_
  rw [hX] at hr'
  exact hr'.1

theorem NodeKind.Host.takesExpr {k : NodeKind} (hk : k.Host) : k.TakesExpr := by
  intro an heq
  rw [heq] at hk
  cases hk

/-- An expression with what opens and closes it. -/
theorem groupRuns_expr {l r : Token} (hfan : l.isAny fanWords = false)
    (hopen : openExpr l = some (.openScope (.expr type) 1)) (hr : r.is type.close = true)
    (hts : ExprRuns env type ts) : GroupRuns env (l :: (ts ++ [r])) := by
  intro p k below rest hk hp
  rw [List.cons_append, List.append_assoc, List.singleton_append] at hp
  have hopens : ∀ a, orOpen [openExpr l, openCodeString l, openCodeBlock l] a
      = .openScope (.expr type) 1 := by
    intro a
    rw [orOpen, hopen]
    rfl
  refine .step (goesTo_open hk hp (by simp) hfan hopens) fun q hq => ?_
  obtain ⟨X, rfl, hat⟩ := hq
  exact hts q X below r rest hr hk.takesExpr hat

theorem groupRuns_block {l r : Token} (hl : l.is "\x7b" = true) (hr : r.is "\x7d" = true)
    (hts : CodeRuns env ts) : GroupRuns env (l :: (ts ++ [r])) := by
  intro p k below rest hk hp
  rw [List.cons_append, List.append_assoc, List.singleton_append] at hp
  have hnot : ∀ ss : List String, (ss.any fun s' => decide (bytes "\x7b" = bytes s')) = false →
      l.isAny ss = false := fun ss h => (Token.isAny_of_is hl ss).trans h
  have hopens := hnot ["(", "return", "throw", "\"", "'"] (by decide)
  simp only [Token.isAny, List.any_cons, List.any_nil, Bool.or_false, Bool.or_eq_false_iff] at hopens
  have hopen : ∀ a, orOpen [openExpr l, openCodeString l, openCodeBlock l] a = .openScope .codeBlock 1 := by
    intro a
    simp [orOpen, openExpr, openCodeString, openCodeBlock, Token.isAny, hopens, hl]
  have hkind : blockKind env k rest = k := by
    cases hk with
    | code => rfl
    | expr type => rfl
  refine .step (goesTo_open hk hp (by simp) (hnot _ (by decide)) hopen) fun q hq => ?_
  obtain ⟨X, rfl, hat⟩ := hq
  refine (hts q _ r rest hr hat).trans fun q' hq' => ?_
  refine (LeadsTo.of_step (goesTo_brace hq' hr)).mono fun q'' hq'' => ?_
  rw [hkind] at hq''
  exact hq''.1

/-! ### Parts of statements -/

/-- The node of a statement that is not complete. -/
def NodeKind.Pending (k : NodeKind) : Prop := ∀ t : Token, t.isGap = true → k.Skips t

theorem pending_control {cn : ControlNode} (hdone : cn.done = false) :
    (NodeKind.codeControl cn).Pending := fun _ ht => .control hdone (.inl ht)

theorem pending_err {en : ErrNode} (hdone : en.done = false) : (NodeKind.codeErr en).Pending :=
  fun _ ht => .err hdone (.inl ht)

theorem NodeKind.WantsExpr.pending {k k' : NodeKind} (h : k.WantsExpr k') : k.Pending := by
  cases h with
  | control hdone _ _ => exact pending_control hdone
  | err hdone _ => exact pending_err hdone

theorem NodeKind.WantsCode.pending {k k' : NodeKind} (h : k.WantsCode k') : k.Pending := by
  cases h with
  | control hdone _ _ => exact pending_control hdone
  | err hdone _ _ => exact pending_err hdone

section Gaps

variable (htrim : TrimsBlank env)

include htrim

theorem leadsTo_gaps {k : NodeKind} {below : List OpenNode} {rest : List Token} (hk : k.Pending)
    (hg : ∀ t ∈ g, t.isGap = true) {p : Parsing} (hp : p.At k below (g ++ rest)) :
    LeadsTo env p fun q => q.At k below rest := by
  induction g generalizing p with
  | nil => exact .refl hp
  | cons t g ih =>
    rw [List.forall_mem_cons] at hg
    exact .step (goesTo_skip htrim (hk t hg.1) hp) fun q hq => ih hg.2 hq

theorem headRuns {l r : Token} (hg : ∀ t ∈ g, t.isGap = true) (hl : l.is "(" = true)
    (hr : r.is ")" = true) (hts : ExprRuns env .parens ts) : HeadRuns env (g ++ l :: (ts ++ [r])) := by
  intro p k k' below rest hk hp
  simp only [List.append_assoc, List.cons_append, List.nil_append] at hp
  refine (leadsTo_gaps htrim hk.pending hg hp).trans fun q hq => ?_
  refine .step (goesTo_wantsExpr htrim hk hq (by simp) hl) fun q' hq' => ?_
  obtain ⟨X, rfl, hat⟩ := hq'
  have htakes : X.kind.TakesExpr := by
    intro an heq
    rw [heq] at hk
    cases hk
  exact hts q' X below r rest hr htakes hat

theorem bodyRuns {l r : Token} (hg : ∀ t ∈ g, t.isGap = true) (hl : l.is "\x7b" = true)
    (hr : r.is "\x7d" = true) (hts : CodeRuns env ts) : BodyRuns env (g ++ l :: (ts ++ [r])) := by
  intro p k k' below rest hk hp
  simp only [List.append_assoc, List.cons_append, List.nil_append] at hp
  refine (leadsTo_gaps htrim hk.pending hg hp).trans fun q hq => ?_
  refine .step (goesTo_wantsCode htrim hk hq (by simp) hl) fun q' hq' => ?_
  obtain ⟨X, rfl, hat⟩ := hq'
  exact (hts q' _ r rest hr hat).trans fun q'' hq'' => .of_step (goesTo_brace hq'' hr)

theorem leadsTo_skip {k : NodeKind} {below : List OpenNode} {rest : List Token} (hk : k.Skips t)
    {p : Parsing} (hp : p.At k below (t :: rest)) : LeadsTo env p fun q => q.At k below rest :=
  .of_step (goesTo_skip htrim hk hp)

/-! ### Statements -/

omit htrim in
/-- The condition of an `if` and its block. -/
theorem leadsTo_if {h b : List Token} (hh : HeadRuns env h) (hb : BodyRuns env b) {cn : ControlNode}
    {below : List OpenNode} {rest : List Token} (hsec : cn.sec = .codeIf) (hexpr : cn.needExpr = true)
    (hcode : cn.needCode = true) (hdone : cn.done = false) {p : Parsing}
    (hp : p.At (.codeControl cn) below (h ++ (b ++ rest))) :
    LeadsTo env p fun q =>
      q.At (blockKind env (.codeControl { cn with needExpr := false, needCode := false }) rest) below rest ∧
        q.entry = true := by
  have hnoDo : cn.sec ≠ .codeDo := by
    rw [hsec]
    nofun
  refine (hh p _ _ below _ (.control hdone hexpr fun hdo => absurd hdo hnoDo) hp).trans fun q hq => ?_
  have hwants : NodeKind.WantsCode (.codeControl { cn with needExpr := false })
      (.codeControl { cn with needExpr := false, needCode := false }) :=
    .control hdone hcode (decide_eq_false hnoDo).symm
  exact hb q _ _ below rest hwants hq

theorem ifRuns_then {h b : List Token} (hh : HeadRuns env h) (hb : BodyRuns env b) :
    IfRuns env (h ++ b) := by
  intro p cn below rest hsec hexpr hcode hdone hends hp
  rw [List.append_assoc] at hp
  have hsec' : ({ cn with needExpr := false, needCode := false } : ControlNode).sec = .codeIf := hsec
  refine (leadsTo_if hh hb hsec hexpr hcode hdone hp).mono fun q hq => ?_
  rw [blockKind_if_ends htrim hsec' hends] at hq
  exact ⟨_, .control rfl, hq⟩

/-- A block without an `if` in front of it. -/
theorem body_notIf {b : List Token} (hb : Reads true .body b) (rest : List Token) :
    elseIf env true (b ++ rest) = (true, false) := by
  cases hb with
  | @body g ts l r hg hl _ _ =>
    have helse : l.is "else" = false := (Token.is_of_is hl _).trans (by decide)
    have hif : l.is "if" = false := (Token.is_of_is hl _).trans (by decide)
    rw [List.append_assoc, elseIf_gaps htrim hg, List.cons_append,
      elseIf_solid htrim ((Token.isGap_of_is hl).trans (by decide)), helse, hif]
    rfl

theorem ifRuns_else {h b g b' : List Token} {e : Token} (hh : HeadRuns env h) (hb : BodyRuns env b)
    (hg : ∀ t ∈ g, t.isGap = true) (he : e.is "else" = true) (hread : Reads true .body b')
    (hb' : BodyRuns env b') : IfRuns env (h ++ (b ++ (g ++ e :: b'))) := by
  intro p cn below rest hsec hexpr hcode hdone hends hp
  simp only [List.append_assoc, List.cons_append] at hp
  refine (leadsTo_if hh hb hsec hexpr hcode hdone hp).trans ?_
  rintro q' ⟨hq', -⟩
  have hnext : elseIf env false (g ++ e :: (b' ++ rest)) = (true, false) := by
    rw [elseIf_gaps htrim hg, elseIf_else htrim he, body_notIf htrim hread]
  have hkind : blockKind env (.codeControl { cn with needExpr := false, needCode := false })
      (g ++ e :: (b' ++ rest)) = .codeControl { cn with needExpr := false, needCode := true } := by
    simp only [blockKind, hsec, if_true, hnext]
  have hexpr' : false = decide (cn.sec = .codeDo) := by
    rw [hsec]
    rfl
  rw [hkind] at hq'
  have hdone' : ({ cn with needExpr := false, needCode := true } : ControlNode).done = false := hdone
  have hsec' : ({ cn with needExpr := false, needCode := false } : ControlNode).sec = .codeIf := hsec
  refine (leadsTo_gaps htrim (pending_control hdone') hg hq').trans fun r hr => ?_
  have helse : e.isAny ["else", "if", "while"] = true := (Token.isAny_of_is he _).trans (by decide)
  refine (leadsTo_skip htrim (.control hdone' (.inr helse)) hr).trans fun r' hr' => ?_
  have hwants : NodeKind.WantsCode (.codeControl { cn with needExpr := false, needCode := true })
      (.codeControl { cn with needExpr := false, needCode := false }) := .control hdone rfl hexpr'
  refine (hb' r' _ _ below rest hwants hr').mono fun s hs => ?_
  rw [blockKind_if_ends htrim hsec' hends] at hs
  exact ⟨_, .control rfl, hs⟩

theorem ifRuns_elseIf {h b g g' s : List Token} {e k : Token} (hh : HeadRuns env h)
    (hb : BodyRuns env b) (hg : ∀ t ∈ g, t.isGap = true) (he : e.is "else" = true)
    (hg' : ∀ t ∈ g', t.isGap = true) (hk : k.is "if" = true) (hs : IfRuns env s) :
    IfRuns env (h ++ (b ++ (g ++ e :: (g' ++ k :: s)))) := by
  intro p cn below rest hsec hexpr hcode hdone hends hp
  simp only [List.append_assoc, List.cons_append] at hp
  refine (leadsTo_if hh hb hsec hexpr hcode hdone hp).trans ?_
  rintro q' ⟨hq', -⟩
  have hnext : elseIf env false (g ++ e :: (g' ++ k :: (s ++ rest))) = (true, true) := by
    have hif : k.is "else" = false := (Token.is_of_is hk _).trans (by decide)
    rw [elseIf_gaps htrim hg, elseIf_else htrim he, elseIf_gaps htrim hg',
      elseIf_solid htrim ((Token.isGap_of_is hk).trans (by decide)), hif, hk]
    rfl
  have hkind : blockKind env (.codeControl { cn with needExpr := false, needCode := false })
      (g ++ e :: (g' ++ k :: (s ++ rest)))
        = .codeControl { cn with needExpr := true, needCode := true } := by
    simp only [blockKind, hsec, if_true, hnext]
  rw [hkind] at hq'
  have helse : e.isAny ["else", "if", "while"] = true := (Token.isAny_of_is he _).trans (by decide)
  have hif : k.isAny ["else", "if", "while"] = true := (Token.isAny_of_is hk _).trans (by decide)
  have hdone' : ({ cn with needExpr := true, needCode := true } : ControlNode).done = false := hdone
  refine (leadsTo_gaps htrim (pending_control hdone') hg hq').trans fun r hr => ?_
  refine (leadsTo_skip htrim (.control hdone' (.inr helse)) hr).trans fun r' hr' => ?_
  refine (leadsTo_gaps htrim (pending_control hdone') hg' hr').trans fun u hu => ?_
  refine (leadsTo_skip htrim (.control hdone' (.inr hif)) hu).trans fun u' hu' => ?_
  exact hs u' { cn with needExpr := true, needCode := true } below rest hsec rfl rfl hdone hends hu'

/-- One `catch` clause. -/
theorem leadsTo_catch {g h b : List Token} {k : Token} {en : ErrNode} {below : List OpenNode}
    {rest : List Token} (hg : ∀ t ∈ g, t.isGap = true) (hk : k.is "catch" = true) (hh : HeadRuns env h)
    (hb : BodyRuns env b) (hexpr : en.needExpr = true) (hcode : en.needCode = true)
    (hdone : en.done = false) {p : Parsing} (hp : p.At (.codeErr en) below (g ++ k :: (h ++ (b ++ rest)))) :
    LeadsTo env p fun q =>
      q.At (blockKind env (.codeErr { en with needExpr := false, needCode := false }) rest) below rest ∧
        q.entry = true := by
  refine (leadsTo_gaps htrim (pending_err hdone) hg hp).trans fun q hq => ?_
  refine (leadsTo_skip htrim (.err hdone (.inr hk)) hq).trans fun q' hq' => ?_
  refine (hh q' _ _ below _ (.err hdone hexpr) hq').trans fun r hr => ?_
  exact hb r _ _ below rest (.err (by exact hdone) (by exact hcode) rfl) hr

theorem catchRuns_last {g h b : List Token} {k : Token} (hg : ∀ t ∈ g, t.isGap = true)
    (hk : k.is "catch" = true) (hh : HeadRuns env h) (hb : BodyRuns env b) :
    CatchRuns env (g ++ k :: (h ++ b)) := by
  intro p en below rest hexpr hcode hdone hends hp
  simp only [List.append_assoc, List.cons_append] at hp
  refine (leadsTo_catch htrim hg hk hh hb hexpr hcode hdone hp).mono fun q hq => ?_
  rw [blockKind_try_ends htrim hends] at hq
  exact ⟨_, .err rfl, hq⟩

/-- A block that a `catch` follows. -/
theorem blockKind_catch {g : List Token} {k : Token} {en : ErrNode} {rest : List Token}
    (hg : ∀ t ∈ g, t.isGap = true) (hk : k.is "catch" = true) :
    blockKind env (.codeErr en) (g ++ k :: rest)
      = .codeErr { en with needExpr := true, needCode := true } := by
  have hsolid : firstSolid env (g ++ k :: rest) = some k :=
    firstSolid_gaps htrim hg ((Token.isGap_of_is hk).trans (by decide))
  simp only [blockKind, hsolid, Option.any_some, hk, if_true]

/-- A block that the clauses of a statement follow. -/
theorem blockKind_catches {s rest : List Token} {en : ErrNode} (hread : Reads true .catches s) :
    blockKind env (.codeErr en) (s ++ rest) = .codeErr { en with needExpr := true, needCode := true } := by
  cases hread with
  | lastCatch hg hk _ _ =>
    rw [List.append_assoc, List.cons_append]
    exact blockKind_catch htrim hg hk
  | moreCatch hg hk _ _ _ =>
    rw [List.append_assoc, List.cons_append]
    exact blockKind_catch htrim hg hk

theorem catchRuns_more {g h b s : List Token} {k : Token} (hg : ∀ t ∈ g, t.isGap = true)
    (hk : k.is "catch" = true) (hh : HeadRuns env h) (hb : BodyRuns env b) (hread : Reads true .catches s)
    (hs : CatchRuns env s) : CatchRuns env (g ++ k :: (h ++ (b ++ s))) := by
  intro p en below rest hexpr hcode hdone hends hp
  simp only [List.append_assoc, List.cons_append] at hp
  refine (leadsTo_catch htrim hg hk hh hb hexpr hcode hdone hp).trans ?_
  rintro q ⟨hq, -⟩
  rw [blockKind_catches htrim hread] at hq
  exact hs q _ below rest rfl rfl (by exact hdone) hends hq

end Gaps

/-- The words of the language open nothing else in a block. -/
theorem orOpen_keyword {k : Token} {s : String} (hk : k.is s = true)
    (hs : (["(", "return", "throw", "\"", "'", "\x7b"].any fun s' => decide (bytes s = bytes s')) = false)
    (a : Action) :
    orOpen [openExpr k, openCodeString k, openCodeBlock k, openControl .codeBlock k, openTry k] a
      = orOpen [openControl .codeBlock k, openTry k] a := by
  have hopens := (Token.isAny_of_is hk _).trans hs
  simp only [Token.isAny, List.any_cons, List.any_nil, Bool.or_false, Bool.or_eq_false_iff] at hopens
  simp [orOpen, openExpr, openCodeString, openCodeBlock, Token.isAny, hopens]

/-- A keyword that opens a statement in a block. -/
theorem goesTo_keyword {s : String} {kind : NodeKind} {k : Token} (hk : k.is s = true)
    (hs : ((fanWords ++ ["(", "return", "throw", "\"", "'", "\x7b"]).any fun s' =>
      decide (bytes s = bytes s')) = false)
    (hopen : ∀ a, orOpen [openControl .codeBlock k, openTry k] a = .openScope kind 1)
    {below : List OpenNode} {rest : List Token} (hmore : rest ≠ []) {p : Parsing}
    (hp : p.At .codeBlock below (k :: rest)) :
    (parseStep env p).GoesTo fun q => ∃ X, X.kind = .codeBlock ∧ q.At kind (X :: below) rest := by
  rw [List.any_append, Bool.or_eq_false_iff] at hs
  refine goesTo_code hp ((Token.isAny_of_is hk _).trans hs.1) fun top htop => ?_
  rw [orOpen_keyword hk hs.2, hopen]
  exact goesTo_openScope (hp.top htop) hmore kind

theorem openControl_word {k : Token} {s : String} (hk : k.is s = true) {sec : ControlSec}
    (hs : (["if", "switch", "for", "do", "while"].any fun s' => decide (bytes s = bytes s')) = true)
    (hsec : (if decide (bytes s = bytes "if") then ControlSec.codeIf
      else if decide (bytes s = bytes "switch") then .codeSwitch
      else if decide (bytes s = bytes "while") then .codeWhile
      else if decide (bytes s = bytes "for") then .codeFor else .codeDo) = sec) (a : Action) :
    orOpen [openControl .codeBlock k, openTry k] a = .openScope (.codeControl (.new sec)) 1 := by
  have hany : (k.isAny ["if", "switch", "for", "do"] || (k.is "while" && !NodeKind.codeBlock.isControl))
      = true := by
    have hall := (Token.isAny_of_is hk ["if", "switch", "for", "do", "while"]).trans hs
    simp only [Token.isAny, List.any_cons, List.any_nil, Bool.or_false, NodeKind.isControl,
      Bool.not_false, Bool.and_true] at hall ⊢
    simpa [or_assoc] using hall
  have hopen : openControl .codeBlock k = some (.openScope (.codeControl (.new sec)) 1) := by
    rw [openControl, if_pos hany, ← hsec]
    simp only [Token.is_of_is hk]
  rw [orOpen, List.findSome?_cons, hopen]
  rfl

end Parts

end Fanjet

end LibEvmvc
