import LibEvmvc.Fanjet.Rounds

set_option autoImplicit false

/-! # What no parser does

Many parsers open comments, but all at the token that begins them, with that token as the first child, and
none makes a comment of a node of another kind. A few parsers change the members of the parent of their node,
but not if that is an expression. Actions that do neither are orderly, and all actions of the parsers are
(`parseAction_orderly`). -/

namespace LibEvmvc

namespace Fanjet

/-! ## Orderly actions -/

/-- The token begins a comment of this section. -/
def CommentSec.Opens : CommentSec → Token → Prop
  | .commentLine, t => t.text = bytes "@**"
  | .commentBlock, t => t.text = bytes "@*"
  | .regionStart, t => t.text ∈ ["@region", "@endregion", "*@"].map bytes

/-- The action opens no comment but at the token that begins it, makes no other node one, and changes no
parent that is an expression. -/
def Action.Orderly : Option NodeKind → List Token → Action → Prop
  | parent, cur, .attach a => a.Orderly parent cur
  | parent, cur, .next a => a.Orderly parent cur.tail
  | parent, cur, .set kind a => kind.isComment = false ∧ a.Orderly parent cur
  | parent, cur, .dbg _ _ a => a.Orderly parent cur
  | parent, cur, .setParent kind a =>
    kind.isComment = false ∧ (∀ type, parent ≠ some (.expr type)) ∧ a.Orderly (some kind) cur
  | _, cur, .openScope kind hup =>
    ∀ sec, kind = .comment sec → hup = 1 ∧ ∃ t rest, cur = t :: rest ∧ sec.Opens t
  | _, _, .openBoth kind inner _ => kind.isComment = false ∧ inner.isComment = false
  | _, _, .loop => True
  | _, _, .passUp => True
  | _, _, .finish => True
  | _, _, .fail _ => True
  | _, _, .null => True

/-- Wherever the parser is, and whatever its node is in: no comment is opened, and no parent changed. -/
def Action.Tame (a : Action) : Prop := ∀ parent cur, a.Orderly parent cur

/-- What is opened is no comment, if anything. -/
def OpensTame (o : Option Action) : Prop := ∀ b ∈ o, b.Tame

section Parts

variable {a : Action} {parent : Option NodeKind} {cur : List Token}

theorem tame_next (h : a.Tame) : (Action.next a).Tame := fun parent cur => h parent cur.tail

theorem tame_attach (h : a.Tame) : (Action.attach a).Tame := fun parent cur => h parent cur

theorem tame_set {kind : NodeKind} (hkind : kind.isComment = false) (h : a.Tame) :
    (Action.set kind a).Tame := fun parent cur => ⟨hkind, h parent cur⟩

theorem orderly_setParent {kind : NodeKind} (hkind : kind.isComment = false)
    (hparent : ∀ type, parent ≠ some (.expr type)) (h : a.Tame) : (Action.setParent kind a).Orderly parent cur :=
  ⟨hkind, hparent, h (some kind) cur⟩

theorem tame_loop : Action.loop.Tame := fun _ _ => trivial

theorem tame_passUp : Action.passUp.Tame := fun _ _ => trivial

theorem tame_finish : Action.finish.Tame := fun _ _ => trivial

theorem tame_fail (err : FanError) : (Action.fail err).Tame := fun _ _ => trivial

theorem tame_next_loop : (Action.next .loop).Tame := tame_next tame_loop

theorem tame_closeScope : closeScope.Tame := fun _ _ => trivial

theorem tame_closeScopeAt (ts : List Token) : (closeScopeAt ts).Tame := by
  cases ts with
  | nil => exact tame_finish
  | cons t ts => exact tame_closeScope

theorem tame_openScope {kind : NodeKind} (hkind : kind.isComment = false) (hup : Nat) :
    (Action.openScope kind hup).Tame := by
  rintro parent cur sec rfl
  cases hkind

theorem tame_nextN (k : Nat) (h : a.Tame) : (nextN k a).Tame := by
  induction k with
  | zero => exact h
  | succ k ih => exact tame_next ih

theorem opensTame_none : OpensTame none := fun b hb => by cases hb

theorem opensTame_some (h : a.Tame) : OpensTame (some a) := by
  intro b hb
  cases hb
  exact h

theorem opensTame_ite {c : Prop} [Decidable c] {o : Option Action} (h : OpensTame o) :
    OpensTame (if c then o else none) := by
  split
  · exact h
  · exact opensTame_none

/-- A node that is no comment, under a condition. -/
theorem opensTame_scope {c : Prop} [Decidable c] {kind : NodeKind} (hkind : kind.isComment = false)
    (hup : Nat) : OpensTame (if c then some (.openScope kind hup) else none) :=
  opensTame_ite (opensTame_some (tame_openScope hkind hup))

theorem orOpen_orderly {opens : List (Option Action)} (hopens : ∀ o ∈ opens, OpensTame o)
    (ha : a.Orderly parent cur) : (orOpen opens a).Orderly parent cur := by
  induction opens with
  | nil => exact ha
  | cons o opens ih =>
    cases o with
    | none => exact ih fun o ho => hopens o (List.mem_cons_of_mem _ ho)
    | some b => exact hopens _ List.mem_cons_self b rfl parent cur

/-- What `open_fan_comment` opens begins with the token. -/
theorem openFanComment_opens (t : Token) (rest : List Token) :
    ∀ b ∈ openFanComment t, b.Orderly parent (t :: rest) := by
  intro b hb
  unfold openFanComment at hb
  split at hb
  · next hopen =>
    cases hb
    rintro sec hsec
    cases hsec
    refine ⟨rfl, t, rest, rfl, ?_⟩
    by_cases hline : t.is "@**" = true
    · have htext : t.text = bytes "@**" := of_decide_eq_true hline
      rw [if_pos hline]
      exact htext
    · by_cases hblock : t.is "@*" = true
      · have htext : t.text = bytes "@*" := of_decide_eq_true hblock
        rw [if_neg hline, if_pos hblock]
        exact htext
      · rw [if_neg hline, if_neg hblock]
        simp only [Token.isFanComment, Token.isAny, List.any_cons, List.any_nil, Bool.or_false, hline, hblock,
          Bool.false_or, Bool.or_eq_true] at hopen
        rcases hopen with hopen | hopen | hopen
        · exact List.mem_map.2 ⟨"*@", by simp, (of_decide_eq_true hopen).symm⟩
        · exact List.mem_map.2 ⟨"@region", by simp, (of_decide_eq_true hopen).symm⟩
        · exact List.mem_map.2 ⟨"@endregion", by simp, (of_decide_eq_true hopen).symm⟩
  · cases hb

theorem entered_orderly {entry : Bool} {n : OpenNode} {body : OpenNode → Action}
    (h : ∀ n, (body n).Orderly parent cur) : (entered entry n cur body).Orderly parent cur := by
  unfold entered
  split
  · split
    · trivial
    · exact h _
  · exact h n

end Parts

/-! ## What opens another node -/

section Opens

variable {parent : Option NodeKind} {t : Token} {rest : List Token}

theorem openFanDirective_tame (k : NodeKind) (t : Token) : OpensTame (openFanDirective k t) := by
  refine opensTame_ite ?_
  split
  · exact opensTame_some (tame_fail _)
  · exact opensTame_some (tame_openScope rfl 1)

theorem openFanOutput_tame (t : Token) : OpensTame (openFanOutput t) :=
  opensTame_ite (opensTame_some fun _ _ => ⟨rfl, rfl⟩)

theorem openExpr_tame (t : Token) : OpensTame (openExpr t) := by
  unfold openExpr
  split
  · exact opensTame_some (tame_openScope rfl 1)
  · exact opensTame_scope rfl 1

theorem openFanMarkup_tame (env : FanEnv) (t : Token) (rest : List Token) :
    OpensTame (openFanMarkup env t rest) := by
  refine opensTame_ite ?_
  split
  · exact opensTame_some (tame_openScope rfl _)
  · split
    · exact opensTame_some (tame_openScope rfl _)
    · dsimp only
      split
      · exact opensTame_some (tame_fail _)
      · split
        · exact opensTame_some (tame_openScope rfl _)
        · exact opensTame_some (tame_openScope rfl _)

theorem openFanFn_tame (t : Token) : OpensTame (openFanFn t) := by
  refine opensTame_ite ?_
  split
  · exact opensTame_some fun _ _ => ⟨rfl, rfl⟩
  · exact opensTame_some (tame_openScope rfl 1)

theorem openTag_tame (t : Token) (rest : List Token) : OpensTame (openTag t rest) := by
  refine opensTame_ite ?_
  split
  · exact opensTame_none
  · exact opensTame_some (tame_openScope rfl 1)

theorem openMarkdownString_tame (t : Token) (rest : List Token) :
    OpensTame (openMarkdownString t rest) := by
  have hscope (enclosing : Bytes) : (Action.openScope (.string enclosing []) 1).Tame :=
    tame_openScope rfl 1
  unfold openMarkdownString
  split
  · split
    · exact opensTame_none
    · next nt ts =>
      dsimp only
      generalize (if nt.is " " then (nt :: ts).takeWhile fun nt => nt.isAny [" ", "\t"] else []) = blanks
      split
      · exact opensTame_some (tame_nextN _ (hscope _))
      · exact opensTame_ite (opensTame_some (tame_next (hscope _)))
  · exact opensTame_scope rfl 1

/-- What the functions that open another node than a comment do at a token. -/
def otherOpens (env : FanEnv) (k : NodeKind) (t : Token) (rest : List Token) : List (Option Action) :=
  [openFanDirective k t, openFanOutput t, openFanCodeBlock t, openFanControl t, openFanTry t,
    openFanFuniFunc t, openFanFunaAwait t, openFanMarkup env t rest, openFanKey t, openFanFn t, openExpr t,
    openCodeString t, openCodeBlock t, openControl k t, openTry t, openTag t rest, openMarkdownString t rest]

theorem otherOpens_tame (env : FanEnv) (k : NodeKind) (t : Token) (rest : List Token) :
    ∀ o ∈ otherOpens env k t rest, OpensTame o := by
  unfold otherOpens
  simp only [List.forall_mem_cons, List.not_mem_nil, false_imp_iff, implies_true, and_true]
  exact ⟨openFanDirective_tame k t, openFanOutput_tame t, opensTame_scope rfl 1,
    opensTame_scope rfl 1, opensTame_scope rfl 1, opensTame_scope rfl 1,
    opensTame_scope rfl 1, openFanMarkup_tame env t rest, opensTame_scope rfl 1,
    openFanFn_tame t, openExpr_tame t, opensTame_scope rfl 1, opensTame_scope rfl 1,
    opensTame_scope rfl 1, opensTame_scope rfl 1, openTag_tame t rest,
    openMarkdownString_tame t rest⟩

theorem orOpen_other (env : FanEnv) (k : NodeKind) {opens : List (Option Action)} {a : Action}
    (hopens : opens ⊆ otherOpens env k t rest) (ha : a.Orderly parent (t :: rest)) :
    (orOpen opens a).Orderly parent (t :: rest) :=
  orOpen_orderly (fun o ho => otherOpens_tame env k t rest o (hopens ho)) ha

/-- `open_fan_comment` is asked first. -/
theorem orOpen_comment (env : FanEnv) (k : NodeKind) {opens : List (Option Action)} {a : Action}
    (hopens : opens ⊆ otherOpens env k t rest) (ha : a.Orderly parent (t :: rest)) :
    (orOpen (openFanComment t :: opens) a).Orderly parent (t :: rest) := by
  cases hopen : openFanComment t with
  | none =>
    show (orOpen opens a).Orderly parent (t :: rest)
    exact orOpen_other env k hopens ha
  | some b => exact openFanComment_opens t rest b hopen

theorem literalParse_orderly (env : FanEnv) (sec : LiteralSec) (lang : Bytes) (braces : Nat)
    (pre cur : List Token) : (literalParse env sec lang braces pre cur).Orderly parent cur := by
  cases cur with
  | nil =>
    unfold literalParse
    dsimp only
    split
    · trivial
    · split <;> trivial
  | cons t rest =>
    have hopens : (orOpen (literalOpens env (.literal sec lang braces) t rest) (.next .loop)).Orderly parent
        (t :: rest) :=
      orOpen_comment env (.literal sec lang braces) (by simp [otherOpens]) (tame_next_loop _ _)
    have hcloses : (if t.is "\x7d" then closeScope else
        orOpen (literalOpens env (.literal sec lang braces) t rest) (.next .loop)).Orderly parent
        (t :: rest) := by
      split
      · exact tame_closeScope _ _
      · exact hopens
    have htag {a : Action} (ha : a.Orderly parent (t :: rest)) :
        (orOpen [openTag t rest] a).Orderly parent (t :: rest) :=
      orOpen_other env (.literal sec lang braces) (by simp [otherOpens]) ha
    unfold literalParse
    dsimp only
    split
    · exact tame_next_loop _ _
    · cases sec with
      | literal => exact htag hopens
      | markupHtml => exact htag hcloses
      | markupOther =>
        dsimp only
        split
        · exact tame_closeScope _ _
        · split
          · exact htag hcloses
          · split
            · exact orOpen_other env (.literal .markupOther lang braces) (by simp [otherOpens]) hcloses
            · split
              · split
                · split
                  · exact hcloses
                  · split
                    · exact tame_next tame_next_loop _ _
                    · exact hcloses
                · split
                  · exact tame_set rfl tame_next_loop _ _
                  · split
                    · split
                      · exact tame_closeScope _ _
                      · exact tame_set rfl tame_next_loop _ _
                    · exact hopens
              · exact hcloses

theorem exprEnd_orderly (env : FanEnv) (type : ExprType) (parent : Option NodeKind) (t : Token)
    (rest cur : List Token) : (exprEnd env type parent t rest).Orderly parent cur := by
  unfold exprEnd
  split
  · split
    · split
      · split
        · exact orderly_setParent rfl nofun tame_closeScope
        · split
          · exact orderly_setParent rfl nofun tame_closeScope
          · exact tame_fail _ _ _
      · exact tame_closeScope _ _
    · exact tame_closeScope _ _
  · split
    · exact tame_closeScope _ _
    · exact tame_next_loop _ _

theorem exprParse_orderly (env : FanEnv) (entry : Bool) (n : OpenNode) (type : ExprType)
    (parent : Option NodeKind) (cur : List Token) :
    (exprParse env entry n type parent cur).Orderly parent cur := by
  refine entered_orderly fun n => ?_
  cases cur with
  | nil => trivial
  | cons t rest =>
    refine orOpen_comment env n.kind (by simp [otherOpens]) ?_
    split
    · split
      · trivial
      · next u rest => exact exprEnd_orderly env type parent u rest (u :: rest)
    · exact exprEnd_orderly env type parent t rest (t :: rest)

theorem tagParse_orderly (env : FanEnv) (entry : Bool) (n : OpenNode) (tn : TagNode) (cur : List Token) :
    (tagParse env entry n tn cur).Orderly parent cur := by
  refine entered_orderly fun n => ?_
  cases cur with
  | nil => trivial
  | cons t rest =>
    have hcomplete : (tagComplete tn).Tame := tame_set rfl tame_closeScope
    have hopens : (orOpen (tagOpens env t rest) (.next .loop)).Orderly parent (t :: rest) :=
      orOpen_comment env n.kind (by simp [otherOpens]) (tame_next_loop _ _)
    dsimp only
    split
    · refine orOpen_other env n.kind (by simp [otherOpens]) ?_
      split
      · split
        · exact hcomplete _ _
        · exact hopens
      · split
        · exact hcomplete _ _
        · split
          · exact tame_set rfl tame_next_loop _ _
          · exact hopens
    · split
      · refine orOpen_comment env n.kind (by simp [otherOpens]) ?_
        split
        · exact tame_set rfl tame_next_loop _ _
        · exact tame_next_loop _ _
      · split
        · split
          · exact tame_set rfl tame_closeScope _ _
          · exact tame_next_loop _ _
        · exact tame_next_loop _ _

theorem stringEnd_tame (parent : Option NodeKind) (t : Token) : (stringEnd parent t).Tame := by
  unfold stringEnd
  split
  · intro parent cur
    refine orOpen_orderly ?_ (tame_next_loop parent cur)
    simp only [List.forall_mem_cons, List.not_mem_nil, false_imp_iff, implies_true, and_true]
    exact ⟨openFanOutput_tame t, opensTame_scope rfl 1, openFanFn_tame t⟩
  · exact tame_next_loop

theorem stringParse_orderly (entry : Bool) (n : OpenNode) (enclosing escape : Bytes)
    (parent : Option NodeKind) (cur : List Token) :
    (stringParse entry n enclosing escape parent cur).Orderly parent cur := by
  refine entered_orderly fun n => ?_
  cases cur with
  | nil => trivial
  | cons t rest =>
    dsimp only
    split
    · exact tame_nextN _ (stringEnd_tame _ _) _ _
    · split
      · exact tame_nextN _ tame_closeScope _ _
      · exact stringEnd_tame _ _ _ _

theorem directiveParse_orderly (env : FanEnv) (entry : Bool) (n : OpenNode) (sec : DirectiveSec)
    (done : Bool) (parent : Option NodeKind) (cur : List Token) :
    (directiveParse env entry n sec done parent cur).Orderly parent cur := by
  refine entered_orderly fun n => ?_
  split
  · trivial
  · split
    · trivial
    · cases cur with
      | nil => trivial
      | cons t rest =>
        dsimp only
        split
        · split
          · split
            · refine ⟨rfl, orOpen_orderly ?_ trivial⟩
              simp only [List.forall_mem_cons, List.not_mem_nil, false_imp_iff, implies_true, and_true]
              exact opensTame_scope rfl 1
            · trivial
          · exact tame_next_loop _ _
        · split
          · exact tame_set rfl tame_closeScope _ _
          · split
            · exact ⟨rfl, orOpen_comment env n.kind (List.nil_subset _) trivial⟩
            · exact tame_next_loop _ _

theorem commentParse_tame (sec : CommentSec) (cur : List Token) :
    (commentParse sec cur).Tame := by
  cases cur with
  | nil => exact tame_finish
  | cons t rest =>
    unfold commentParse
    dsimp only
    generalize (if sec = .commentBlock then "*@" else "\n") = close
    split
    · exact tame_closeScope
    · exact tame_next_loop

theorem outputParse_orderly (entry : Bool) (n : OpenNode) (done : Bool) (cur : List Token) :
    (outputParse entry n done cur).Orderly parent cur := by
  unfold outputParse
  split
  · trivial
  · refine entered_orderly fun n => ?_
    split
    · trivial
    · split
      · exact tame_closeScope _ _
      · exact tame_next_loop _ _

theorem blockEnd_orderly (env : FanEnv) (parent : Option NodeKind) (rest cur : List Token) :
    (blockEnd env parent rest).Orderly parent cur := by
  unfold blockEnd
  split
  · split
    · split
      · exact orderly_setParent rfl nofun tame_closeScope
      · exact orderly_setParent rfl nofun tame_closeScope
      · exact orderly_setParent rfl nofun tame_closeScope
    · split
      · exact orderly_setParent rfl nofun tame_closeScope
      · exact tame_closeScope _ _
  · split
    · exact orderly_setParent rfl nofun tame_closeScope
    · exact orderly_setParent rfl nofun tame_closeScope
  · split
    · exact orderly_setParent rfl nofun tame_closeScope
    · exact tame_closeScope _ _
  · exact tame_closeScope _ _

theorem codeBlockParse_orderly (env : FanEnv) (entry : Bool) (n : OpenNode) (parent : Option NodeKind)
    (cur : List Token) : (codeBlockParse env entry n parent cur).Orderly parent cur := by
  refine entered_orderly fun n => ?_
  cases cur with
  | nil => trivial
  | cons t rest =>
    refine orOpen_comment env n.kind (by simp [otherOpens]) ?_
    split
    · exact blockEnd_orderly env parent rest (t :: rest)
    · exact tame_next_loop _ _

/-- What is opened at a token, and else every call returns. -/
theorem orOpen_finish_tame {o : Option Action} (h : OpensTame o) :
    (orOpen [o] .finish).Tame := by
  intro parent cur
  refine orOpen_orderly (fun o' ho => ?_) trivial
  rw [List.mem_singleton.1 ho]
  exact h

theorem codeControlParse_orderly (env : FanEnv) (entry : Bool) (n : OpenNode) (cn : ControlNode)
    (cur : List Token) : (codeControlParse env entry n cn cur).Orderly parent cur := by
  unfold codeControlParse
  split
  · exact tame_closeScopeAt _ _ _
  · refine entered_orderly fun n => ?_
    cases cur with
    | nil => trivial
    | cons t rest =>
      dsimp only
      split
      · split
        · split
          · exact ⟨rfl, orOpen_finish_tame (openExpr_tame t) _ _⟩
          · trivial
        · split
          · split
            · exact ⟨rfl, orOpen_finish_tame (opensTame_scope rfl 1) _ _⟩
            · trivial
          · split
            · split
              · exact ⟨rfl, trivial⟩
              · trivial
            · exact tame_next_loop _ _
      · exact tame_next_loop _ _

theorem codeErrParse_orderly (env : FanEnv) (entry : Bool) (n : OpenNode) (en : ErrNode)
    (cur : List Token) : (codeErrParse env entry n en cur).Orderly parent cur := by
  unfold codeErrParse
  split
  · exact tame_closeScopeAt _ _ _
  · refine entered_orderly fun n => ?_
    cases cur with
    | nil => trivial
    | cons t rest =>
      dsimp only
      split
      · split
        · split
          · exact ⟨rfl, orOpen_finish_tame (openExpr_tame t) _ _⟩
          · trivial
        · split
          · split
            · exact ⟨rfl, orOpen_finish_tame (opensTame_scope rfl 1) _ _⟩
            · trivial
          · exact tame_next_loop _ _
      · exact tame_next_loop _ _

theorem codeFunParse_orderly (env : FanEnv) (entry : Bool) (n : OpenNode) (sec : FunSec) (done : Bool)
    (cur : List Token) : (codeFunParse env entry n sec done cur).Orderly parent cur := by
  unfold codeFunParse
  split
  · exact tame_closeScopeAt _ _ _
  · refine entered_orderly fun n => ?_
    cases cur with
    | nil => trivial
    | cons t rest =>
      dsimp only
      split
      · split
        · exact ⟨rfl, orOpen_finish_tame (opensTame_scope rfl 1) _ _⟩
        · trivial
      · exact tame_next_loop _ _

theorem asyncEnd_tame (an : AsyncNode) (t : Token) (rest : List Token) :
    (asyncEnd an t rest).Tame := by
  have hskip (k : Nat) (ts : List Token) :
      (nextN k (if ts = [] then .loop else .attach .loop)).Tame := by
    refine tame_nextN k ?_
    split
    · exact tame_loop
    · exact tame_attach tame_loop
  unfold asyncEnd
  generalize (if 0 < an.openedTags then { an with asyncType := an.asyncType ++ t.text } else an) = an
  refine tame_set rfl ?_
  split
  · dsimp only
    generalize t.is ">" = close
    split
    · exact tame_attach (tame_next (tame_attach (hskip _ _)))
    · exact tame_next (hskip _ _)
  · exact tame_next_loop

theorem asyncRound_tame (env : FanEnv) (an : AsyncNode) (t : Token) (rest : List Token) :
    (asyncRound env an t rest).Tame := by
  unfold asyncRound
  split
  · split
    · exact asyncEnd_tame _ _ _
    · split
      · split
        · exact tame_set rfl (orOpen_finish_tame (openExpr_tame t))
        · exact tame_fail _
      · split
        · split
          · exact tame_set rfl (orOpen_finish_tame (opensTame_scope rfl 1))
          · exact tame_fail _
        · split
          · split
            · exact tame_set rfl (tame_next (tame_attach tame_passUp))
            · exact tame_fail _
          · exact asyncEnd_tame _ _ _
  · exact asyncEnd_tame _ _ _

theorem codeAsyncParse_orderly (env : FanEnv) (entry : Bool) (n : OpenNode) (an : AsyncNode)
    (cur : List Token) : (codeAsyncParse env entry n an cur).Orderly parent cur := by
  unfold codeAsyncParse
  split
  · exact tame_closeScopeAt _ _ _
  · refine entered_orderly fun n => ?_
    cases cur with
    | nil =>
      dsimp only
      split
      · trivial
      · split <;> trivial
    | cons t rest =>
      dsimp only
      split
      · exact asyncRound_tame _ _ _ _ _ _
      · exact asyncRound_tame _ _ _ _ _ _

theorem fanFnParse_orderly (env : FanEnv) (entry : Bool) (n : OpenNode) (sec : FnSec) (done : Bool)
    (cur : List Token) : (fanFnParse env entry n sec done cur).Orderly parent cur := by
  unfold fanFnParse
  split
  · trivial
  · refine entered_orderly fun n => ?_
    cases cur with
    | nil => trivial
    | cons t rest =>
      dsimp only
      split
      · split
        · exact tame_set rfl tame_closeScope _ _
        · exact tame_next_loop _ _
      · split
        · split
          · exact ⟨rfl, orOpen_finish_tame (openExpr_tame t) _ _⟩
          · trivial
        · exact tame_next_loop _ _

end Opens

/-- **Every action of a parser is orderly.** -/
theorem parseAction_orderly (env : FanEnv) (p : Parsing) : (parseAction env p).Orderly (p.below.head?.map OpenNode.kind) p.cur := by
  unfold parseAction
  dsimp only
  split
  · exact literalParse_orderly ..
  · exact exprParse_orderly ..
  · exact stringParse_orderly ..
  · exact directiveParse_orderly ..
  · exact commentParse_tame _ _ _ _
  · exact outputParse_orderly ..
  · exact codeBlockParse_orderly ..
  · exact codeControlParse_orderly ..
  · exact codeErrParse_orderly ..
  · exact codeFunParse_orderly ..
  · exact codeAsyncParse_orderly ..
  · trivial
  · exact fanFnParse_orderly ..
  · exact tagParse_orderly ..

end Fanjet

end LibEvmvc
