import Mathlib.Data.List.TakeWhile
import LibEvmvc.Fanjet.OpenRounds

set_option autoImplicit false

/-! # The rounds of the parsers

A round of any of the parsers is a good one (`parseAction_good`), unless the tokens end where the parser
returns (`EndsWhole`, `RunsOut`) or it is about to dereference a null token (`NullAhead`). -/

namespace LibEvmvc

namespace Fanjet

/-! ## Where a parse ends -/

/-- The round dereferences a null token: a section of markup without a token since its last child, an
    indentation without a line, an operator at the end of an expression, or an asynchronous call that is
    resumed at the end. -/
def NullAhead (p : Parsing) : Prop :=
  match p.top.kind with
  | .literal sec lang _ =>
    (sec ≠ .literal ∧ p.pre = [] ∧ p.cur = []) ∨
      (sec = .markupOther ∧ (lang = bytes "markdown" ∨ lang = bytes "md") ∧ endsIndented p.cur = true)
  | .expr type => ∃ t, p.cur = [t] ∧ splitsOff type t = true
  | .codeAsync an => p.entry = true ∧ an.done = false ∧ p.cur = []
  | _ => False

/-- The tokens end in a comment or in an asynchronous call. -/
def RunsOut (p : Parsing) : Prop :=
  p.cur = [] ∧
    match p.top.kind with
    | .comment _ => True
    | .codeAsync an => p.entry = false ∧ an.openedTags = 0
    | _ => False

/-- The tokens end in the literal at the top, or behind the end of a statement. -/
def EndsWhole (p : Parsing) : Prop :=
  p.cur = [] ∧
    match p.top.kind with
    | .literal sec _ _ => sec = .literal
    | .codeControl cn => p.entry = true ∧ cn.done = true
    | .codeErr en => p.entry = true ∧ en.done = true
    | .codeFun _ done => p.entry = true ∧ done = true
    | .codeAsync an => p.entry = true ∧ an.done = true
    | _ => False

/-! ## The nodes -/

section Nodes

variable {T : List Token} {p : Parsing}

/-- The round at the beginning of which a parse is. -/
def Parsing.round (p : Parsing) : Round where
  cur := p.cur
  moved := false
  kept := !p.pre.isEmpty
  ent := p.top.dbgLine ≠ 0 || p.top.kind.skipsDbg
  kind := p.top.kind
  parent := p.below.head?.map OpenNode.kind

/-- The round once `_dbg_line` is set. -/
def Parsing.enteredRound (p : Parsing) : Round := { p.round with ent := true }

theorem Parsing.round_kind (p : Parsing) : p.round.kind = p.top.kind := rfl

theorem Parsing.round_of (p : Parsing) : p.round.Of p p.size where
  cur := rfl
  size := Nat.le_refl _
  moved h := by cases h
  kept := by simp [Parsing.round]
  ent h := by simpa [Parsing.round, OpenNode.Entered] using h
  kind := rfl
  parent := rfl

theorem Parsing.round_ent (h : p.top.Entered) : p.round.ent = true := by
  simpa [Parsing.round, OpenNode.Entered] using h

/-- A node that is not the literal at the top has a parent. -/
theorem RoundInv.parent_ne (hp : RoundInv T p) (hsec : p.top.kind.isLiteralSec = false) :
    p.below.head?.map OpenNode.kind ≠ none := by
  have hout := hp.outermost
  cases hbelow : p.below with
  | nil =>
    rw [hbelow, Fanjet.outermost, hsec] at hout
    cases hout
  | cons n below => simp

/-- A round of a parser that sets `_dbg_line`: what follows may rely on it. -/
theorem ParseInv.entered_good (hp : ParseInv T p) (hk : p.top.kind.Inner)
    (hskips : p.entry = true → p.top.kind.skipsDbg = false) {body : OpenNode → Action}
    (hbody : ∀ n, (body n).Good p.enteredRound) :
    (entered p.entry p.top p.cur body).Good p.round := by
  unfold entered
  split
  · next hfirst =>
    rw [Bool.and_eq_true, decide_eq_true_eq] at hfirst
    cases hcur : p.cur with
    | nil =>
      rcases hp.topEntered (.inr hcur) with hdbg | hskip
      · exact absurd hfirst.2 hdbg
      · exact absurd ((hskips hfirst.1).symm.trans hskip) (by simp)
    | cons t rest => exact ⟨hp.parent_ne hk.literalSec, ⟨t, rest, hcur, rfl⟩, hbody _⟩
  · next hfirst =>
    have hent : p.round.ent = true := by
      apply Parsing.round_ent
      rw [Bool.and_eq_true, decide_eq_true_eq, not_and_or, Bool.not_eq_true] at hfirst
      rcases hfirst with hentry | hdbg
      · exact hp.topEntered (.inl hentry)
      · exact .inl hdbg
    have hround : p.round = p.enteredRound := by rw [Parsing.enteredRound, ← hent]
    rw [hround]
    exact hbody _

theorem Parsing.at_enteredRound (hk : p.top.kind.Inner) {t : Token} {rest : List Token}
    (hcur : p.cur = t :: rest) : p.enteredRound.At t rest :=
  ⟨hcur, rfl, hk.comment, hk.key⟩

/-- A node that has just been begun goes back to its parent. -/
theorem ParseInv.passUp_good (hp : ParseInv T p) (hsec : p.top.kind.isLiteralSec = false)
    (hbegun : p.entry = true ∨ p.top.kind.isKey = true) : Action.passUp.Good p.round :=
  ⟨hsec, by simp [Parsing.round, hp.clean hbegun]⟩

/-- A round of the parser of a statement: one that is done is closed at the next token. -/
theorem ParseInv.statement_good (hp : ParseInv T p) (hk : p.top.kind.Inner)
    (hskips : p.top.kind.skipsDbg = false) {done : Bool}
    (hend : p.entry = true ∧ done = true → p.cur ≠ []) {body : OpenNode → Action}
    (hbody : ¬ (p.entry = true ∧ done = true) → ∀ n, (body n).Good p.enteredRound) :
    (if p.entry && done then closeScopeAt p.cur else entered p.entry p.top p.cur body).Good p.round := by
  split
  · next hdone => exact closeScopeAt_good (r := p.round) (hend (Bool.and_eq_true_iff.1 hdone)) hk.literalSec
  · next hdone =>
    rw [Bool.and_eq_true] at hdone
    exact hp.entered_good hk (fun _ => hskips) (hbody hdone)

/-- A round of the parser of a call: one that is done goes back to its parent. -/
theorem ParseInv.call_good (hp : ParseInv T p) (hk : p.top.kind.Inner) {done : Bool}
    (hskips : p.top.kind.skipsDbg = done) {body : OpenNode → Action}
    (hbody : ∀ n, (body n).Good p.enteredRound) :
    (if p.entry && done then .passUp else entered p.entry p.top p.cur body).Good p.round := by
  split
  · next hdone => exact hp.passUp_good hk.literalSec (.inl (Bool.and_eq_true_iff.1 hdone).1)
  · next hdone =>
    refine hp.entered_good hk (fun hentry => ?_) hbody
    rw [hentry, Bool.true_and, Bool.not_eq_true] at hdone
    exact hskips.trans hdone

/-- Behind an operator, or without one, an expression goes on or ends. -/
theorem exprEnd_good (env : FanEnv) {r : Round} (type : ExprType) {t : Token} {rest : List Token}
    (hat : r.At t rest) (hsec : r.kind.isLiteralSec = false) :
    (exprEnd env type r.parent t rest).Good r := by
  have hclose := closeScope_good hat.cur hsec
  unfold exprEnd
  split
  · split
    · next an hparent =>
      split
      · split
        · exact setParent_close_good hat.cur hsec hparent ⟨rfl, rfl, id⟩
        · split
          · exact setParent_close_good hat.cur hsec hparent ⟨rfl, rfl, id⟩
          · trivial
      · exact hclose
    · exact hclose
  · split
    · exact hclose
    · exact hat.next_loop_good

theorem exprParse_good (env : FanEnv) (hp : ParseInv T p) {type : ExprType}
    (hkind : p.top.kind = .expr type) (hnull : ¬ NullAhead p) :
    (exprParse env p.entry p.top type p.round.parent p.cur).Good p.round := by
  have hk : p.top.kind.Inner := hkind ▸ ⟨rfl, rfl, rfl⟩
  refine hp.entered_good hk (fun _ => hkind ▸ rfl) fun n => ?_
  cases hcur : p.cur with
  | nil => trivial
  | cons t rest =>
    have hat := Parsing.at_enteredRound hk hcur
    apply orOpen_good
    · intro o ho
      simp only [List.mem_cons, List.not_mem_nil, or_false] at ho
      rcases ho with rfl | rfl | rfl | rfl | rfl | rfl | rfl | rfl
      · exact openFanComment_good hat
      · exact openFanDirective_good hat _
      · exact openFanOutput_good hat
      · exact openFanKey_good hat
      · exact openFanFn_good hat
      · exact openExpr_good hat
      · exact openCodeString_good hat
      · exact openCodeBlock_good hat
    · split
      · next hsplit =>
        cases rest with
        | nil =>
          refine absurd ?_ hnull
          rw [NullAhead, hkind]
          exact ⟨t, hcur, hsplit⟩
        | cons u rest =>
          have hat' : Round.At { p.enteredRound with kept := false, cur := u :: rest, moved := true } u rest :=
            ⟨rfl, rfl, hk.comment, hk.key⟩
          exact .next_of (r := { p.enteredRound with kept := false }) hcur
            (exprEnd_good env type hat' hk.literalSec)
      · exact exprEnd_good env type hat hk.literalSec

/-- A literal at a token. -/
theorem literalParse_good_cons (env : FanEnv) {r : Round} {sec : LiteralSec} {lang : Bytes} {braces : Nat}
    (pre : List Token) {t : Token} {rest : List Token} (hat : r.At t rest)
    (hkind : r.kind = .literal sec lang braces)
    (hnull : sec = .markupOther → (lang = bytes "markdown" ∨ lang = bytes "md") →
      endsIndented (t :: rest) = false) :
    (literalParse env sec lang braces pre (t :: rest)).Good r := by
  have hnext : (Action.next .loop).Good r := hat.next_loop_good
  have hopens : (orOpen (literalOpens env (.literal sec lang braces) t rest) (.next .loop)).Good r :=
    orOpen_good (literalOpens_good env hat _) hnext
  have htag {a : Action} (ha : a.Good r) : (orOpen [openTag t rest] a).Good r :=
    orOpen_one_good (openTag_good hat) ha
  unfold literalParse
  simp only
  split
  · exact hnext
  · cases hs : sec with
    | literal =>
      rw [hs] at hopens
      exact htag hopens
    | markupHtml =>
      rw [hs] at hkind hopens
      have hclose := closeScope_good hat.cur (by rw [hkind]; rfl)
      apply htag
      split
      · exact hclose
      · exact hopens
    | markupOther =>
      rw [hs] at hkind hopens
      have hsec : r.kind.isLiteralSec = false := by rw [hkind]; rfl
      have hclose := closeScope_good hat.cur hsec
      have hcloses : (if t.is "\x7d" then closeScope else
          orOpen (literalOpens env (.literal .markupOther lang braces) t rest) (.next .loop)).Good r := by
        split
        · exact hclose
        · exact hopens
      have hset (braces' : Nat) :
          (Action.set (.literal .markupOther lang braces') (.next .loop)).Good r :=
        ⟨hkind ▸ ⟨rfl, rfl, id⟩, (hat.set ⟨rfl, rfl, rfl⟩).next_loop_good⟩
      dsimp only
      split
      · exact hclose
      split
      · exact htag hcloses
      split
      · next hmd =>
        refine orOpen_good ?_ hcloses
        intro o ho
        simp only [List.mem_cons, List.not_mem_nil, or_false] at ho
        rcases ho with rfl | rfl
        · exact openTag_good hat
        · exact openMarkdownString_good hat hsec (hnull hs hmd)
      split
      · split
        · split
          · exact hcloses
          · next nt rest =>
            split
            · refine .next_of hat.cur ?_
              exact next_loop_good (r := { r with cur := _, moved := _, kept := _ }) rfl hat.ent hat.key
            · exact hcloses
        · split
          · exact hset _
          · split
            · split
              · exact hclose
              · exact hset _
            · exact hopens
      · exact hcloses

theorem literalParse_good (env : FanEnv) {sec : LiteralSec} {lang : Bytes} {braces : Nat}
    (hkind : p.top.kind = .literal sec lang braces) (hnull : ¬ NullAhead p) (hend : ¬ EndsWhole p) :
    (literalParse env sec lang braces p.pre p.cur).Good p.round := by
  rw [NullAhead, hkind, not_or] at hnull
  rw [EndsWhole, hkind] at hend
  cases hcur : p.cur with
  | nil =>
    have hsec : sec ≠ .literal := fun hsec => hend ⟨hcur, hsec⟩
    unfold literalParse
    dsimp only
    rw [if_neg hsec]
    cases hpre : p.pre with
    | nil => exact absurd ⟨hsec, hpre, hcur⟩ hnull.1
    | cons tt pre => trivial
  | cons t rest =>
    have hent : p.round.ent = true := Parsing.round_ent (.inr (hkind ▸ rfl))
    have hat : p.round.At t rest := ⟨hcur, hent, p.round_kind ▸ hkind ▸ rfl, p.round_kind ▸ hkind ▸ rfl⟩
    refine literalParse_good_cons env p.pre hat hkind fun hsec hlang => ?_
    rw [← hcur, ← Bool.not_eq_true]
    exact fun hind => hnull.2 ⟨hsec, hlang, hind⟩

theorem tagParse_good (env : FanEnv) (hp : ParseInv T p) {tn : TagNode} (hkind : p.top.kind = .tag tn) :
    (tagParse env p.entry p.top tn p.cur).Good p.round := by
  have hk : p.top.kind.Inner := hkind ▸ ⟨rfl, rfl, rfl⟩
  have hskips : p.top.kind.skipsDbg = false := hkind ▸ rfl
  have htag (tn' : TagNode) : (NodeKind.tag tn').Inner := ⟨rfl, rfl, rfl⟩
  refine hp.entered_good hk (fun _ => hskips) fun n => ?_
  cases hcur : p.cur with
  | nil => trivial
  | cons t rest =>
    have hat := Parsing.at_enteredRound hk hcur
    have hnext : (Action.next .loop).Good p.enteredRound := hat.next_loop_good
    have hopens := orOpen_good (tagOpens_good env hat) hnext
    have hset {tn' : TagNode} {a : Action} (ha : a.Good { p.enteredRound with kind := .tag tn' }) :
        (Action.set (.tag tn') a).Good p.enteredRound :=
      ⟨hk.keeps (htag tn') fun h => absurd (hskips.symm.trans h) Bool.false_ne_true, ha⟩
    have hclose {tn' : TagNode} : closeScope.Good { p.enteredRound with kind := .tag tn' } :=
      closeScope_good hcur (htag tn').literalSec
    have hgoon {tn' : TagNode} : (Action.next .loop).Good { p.enteredRound with kind := .tag tn' } :=
      (hat.set (htag tn')).next_loop_good
    dsimp only
    split
    · apply orOpen_one_good (openCodeString_good hat)
      split
      · split
        · exact hset hclose
        · exact hopens
      · split
        · exact hset hclose
        · split
          · exact hset hgoon
          · exact hopens
    · split
      · apply orOpen_good
        · intro o ho
          simp only [List.mem_cons, List.not_mem_nil, or_false] at ho
          rcases ho with rfl | rfl | rfl | rfl | rfl | rfl | rfl | rfl | rfl | rfl | rfl
          · exact openFanComment_good hat
          · exact openFanDirective_good hat _
          · exact openFanCodeBlock_good hat
          · exact openFanControl_good hat
          · exact openFanTry_good hat
          · exact openFanFuniFunc_good hat
          · exact openFanMarkup_good env hat
          · exact openFanOutput_good hat
          · exact openFanKey_good hat
          · exact openFanFn_good hat
          · exact openTag_good hat
        · split
          · exact hset hgoon
          · exact hnext
      · split
        · split
          · exact hset hclose
          · exact hnext
        · exact hnext

/-- A text that is matched ends within the tokens. -/
theorem matchText_lt (target : Bytes) (tesc : Bytes) (k : Nat) (ts : List Token) {k' : Nat}
    (h : matchText target tesc k ts = some k') : k' < k + ts.length := by
  induction ts generalizing tesc k with
  | nil => cases h
  | cons t ts ih =>
    rw [matchText] at h
    split at h
    · split at h
      · cases h
        rw [List.length_cons]
        omega
      · have hlt := ih _ _ h
        rw [List.length_cons]
        omega
    · cases h

theorem stringEnd_good {r : Round} {t : Token} {rest : List Token} (hat : r.At t rest)
    (parent : Option NodeKind) : (stringEnd parent t).Good r := by
  have hnext : (Action.next .loop).Good r := hat.next_loop_good
  unfold stringEnd
  split
  · apply orOpen_good _ hnext
    intro o ho
    simp only [List.mem_cons, List.not_mem_nil, or_false] at ho
    rcases ho with rfl | rfl | rfl
    · exact openFanOutput_good hat
    · exact openFanKey_good hat
    · exact openFanFn_good hat
  · exact hnext

theorem stringParse_good (hp : ParseInv T p) {enclosing escape : Bytes}
    (hkind : p.top.kind = .string enclosing escape) (parent : Option NodeKind) :
    (stringParse p.entry p.top enclosing escape parent p.cur).Good p.round := by
  have hk : p.top.kind.Inner := hkind ▸ ⟨rfl, rfl, rfl⟩
  refine hp.entered_good hk (fun _ => hkind ▸ rfl) fun n => ?_
  cases hcur : p.cur with
  | nil => trivial
  | cons t rest =>
    -- the tokens from the `k`-th one on
    have hdrop {k : Nat} (hlt : k < (t :: rest).length) :
        p.cur.drop k = (t :: rest).getD k t :: (t :: rest).drop (k + 1) := by
      rw [hcur, List.drop_eq_getElem_cons hlt, List.getD_eq_getElem?_getD, List.getElem?_eq_getElem hlt]
      rfl
    have hle {k : Nat} (hlt : k < (t :: rest).length) : k ≤ p.cur.length := by
      rw [hcur]
      exact Nat.le_of_lt hlt
    dsimp only
    split
    · next k hmatch =>
      have hlt : k < (t :: rest).length := by
        split at hmatch
        · cases hmatch
        · simpa using matchText_lt _ _ _ _ hmatch
      exact nextN_good k (hle hlt) (stringEnd_good ⟨hdrop hlt, rfl, hk.comment, hk.key⟩ parent)
    · split
      · next k hmatch =>
        have hlt : k < (t :: rest).length := by simpa using matchText_lt _ _ _ _ hmatch
        exact nextN_good k (hle hlt) (closeScope_good (hdrop hlt) hk.literalSec)
      · exact stringEnd_good (Parsing.at_enteredRound hk hcur) parent

theorem directiveParse_good (env : FanEnv) (hp : ParseInv T p) {sec : DirectiveSec} {done : Bool}
    (hkind : p.top.kind = .directive sec done) (parent : Option NodeKind) :
    (directiveParse env p.entry p.top sec done parent p.cur).Good p.round := by
  have hk : p.top.kind.Inner := hkind ▸ ⟨rfl, rfl, rfl⟩
  have hdir (done' : Bool) : (NodeKind.directive sec done').Inner := ⟨rfl, rfl, rfl⟩
  refine hp.entered_good hk (fun _ => hkind ▸ rfl) fun n => ?_
  split
  · trivial
  split
  · next hdone => exact hp.passUp_good hk.literalSec (.inl (Bool.and_eq_true_iff.1 hdone).1)
  cases hcur : p.cur with
  | nil => trivial
  | cons t rest =>
    have hat := Parsing.at_enteredRound hk hcur
    have hnext : (Action.next .loop).Good p.enteredRound := hat.next_loop_good
    have hkeeps (done' : Bool) : p.top.kind.Keeps (.directive sec done') := hkind ▸ ⟨rfl, rfl, id⟩
    dsimp only
    split
    · split
      · split
        · next ht =>
          exact hat.set_open_good (hkeeps _) (hdir _) (openCodeBlock_ne ht) fun _ => openCodeBlock_good
        · trivial
      · exact hnext
    · split
      · exact ⟨hkeeps true, closeScope_good (hat.set (hdir true)).cur (hdir true).literalSec⟩
      · split
        · next ht =>
          exact hat.set_open_good (hkeeps _) (hdir _) (openFanComment_ne ht) fun _ => openFanComment_good
        · exact hnext

theorem commentParse_good {sec : CommentSec} (hkind : p.top.kind = .comment sec) (hout : ¬ RunsOut p) :
    (commentParse sec p.cur).Good p.round := by
  have hsec : p.top.kind.isLiteralSec = false := hkind ▸ rfl
  have hkey : p.top.kind.isKey = false := hkind ▸ rfl
  have hent : p.round.ent = true := Parsing.round_ent (.inr (hkind ▸ rfl))
  cases hcur : p.cur with
  | nil =>
    rw [RunsOut, hkind] at hout
    exact absurd ⟨hcur, trivial⟩ hout
  | cons t rest =>
    unfold commentParse
    dsimp only
    generalize (if sec = .commentBlock then "*@" else "\n") = close
    split
    · exact closeScope_good hcur hsec
    · exact next_loop_good hcur hent hkey

theorem outputParse_good (hp : ParseInv T p) {sec : OutputSec} {done : Bool}
    (hkind : p.top.kind = .output sec done) : (outputParse p.entry p.top done p.cur).Good p.round := by
  have hk : p.top.kind.Inner := hkind ▸ ⟨rfl, rfl, rfl⟩
  refine hp.call_good hk (hkind ▸ rfl) fun n => ?_
  cases hcur : p.cur with
  | nil => trivial
  | cons t rest =>
    dsimp only
    split
    · exact closeScope_good hcur hk.literalSec
    · exact (Parsing.at_enteredRound hk hcur).next_loop_good

/-- The end of a block changes the statement it belongs to, and closes the block. -/
theorem blockEnd_good (env : FanEnv) {r : Round} {t : Token} {rest : List Token} (hcur : r.cur = t :: rest)
    (hsec : r.kind.isLiteralSec = false) : (blockEnd env r.parent rest).Good r := by
  have hclose := closeScope_good hcur hsec
  have hset {q kind : NodeKind} (hparent : r.parent = some q) (hkeeps : q.Keeps kind) :
      (Action.setParent kind closeScope).Good r := setParent_close_good hcur hsec hparent hkeeps
  unfold blockEnd
  split
  · next cn hparent =>
    split
    · split
      · exact hset hparent ⟨rfl, rfl, id⟩
      · exact hset hparent ⟨rfl, rfl, id⟩
      · exact hset hparent ⟨rfl, rfl, id⟩
    · split
      · exact hset hparent ⟨rfl, rfl, id⟩
      · exact hclose
  · next en hparent =>
    split
    · exact hset hparent ⟨rfl, rfl, id⟩
    · exact hset hparent ⟨rfl, rfl, id⟩
  · next an hparent =>
    split
    · exact hset hparent ⟨rfl, rfl, id⟩
    · exact hclose
  · exact hclose

theorem codeBlockParse_good (env : FanEnv) (hp : ParseInv T p) (hkind : p.top.kind = .codeBlock) :
    (codeBlockParse env p.entry p.top p.round.parent p.cur).Good p.round := by
  have hk : p.top.kind.Inner := hkind ▸ ⟨rfl, rfl, rfl⟩
  refine hp.entered_good hk (fun _ => hkind ▸ rfl) fun n => ?_
  cases hcur : p.cur with
  | nil => trivial
  | cons t rest =>
    have hat := Parsing.at_enteredRound hk hcur
    apply orOpen_good
    · intro o ho
      simp only [List.mem_cons, List.not_mem_nil, or_false] at ho
      rcases ho with rfl | rfl | rfl | rfl | rfl | rfl | rfl | rfl | rfl | rfl | rfl
      · exact openFanComment_good hat
      · exact openFanDirective_good hat _
      · exact openFanFunaAwait_good hat
      · exact openFanMarkup_good env hat
      · exact openFanKey_good hat
      · exact openFanFn_good hat
      · exact openExpr_good hat
      · exact openCodeString_good hat
      · exact openCodeBlock_good hat
      · exact openControl_good hat _
      · exact openTry_good hat
    · split
      · exact blockEnd_good env hcur hk.literalSec
      · exact hat.next_loop_good

theorem codeControlParse_good (env : FanEnv) (hp : ParseInv T p) {cn : ControlNode}
    (hkind : p.top.kind = .codeControl cn) (hend : ¬ EndsWhole p) :
    (codeControlParse env p.entry p.top cn p.cur).Good p.round := by
  have hk : p.top.kind.Inner := hkind ▸ ⟨rfl, rfl, rfl⟩
  have hcontrol (cn' : ControlNode) : (NodeKind.codeControl cn').Inner := ⟨rfl, rfl, rfl⟩
  rw [EndsWhole, hkind] at hend
  refine hp.statement_good hk (hkind ▸ rfl) (fun hdone hcur => hend ⟨hcur, hdone⟩) fun _ n => ?_
  cases hcur : p.cur with
  | nil => trivial
  | cons t rest =>
    have hat := Parsing.at_enteredRound hk hcur
    have hnext : (Action.next .loop).Good p.enteredRound := hat.next_loop_good
    have hkeeps (cn' : ControlNode) : p.top.kind.Keeps (.codeControl cn') := hkind ▸ ⟨rfl, rfl, id⟩
    dsimp only
    split
    · split
      · split
        · next ht =>
          exact hat.set_open_good (hkeeps _) (hcontrol _) (openExpr_ne ht) fun _ => openExpr_good
        · trivial
      split
      · split
        · next ht =>
          exact hat.set_open_good (hkeeps _) (hcontrol _) (openCodeBlock_ne ht) fun _ => openCodeBlock_good
        · trivial
      split
      · split
        · exact hat.set_end_good (hkeeps _) (hcontrol _)
        · trivial
      · exact hnext
    · exact hnext

theorem codeErrParse_good (env : FanEnv) (hp : ParseInv T p) {en : ErrNode}
    (hkind : p.top.kind = .codeErr en) (hend : ¬ EndsWhole p) :
    (codeErrParse env p.entry p.top en p.cur).Good p.round := by
  have hk : p.top.kind.Inner := hkind ▸ ⟨rfl, rfl, rfl⟩
  have herr (en' : ErrNode) : (NodeKind.codeErr en').Inner := ⟨rfl, rfl, rfl⟩
  rw [EndsWhole, hkind] at hend
  refine hp.statement_good hk (hkind ▸ rfl) (fun hdone hcur => hend ⟨hcur, hdone⟩) fun _ n => ?_
  cases hcur : p.cur with
  | nil => trivial
  | cons t rest =>
    have hat := Parsing.at_enteredRound hk hcur
    have hnext : (Action.next .loop).Good p.enteredRound := hat.next_loop_good
    have hkeeps (en' : ErrNode) : p.top.kind.Keeps (.codeErr en') := hkind ▸ ⟨rfl, rfl, id⟩
    dsimp only
    split
    · split
      · split
        · next ht => exact hat.set_open_good (hkeeps _) (herr _) (openExpr_ne ht) fun _ => openExpr_good
        · trivial
      split
      · split
        · next ht =>
          exact hat.set_open_good (hkeeps _) (herr _) (openCodeBlock_ne ht) fun _ => openCodeBlock_good
        · trivial
      · exact hnext
    · exact hnext

theorem codeFunParse_good (env : FanEnv) (hp : ParseInv T p) {sec : FunSec} {done : Bool}
    (hkind : p.top.kind = .codeFun sec done) (hend : ¬ EndsWhole p) :
    (codeFunParse env p.entry p.top sec done p.cur).Good p.round := by
  have hk : p.top.kind.Inner := hkind ▸ ⟨rfl, rfl, rfl⟩
  rw [EndsWhole, hkind] at hend
  refine hp.statement_good hk (hkind ▸ rfl) (fun hdone hcur => hend ⟨hcur, hdone⟩) fun _ n => ?_
  cases hcur : p.cur with
  | nil => trivial
  | cons t rest =>
    have hat := Parsing.at_enteredRound hk hcur
    have hkeeps : p.top.kind.Keeps (.codeFun sec true) := hkind ▸ ⟨rfl, rfl, id⟩
    dsimp only
    split
    · split
      · next ht =>
        exact hat.set_open_good hkeeps ⟨rfl, rfl, rfl⟩ (openCodeBlock_ne ht) fun _ => openCodeBlock_good
      · trivial
    · exact hat.next_loop_good

/-- Skipping up to the parenthesis of an asynchronous call. -/
theorem asyncEnd_good {r : Round} {t : Token} {rest : List Token} (hat : r.At t rest)
    (hkeeps : ∀ an, r.kind.Keeps (.codeAsync an)) (an : AsyncNode) : (asyncEnd an t rest).Good r := by
  refine ⟨hkeeps _, ?_⟩
  generalize (if 0 < an.openedTags then { an with asyncType := an.asyncType ++ t.text } else an) = an
  dsimp only
  split
  · next hskip =>
    -- there is a token to be skipped
    have hpos : 0 < (rest.takeWhile fun nt => !nt.is "(").length := by
      rw [Bool.and_eq_true] at hskip
      cases rest with
      | nil => cases hskip.2
      | cons nt rest =>
        have hnt : (!nt.is "(") = true := hskip.2
        rw [List.takeWhile_cons, if_pos hnt]
        exact Nat.zero_lt_succ _
    have hle : (rest.takeWhile fun nt => !nt.is "(").length ≤ rest.length :=
      (List.takeWhile_prefix _).length_le
    have hskipped (kept : Bool) : (nextN (rest.takeWhile fun nt => !nt.is "(").length
        (if rest.drop (rest.takeWhile fun nt => !nt.is "(").length = [] then .loop else .attach .loop)).Good
          { r with kind := .codeAsync an, cur := rest, moved := true, kept } := by
      refine nextN_good _ hle ?_
      split
      · exact ⟨rfl, hat.ent, .inl (by simp [hpos]), rfl⟩
      · next hne => exact ⟨rfl, hat.ent, .inr hne, rfl⟩
    split
    · exact .next_of (r := { r with kind := _, kept := _ }) hat.cur (hskipped false)
    · exact .next_of (r := { r with kind := _ }) hat.cur (hskipped true)
  · exact (hat.set ⟨rfl, rfl, rfl⟩).next_loop_good

theorem asyncRound_good (env : FanEnv) {r : Round} {t : Token} {rest : List Token} (hat : r.At t rest)
    (hkeeps : ∀ an, r.kind.Keeps (.codeAsync an)) (an : AsyncNode) :
    (asyncRound env an t rest).Good r := by
  have hasync (an : AsyncNode) : (NodeKind.codeAsync an).Inner := ⟨rfl, rfl, rfl⟩
  have hend (an : AsyncNode) : (asyncEnd an t rest).Good r := asyncEnd_good hat hkeeps an
  unfold asyncRound
  split
  · split
    · exact hend _
    split
    · split
      · next ht => exact hat.set_open_good (hkeeps _) (hasync _) (openExpr_ne ht) fun _ => openExpr_good
      · trivial
    split
    · split
      · next ht =>
        exact hat.set_open_good (hkeeps _) (hasync _) (openCodeBlock_ne ht) fun _ => openCodeBlock_good
      · trivial
    split
    · split
      · exact hat.set_end_good (hkeeps _) (hasync _)
      · trivial
    · exact hend _
  · exact hend _

theorem codeAsyncParse_good (env : FanEnv) (hp : ParseInv T p) {an : AsyncNode}
    (hkind : p.top.kind = .codeAsync an) (hnull : ¬ NullAhead p) (hend : ¬ EndsWhole p)
    (hout : ¬ RunsOut p) : (codeAsyncParse env p.entry p.top an p.cur).Good p.round := by
  have hk : p.top.kind.Inner := hkind ▸ ⟨rfl, rfl, rfl⟩
  have hkeeps (an' : AsyncNode) : p.top.kind.Keeps (.codeAsync an') := hkind ▸ ⟨rfl, rfl, id⟩
  rw [NullAhead, hkind] at hnull
  rw [EndsWhole, hkind] at hend
  rw [RunsOut, hkind] at hout
  refine hp.statement_good hk (hkind ▸ rfl) (fun hdone hcur => hend ⟨hcur, hdone⟩) fun hdone n => ?_
  cases hcur : p.cur with
  | nil =>
    dsimp only
    split
    · next hentry =>
      rw [not_and, Bool.not_eq_true] at hdone
      exact hnull ⟨hentry, hdone hentry, hcur⟩
    · next hentry =>
      rw [Bool.not_eq_true] at hentry
      split
      · trivial
      · next htags => exact hout ⟨hcur, hentry, not_not.1 htags⟩
  | cons t rest =>
    have hat := Parsing.at_enteredRound hk hcur
    dsimp only
    split
    · exact asyncRound_good env hat hkeeps _
    · exact asyncRound_good env hat hkeeps _

theorem fanFnParse_good (env : FanEnv) (hp : ParseInv T p) {sec : FnSec} {done : Bool}
    (hkind : p.top.kind = .fanFn sec done) : (fanFnParse env p.entry p.top sec done p.cur).Good p.round := by
  have hk : p.top.kind.Inner := hkind ▸ ⟨rfl, rfl, rfl⟩
  have hkeeps : p.top.kind.Keeps (.fanFn sec true) := hkind ▸ ⟨rfl, rfl, fun _ => rfl⟩
  refine hp.call_good hk (hkind ▸ rfl) fun n => ?_
  cases hcur : p.cur with
  | nil => trivial
  | cons t rest =>
    have hat := Parsing.at_enteredRound hk hcur
    have hnext : (Action.next .loop).Good p.enteredRound := hat.next_loop_good
    dsimp only
    split
    · split
      · exact ⟨hkeeps, closeScope_good (r := { p.enteredRound with kind := _ }) hcur rfl⟩
      · exact hnext
    · split
      · split
        · next ht =>
          exact hat.set_open_good hkeeps ⟨rfl, rfl, rfl⟩ (openExpr_ne ht) fun _ => openExpr_good
        · trivial
      · exact hnext

/-- **Every round is a good one**, unless the parse ends in it or a null token is dereferenced. -/
theorem parseAction_good (env : FanEnv) (hp : ParseInv T p) (hnull : ¬ NullAhead p) (hend : ¬ EndsWhole p)
    (hout : ¬ RunsOut p) : (parseAction env p).Good p.round := by
  unfold parseAction
  dsimp only
  split
  · next hkind => exact literalParse_good env hkind hnull hend
  · next hkind => exact exprParse_good env hp hkind hnull
  · next hkind => exact stringParse_good hp hkind _
  · next hkind => exact directiveParse_good env hp hkind _
  · next hkind => exact commentParse_good hkind hout
  · next hkind => exact outputParse_good hp hkind
  · next hkind => exact codeBlockParse_good env hp hkind
  · next hkind => exact codeControlParse_good env hp hkind hend
  · next hkind => exact codeErrParse_good env hp hkind hend
  · next hkind => exact codeFunParse_good env hp hkind hend
  · next hkind => exact codeAsyncParse_good env hp hkind hnull hend hout
  · next hkind =>
    exact hp.passUp_good (hkind ▸ rfl) (.inr (hkind ▸ rfl))
  · next hkind => exact fanFnParse_good env hp hkind
  · next hkind => exact tagParse_good env hp hkind

end Nodes

/-! ## The other rounds -/

section Ends

variable {T : List Token} {p : Parsing}

/-- No token has one of some texts and one of others. -/
theorem Token.isAny_disjoint {t : Token} {ss ss' : List String}
    (hdis : (ss.all fun s => !(ss'.map bytes).contains (bytes s)) = true) (h : t.isAny ss = true) :
    t.isAny ss' = false := by
  obtain ⟨s, hs, his⟩ := List.any_eq_true.1 h
  rw [Token.is, decide_eq_true_eq] at his
  have hnot := List.all_eq_true.1 hdis s hs
  rw [← Bool.not_eq_true]
  intro h'
  obtain ⟨s', hs', his'⟩ := List.any_eq_true.1 h'
  rw [Token.is, decide_eq_true_eq, his] at his'
  rw [his', List.contains_iff_mem.2 (List.mem_map_of_mem hs')] at hnot
  cases hnot

theorem Token.is_eq_isAny (t : Token) (s : String) : t.is s = t.isAny [s] := by
  rw [Token.isAny, List.any_cons, List.any_nil, Bool.or_false]

/-- The texts of operators, and the semicolon. -/
def operators : List String :=
  [",", ".", "::", "==", "!=", "!", "&&", "||", "=", "++", "--", "+", "-", "*", "/", "~", "&", "%", "|",
    "^"] ++ [";"]

theorem splitsOff_operators {type : ExprType} {t : Token} (h : splitsOff type t = true) :
    t.isAny operators = true := by
  rw [operators, Token.isAny, List.any_append, Bool.or_eq_true]
  rcases Bool.or_eq_true_iff.1 h with h | h
  · exact .inl (Bool.and_eq_true_iff.1 h).1
  · refine .inr ?_
    rw [List.any_cons, (Bool.and_eq_true_iff.1 h).1]
    rfl

/-- An operator opens no scope. -/
theorem orOpen_operator {t : Token} (h : t.isAny operators = true) (k : NodeKind) (a : Action) :
    orOpen [openFanComment t, openFanDirective k t, openFanOutput t, openFanKey t, openFanFn t,
      openExpr t, openCodeString t, openCodeBlock t] a = a := by
  have hno {ss : List String} (hdis : (operators.all fun s => !(ss.map bytes).contains (bytes s)) = true) :
      ¬ t.isAny ss = true := by
    rw [Token.isAny_disjoint hdis h]
    exact Bool.false_ne_true
  have his {s : String} (hdis : (operators.all fun s' => !([s].map bytes).contains (bytes s')) = true) :
      ¬ t.is s = true := by
    rw [t.is_eq_isAny]
    exact hno hdis
  have hcomment : openFanComment t = none := by
    refine if_neg ?_
    rw [Bool.or_eq_true, not_or]
    exact ⟨hno (by decide), hno (by decide)⟩
  have hdirective : openFanDirective k t = none := if_neg (hno (by decide))
  have houtput : openFanOutput t = none := if_neg (hno (by decide))
  have hkey : openFanKey t = none := if_neg (hno (by decide))
  have hfn : openFanFn t = none := if_neg (hno (by decide))
  have hexpr : openExpr t = none := (if_neg (his (by decide))).trans (if_neg (hno (by decide)))
  have hstring : openCodeString t = none := if_neg (hno (by decide))
  have hblock : openCodeBlock t = none := if_neg (his (by decide))
  rw [hcomment, hdirective, houtput, hkey, hfn, hexpr, hstring, hblock]
  rfl

theorem act_nextN (k : Nat) (p : Parsing) (a : Action) (hk : k ≤ p.cur.length) :
    act p (nextN k a) = act { p with pre := p.pre ++ p.cur.take k, cur := p.cur.drop k } a := by
  induction k generalizing p with
  | zero => simp [nextN]
  | succ k ih =>
    cases hcur : p.cur with
    | nil =>
      rw [hcur] at hk
      cases hk
    | cons t rest =>
      rw [hcur] at hk
      rw [nextN, act, hcur]
      dsimp only
      rw [ih _ (Nat.le_of_succ_le_succ hk)]
      simp

/-- Without a token, a parser that sets `_dbg_line` dereferences a null token, or goes on. -/
theorem act_entered_null {entry : Bool} {n : OpenNode} {cur : List Token} {body : OpenNode → Action}
    (h : ∀ n q, act q (body n) = .null) (p : Parsing) : act p (entered entry n cur body) = .null := by
  unfold entered
  split
  · split
    · rfl
    · exact h _ _
  · exact h n p

/-- Behind the last indentation there is no token. -/
theorem literalParse_indented (env : FanEnv) {lang : Bytes} (braces : Nat) (pre : List Token)
    (hlang : lang = bytes "markdown" ∨ lang = bytes "md") (p : Parsing) (h : endsIndented p.cur = true) :
    act p (literalParse env .markupOther lang braces pre p.cur) = .null := by
  match hcur : p.cur with
  | [] =>
    rw [hcur] at h
    cases h
  | [t] =>
    rw [hcur] at h
    cases h
  | t :: nt :: rest =>
    rw [hcur, endsIndented] at h
    simp only [Bool.and_eq_true, decide_eq_true_eq] at h
    obtain ⟨⟨⟨ht, hnt⟩, hall⟩, hlen⟩ := h
    have hline : t.isAny ["\n"] = true := t.is_eq_isAny "\n" ▸ ht
    have hquote : t.isAny ["\"", "'"] = false := Token.isAny_disjoint (by decide) hline
    have htag : openTag t (nt :: rest) = none := by
      refine if_neg ?_
      rw [t.is_eq_isAny, Token.isAny_disjoint (by decide) hline]
      exact Bool.false_ne_true
    have htake : (nt :: rest).takeWhile (fun nt => nt.isAny [" ", "\t"]) = nt :: rest :=
      List.takeWhile_eq_self_iff.2 (List.all_eq_true.1 hall)
    have hopen : openMarkdownString t (nt :: rest)
        = some (nextN (1 + (nt :: rest).length) (.openScope (.string (bytes "\n") []) 1)) := by
      unfold openMarkdownString
      rw [if_pos ht]
      dsimp only
      rw [if_pos hnt, htake, if_pos (.inl hlen)]
    have hparse : literalParse env .markupOther lang braces pre (t :: nt :: rest)
        = nextN (1 + (nt :: rest).length) (.openScope (.string (bytes "\n") []) 1) := by
      have hsection : (bytes "$$").isPrefixOf lang = false ∧ (bytes "<$").isPrefixOf lang = false ∧
          (bytes "$>").isPrefixOf lang = false := by
        rcases hlang with rfl | rfl
        · decide
        · decide
      unfold literalParse
      dsimp only
      rw [hquote, hsection.1, hsection.2.1, hsection.2.2, if_pos hlang, htag, hopen]
      rfl
    have hlen : 1 + (nt :: rest).length = (t :: nt :: rest).length := Nat.add_comm ..
    rw [hparse, hlen, ← hcur, act_nextN _ _ _ (Nat.le_refl _), act, List.drop_length]

/-- A null token is dereferenced. -/
theorem NullAhead.step (env : FanEnv) (h : NullAhead p) : parseStep env p = .null := by
  unfold NullAhead at h
  unfold parseStep parseAction
  split at h
  · next sec lang braces hkind =>
    rw [hkind]
    rcases h with ⟨hsec, hpre, hcur⟩ | ⟨rfl, hlang, hind⟩
    · show act p (literalParse env sec lang braces p.pre p.cur) = .null
      rw [hpre, hcur]
      unfold literalParse
      dsimp only
      rw [if_neg hsec]
      rfl
    · exact literalParse_indented env braces p.pre hlang p hind
  · next type hkind =>
    rw [hkind]
    obtain ⟨t, hcur, hsplit⟩ := h
    refine act_entered_null (fun n q => ?_) p
    rw [hcur]
    dsimp only
    rw [orOpen_operator (splitsOff_operators hsplit), if_pos hsplit]
    rfl
  · next an hkind =>
    rw [hkind]
    obtain ⟨hentry, hdone, hcur⟩ := h
    show act p (codeAsyncParse env p.entry p.top an p.cur) = .null
    unfold codeAsyncParse
    rw [hentry, hdone, hcur, if_neg (by simp)]
    exact act_entered_null (fun n q => rfl) p
  · exact h.elim

/-- With no token left, all tokens are in the tree. -/
theorem RoundInv.tree_eq (hp : RoundInv T p) (hpre : p.pre = []) (hcur : p.cur = []) :
    solid p.tree = solid T := by
  have htokens := hp.tokens
  rw [Parsing.tokens, hpre, hcur, List.append_nil, List.append_nil] at htokens
  exact htokens

/-- A statement that is done returns when there is no token left. -/
theorem act_statement_done {done : Bool} {a : Action} (hentry : p.entry = true) (hdone : done = true)
    (hcur : p.cur = []) : act p (if p.entry && done then closeScopeAt p.cur else a) = .done p := by
  rw [hentry, hdone, hcur]
  rfl

/-- A parse that ends in the literal at the top or behind a statement has all tokens in its tree. -/
theorem EndsWhole.step (env : FanEnv) (h : EndsWhole p) (hp : ParseInv T p) :
    ∃ q, parseStep env p = .done q ∧ solid q.tree = solid T := by
  obtain ⟨hcur, h⟩ := h
  have hclosed (hentry : p.entry = true) : solid p.tree = solid T :=
    hp.tree_eq (hp.clean (.inl hentry)) hcur
  unfold parseStep parseAction
  split at h
  · next sec lang braces hkind =>
    rw [hkind]
    refine ⟨_, ?_, hp.attach.tree_eq rfl hcur⟩
    show act p (literalParse env sec lang braces p.pre p.cur) = _
    have hparse : literalParse env sec lang braces p.pre p.cur = .attach .finish := by
      unfold literalParse
      rw [hcur]
      exact if_pos h
    rw [hparse, act, act]
  · next cn hkind =>
    rw [hkind]
    exact ⟨p, act_statement_done h.1 h.2 hcur, hclosed h.1⟩
  · next en hkind =>
    rw [hkind]
    exact ⟨p, act_statement_done h.1 h.2 hcur, hclosed h.1⟩
  · next sec done hkind =>
    rw [hkind]
    exact ⟨p, act_statement_done h.1 h.2 hcur, hclosed h.1⟩
  · next an hkind =>
    rw [hkind]
    exact ⟨p, act_statement_done h.1 h.2 hcur, hclosed h.1⟩
  · exact h.elim

/-- The tokens of a node below the top have a text. -/
theorem RoundInv.listText_ne (hp : RoundInv T p) (hT : Startable T)
    (hsec : p.top.kind.isLiteralSec = false) (hne : p.pre ++ p.cur ≠ []) :
    listText (p.pre ++ p.cur) ≠ [] := by
  have hbelow : p.below ≠ [] := by
    intro hnil
    have hparent := hp.parent_ne hsec
    rw [hnil] at hparent
    exact hparent rfl
  obtain ⟨t, ht⟩ := List.exists_mem_of_ne_nil _ hne
  have hmem : t ∈ T.tail := List.drop_one ▸ ((hp.nested hbelow).trans
    (by rw [← List.drop_drop (i := 1) (j := 1)]; exact List.drop_suffix 1 _)).subset ht
  exact fun hnil => hT.ne t hmem (List.flatMap_eq_nil_iff.1 hnil t ht)

/-- A parser that runs out of tokens in a comment or an asynchronous call returns. -/
theorem RunsOut.step (env : FanEnv) (h : RunsOut p) : parseStep env p = .done p := by
  obtain ⟨hcur, h⟩ := h
  unfold parseStep parseAction
  split at h
  · next sec hkind =>
    rw [hkind, hcur]
    rfl
  · next an hkind =>
    rw [hkind]
    show act p (codeAsyncParse env p.entry p.top an p.cur) = .done p
    unfold codeAsyncParse entered
    rw [h.1, hcur, h.2]
    rfl
  · exact h.elim

/-- The tokens such a parser has looked at are in no node. -/
theorem RunsOut.lost (h : RunsOut p) (hT : Startable T) (hp : ParseInv T p) :
    listText p.tree ≠ listText T := by
  have hlast : p.top.kind.isLiteralSec = false ∧ (p.entry = false ∨ p.top.kind.isComment = true) := by
    obtain ⟨-, h⟩ := h
    split at h
    · next sec hkind =>
      rw [hkind]
      exact ⟨rfl, .inr rfl⟩
    · next an hkind =>
      rw [hkind]
      exact ⟨rfl, .inl h.1⟩
    · exact h.elim
  intro heq
  have htext := congrArg listText hp.tokens
  rw [listText_solid, listText_solid, Parsing.tokens, listText_append, ← heq,
    List.append_right_eq_self] at htext
  exact hp.listText_ne hT hlast.1 (hp.hasTokens hlast.2) htext

end Ends

end Fanjet

end LibEvmvc
