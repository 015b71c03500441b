import LibEvmvc.Fanjet.CommentText
import LibEvmvc.Fanjet.OrderlyActions
import LibEvmvc.Fanjet.PageText
import LibEvmvc.Fanjet.TokenCuts

set_option autoImplicit false

/-! # The comments of a parsed template

A comment that is read has the token that begins it as its child, and none of the tokens looked at ends it
(`InComment`). So each comment of the tree has the text of one in the template (`CommentText`), up to the token
that ends it; if the tokens end before, it has its first token only. -/

namespace LibEvmvc

namespace Fanjet

open Brackets

/-! ## Comments in a tree -/

/-- The node is in the tree. -/
inductive Node.In (m : Node) : Node → Prop
  | self : Node.In m m
  | child {n : Node} {kind : NodeKind} {line col : Nat} {childs : List Node} (hn : n ∈ childs)
      (h : Node.In m n) : Node.In m (.node kind line col childs)

/-- The comments in the tree have the texts of comments. -/
def Node.Commented (n : Node) : Prop :=
  ∀ sec line col childs, (Node.node (.comment sec) line col childs).In n → CommentText sec (tokenTexts childs)

section Trees

variable {kind : NodeKind} {line col : Nat} {childs : List Node}

theorem commented_token (ts : List Token) : (Node.token ts).Commented := by
  intro sec line col childs h
  cases h

theorem commented_node (hchilds : ∀ n ∈ childs, n.Commented)
    (hself : ∀ sec, kind = .comment sec → CommentText sec (tokenTexts childs)) :
    (Node.node kind line col childs).Commented := by
  intro sec line' col' childs' h
  cases h with
  | self => exact hself sec rfl
  | child hn h => exact hchilds _ hn sec line' col' childs' h

/-- The children that are closed. -/
def OpenNode.Commented (n : OpenNode) : Prop := ∀ c ∈ n.childs, c.Commented

theorem OpenNode.Commented.addToken {n : OpenNode} (h : n.Commented) (ts : List Token) :
    (n.addToken ts).Commented := by
  unfold OpenNode.addToken
  split
  · exact h
  · intro c hc
    rcases List.mem_append.1 hc with hc | hc
    · exact h c hc
    · rw [List.mem_singleton.1 hc]
      exact commented_token ts

theorem OpenNode.Commented.concat {n : OpenNode} (h : n.Commented) {c : Node} (hc : c.Commented) :
    ({ n with childs := n.childs ++ [c] } : OpenNode).Commented := by
  intro d hd
  rcases List.mem_append.1 hd with hd | hd
  · exact h d hd
  · rw [List.mem_singleton.1 hd]
    exact hc

/-- A node that is closed. -/
theorem OpenNode.Commented.toNode {n : OpenNode} (h : n.Commented)
    (hself : ∀ sec, n.kind = .comment sec → CommentText sec (tokenTexts n.childs)) : n.toNode.Commented :=
  commented_node h hself

theorem tokenTexts_addToken (n : OpenNode) (ts : List Token) :
    tokenTexts (n.addToken ts).childs = tokenTexts n.childs ++ listText ts := by
  unfold OpenNode.addToken
  split
  · next h =>
    have hnil : listText ts = [] := by
      rw [← listText_solid, solid_eq_nil.2 (by simpa using h)]
      rfl
    rw [hnil, List.append_nil]
  · unfold tokenTexts
    rw [List.flatMap_append]
    exact congrArg (_ ++ ·) (List.append_nil _)

end Trees

/-! ## What is in a comment -/

section Cuts

variable {l r ts : List Token} {t op : Token}

/-- In front of another token, the end of a line is a token of its own. -/
theorem Tokenized.head_line (h : Tokenized sTokens (t :: ts)) (hts : listText ts ≠ []) (hmem : 10 ∈ t.text) :
    t.text = [10] := by
  rcases h.1 with hfind | hnone
  · by_contra hne
    exact findToken_noLf hfind hne hmem
  · obtain ⟨x, y, hxy⟩ := List.append_of_mem hmem
    have hbehind : y ++ listText ts ≠ [] := fun hnil => hts (List.append_eq_nil_iff.1 hnil).2
    obtain ⟨c, rest, hrest⟩ := List.exists_cons_of_ne_nil hbehind
    have hfind := hnone x (10 :: y) hxy (List.cons_ne_nil 10 y)
    rw [List.cons_append, hrest, findToken_lf] at hfind
    cases hfind

/-- The text in front of a token is one line if it has no token that is the end of a line. -/
theorem Tokenized.line_cut (h : Tokenized sTokens (l ++ t :: r)) (ht : t.text ≠ [])
    (hl : ∀ u ∈ l, u.text ≠ [10]) : 10 ∉ listText l := by
  induction l with
  | nil => exact List.not_mem_nil
  | cons u l ih =>
    have hbehind : listText (l ++ t :: r) ≠ [] := by
      intro hnil
      rw [listText_append, listText_cons, List.append_eq_nil_iff, List.append_eq_nil_iff] at hnil
      exact ht hnil.2.1
    rw [listText_cons, List.mem_append, not_or]
    constructor
    · exact fun hmem => hl u List.mem_cons_self (h.head_line hbehind hmem)
    · exact ih h.2 fun v hv => hl v (List.mem_cons_of_mem u hv)

/-- An entry of a block comment stands at its beginning. -/
theorem findToken_comment {tok : String} (htok : tok ∈ ["@*", "@**"]) {rest : Bytes} (hrest : rest ≠ []) :
    ∃ tok', findToken sTokens (bytes tok ++ rest) = some tok' ∧ (bytes tok).length ≤ tok'.length := by
  have hlen := List.length_pos_iff.2 hrest
  have hcase : (bytes tok ∈ sTokens ∧ bytes tok ≠ []) ∧ (bytes tok).getLast? = some 42 ∧ bytes tok ≠ bytes "*@" := by
    simp only [List.mem_cons, List.not_mem_nil, or_false] at htok
    rcases htok with rfl | rfl
    · exact ⟨⟨List.mem_map_of_mem (by simp [keyTokens]), by decide⟩, by decide⟩
    · exact ⟨⟨List.mem_map_of_mem (by simp [keyTokens]), by decide⟩, by decide⟩
  refine findToken_longest hcase.1.1 hcase.1.2 ?_
  have hword : isAlphanum 42 = false := by decide
  simp [isToken, hcase.2, hword, hlen]

/-- Behind an `@*` there is no `*`, unless the template ends with it. -/
theorem Tokenized.block_begins (h : Tokenized sTokens (op :: ts)) (hop : op.text = bytes "@*") {v : Bytes}
    (hv : v ≠ []) : listText ts ≠ 42 :: v := by
  intro hts
  have hne : listText ts ≠ [] := hts ▸ List.cons_ne_nil 42 v
  obtain ⟨tok, htok, -⟩ := @findToken_comment "@*" (by simp) _ hne
  rcases h.1 with hfind | hnone
  · obtain ⟨tok', htok', hlen⟩ := @findToken_comment "@**" (by simp) _ hv
    have hsplit : op.text ++ listText ts = bytes "@**" ++ v := by
      rw [hop, hts]
      rfl
    rw [← hsplit, hfind] at htok'
    cases htok'
    rw [hop] at hlen
    exact absurd hlen (by decide)
  · have hnone' := hnone [] op.text rfl (by rw [hop]; decide)
    rw [hop, htok] at hnone'
    cases hnone'

end Cuts

/-! ## A comment that is read -/

/-- The token that ends a comment of this section. -/
def CommentSec.close (sec : CommentSec) : String := if sec = .commentBlock then "*@" else "\n"

/-- A comment is read: it has the token that begins it, and none of those looked at ends it. -/
structure InComment (T : List Token) (sec : CommentSec) (p : Parsing) : Prop where
  begun : ∃ op, sec.Opens op ∧ tokenTexts p.top.childs = op.text ∧ op :: (p.pre ++ p.cur) <:+ T
  notClosed : ∀ t ∈ p.pre, t.is sec.close = false

section Comments

variable {T : List Token} {sec : CommentSec} {op t : Token} {pre rest : List Token} {p : Parsing}

/-- What begins a comment has a text. -/
theorem CommentSec.Opens.ne (h : sec.Opens op) : op.text ≠ [] := by
  have hne : ∀ s ∈ ["@**", "@*", "@region", "@endregion", "*@"], bytes s ≠ [] := by decide
  have htext : ∃ s ∈ ["@**", "@*", "@region", "@endregion", "*@"], op.text = bytes s := by
    cases sec with
    | commentLine => exact ⟨"@**", by simp, h⟩
    | commentBlock => exact ⟨"@*", by simp, h⟩
    | regionStart =>
      obtain ⟨s, hs, heq⟩ := List.mem_map.1 h
      exact ⟨s, List.mem_cons_of_mem _ (List.mem_cons_of_mem _ hs), heq.symm⟩
  obtain ⟨s, hs, heq⟩ := htext
  rw [heq]
  exact hne s hs

/-- If the tokens end before the comment does, its first token is all it has. -/
theorem CommentSec.Opens.commentText (h : sec.Opens op) : CommentText sec op.text := by
  cases sec with
  | commentLine =>
    have hop : op.text = [64, 42, 42] := h
    rw [hop]
    exact .lineOpen
  | commentBlock =>
    have hop : op.text = [64, 42] := h
    rw [hop]
    exact .blockOpen
  | regionStart =>
    have hregion := @CommentText.region op.text [] h
    rw [List.append_nil] at hregion
    exact hregion

/-- **A comment that is closed has the text of one.** -/
theorem CommentSec.Opens.closed (h : sec.Opens op) (hcut : Tokenized sTokens (op :: (pre ++ t :: rest)))
    (hpre : ∀ u ∈ pre, u.is sec.close = false) (ht : t.is sec.close = true) :
    CommentText sec (op.text ++ (listText pre ++ t.text)) := by
  have htext : t.text = bytes sec.close := of_decide_eq_true ht
  cases sec with
  | commentLine =>
    have hop : op.text = [64, 42, 42] := h
    have hend : t.text = [10] := htext
    have hne : t.text ≠ [] := by
      rw [hend]
      exact List.cons_ne_nil 10 []
    rw [hop, hend]
    exact .line (hcut.2.line_cut hne fun u hu => of_decide_eq_false (hpre u hu))
  | commentBlock =>
    have hend : t.text = [42, 64] := htext
    have hbegin (v : Bytes) (hv : v ≠ []) := hcut.block_begins h hv
    rw [listText_append, listText_cons, hend] at hbegin
    cases htexts : listText pre with
    | nil =>
      rw [htexts] at hbegin
      exact absurd rfl (hbegin (64 :: listText rest) (List.cons_ne_nil 64 _))
    | cons c body =>
      rw [htexts] at hbegin
      have hop : op.text = [64, 42] := h
      have hc : c ≠ 42 := by
        rintro rfl
        exact hbegin (body ++ ([42, 64] ++ listText rest)) (by simp) rfl
      rw [hop, hend]
      exact .block hc
  | regionStart => exact .region h

/-- What the parser does in a comment. -/
theorem parseAction_comment {env : FanEnv} (hkind : p.top.kind = .comment sec) :
    parseAction env p =
      match p.cur with
      | [] => .finish
      | t :: _ => if t.is sec.close then closeScope else .next .loop := by
  unfold parseAction
  rw [hkind]
  rfl

end Comments

/-! ## The parse -/

/-- The comments in the nodes that are closed have the texts of comments, and no node below the one that is
read is a comment. -/
structure CommentInv (T : List Token) (p : Parsing) : Prop where
  top : p.top.Commented
  below : ∀ n ∈ p.below, n.Commented ∧ n.kind.isComment = false
  suffix : p.pre ++ p.cur <:+ T
  comment : ∀ sec, p.top.kind = .comment sec → InComment T sec p

section Parse

variable {env : FanEnv} {T : List Token} {p q : Parsing}

theorem not_comment {k : NodeKind} (hk : k.isComment = false) (sec : CommentSec) : k ≠ .comment sec := by
  rintro rfl
  cases hk

theorem exists_sec {k : NodeKind} (hk : k.isComment = true) : ∃ sec, k = .comment sec := by
  cases k with
  | comment sec => exact ⟨sec, rfl⟩
  | _ => cases hk

/-- In the middle of a round of a parser that reads no comment. -/
structure OutsideComment (T : List Token) (p : Parsing) : Prop extends CommentInv T p where
  kind : p.top.kind.isComment = false

theorem outsideComment (htop : p.top.Commented) (hbelow : ∀ n ∈ p.below, n.Commented ∧ n.kind.isComment = false)
    (hsuffix : p.pre ++ p.cur <:+ T) (hkind : p.top.kind.isComment = false) : OutsideComment T p :=
  ⟨⟨htop, hbelow, hsuffix, fun sec hsec => absurd hsec (not_comment hkind sec)⟩, hkind⟩

/-- What holds of a node that is opened, whatever it is. -/
theorem OutsideComment.open_nodes (h : OutsideComment T p) (kind : NodeKind) (hup : Nat) :
    (p.open kind hup).top.Commented ∧
      (∀ n ∈ (p.open kind hup).below, n.Commented ∧ n.kind.isComment = false) ∧
      (p.open kind hup).pre ++ (p.open kind hup).cur <:+ T := by
  refine ⟨OpenNode.Commented.addToken (fun c hc => by cases hc) _, ?_, ?_⟩
  · refine List.forall_mem_cons.2 ⟨⟨h.top.addToken p.pre, ?_⟩, h.below⟩
    rw [OpenNode.kind_addToken]
    exact h.kind
  · exact (List.drop_suffix hup p.cur).trans ((List.suffix_append p.pre p.cur).trans h.suffix)

theorem OutsideComment.open (h : OutsideComment T p) {kind : NodeKind} (hkind : kind.isComment = false)
    (hup : Nat) : OutsideComment T (p.open kind hup) := by
  obtain ⟨htop, hbelow, hsuffix⟩ := h.open_nodes kind hup
  refine outsideComment htop hbelow hsuffix ?_
  rw [Parsing.open, OpenNode.kind_addToken]
  exact hkind

/-- A comment is opened at the token that begins it. -/
theorem OutsideComment.open_comment (h : OutsideComment T p) {sec : CommentSec} {t : Token} {rest : List Token}
    (hcur : p.cur = t :: rest) (ht : sec.Opens t) : CommentInv T (p.open (.comment sec) 1) := by
  obtain ⟨htop, hbelow, hsuffix⟩ := h.open_nodes (.comment sec) 1
  refine ⟨htop, hbelow, hsuffix, fun sec' hsec => ?_⟩
  rw [Parsing.open, OpenNode.kind_addToken] at hsec
  cases hsec
  constructor
  · refine ⟨t, ht, ?_, ?_⟩
    · rw [Parsing.open, tokenTexts_addToken, hcur]
      exact List.append_nil t.text
    · have hcurs := (List.suffix_append p.pre p.cur).trans h.suffix
      rw [hcur] at hcurs
      rw [Parsing.open, hcur]
      exact hcurs
  · exact fun u hu => by cases hu

/-- A node is closed and goes back to its parent. -/
theorem commentInv_passUp {n : OpenNode} {below : List OpenNode} (htop : p.top.Commented)
    (hself : ∀ sec, p.top.kind = .comment sec → CommentText sec (tokenTexts p.top.childs))
    (hbelow : ∀ m ∈ n :: below, m.Commented ∧ m.kind.isComment = false) (hsuffix : p.pre ++ p.cur <:+ T) :
    CommentInv T { p with top := { n with childs := n.childs ++ [p.top.toNode] }, below, entry := true } := by
  rw [List.forall_mem_cons] at hbelow
  refine ⟨?_, hbelow.2, hsuffix, fun sec hsec => absurd hsec (not_comment hbelow.1.2 sec)⟩
  exact hbelow.1.1.concat (htop.toNode hself)

/-- A round of a parser that reads no comment. -/
theorem act_commentInv {a : Action} {parent : Option NodeKind} (ha : a.Orderly parent p.cur) (hp : OutsideComment T p)
    (h : (act p a).parsing? = some q) : CommentInv T q := by
  induction a generalizing p parent with
  | attach a ih =>
    rw [act] at h
    refine @ih _ parent ?_ (outsideComment ?_ ?_ ?_ ?_) h
    · exact ha
    · exact hp.top.addToken p.pre
    · exact hp.below
    · exact (List.suffix_append _ _).trans hp.suffix
    · rw [OpenNode.kind_addToken]
      exact hp.kind
  | next a ih =>
    rw [act] at h
    split at h
    · cases h
    · next t rest hcur =>
      have htail : a.Orderly parent p.cur.tail := ha
      rw [hcur] at htail
      refine @ih _ parent ?_ (outsideComment ?_ ?_ ?_ ?_) h
      · exact htail
      · exact hp.top
      · exact hp.below
      · have hsuffix := hp.suffix
        rw [hcur] at hsuffix
        rw [List.append_assoc]
        exact hsuffix
      · exact hp.kind
  | set kind a ih =>
    rw [act] at h
    exact ih (p := { p with top := { p.top with kind } }) ha.2
      (outsideComment hp.top hp.below hp.suffix ha.1) h
  | dbg line col a ih =>
    rw [act] at h
    exact ih (p := { p with top := { p.top with dbgLine := line, dbgCol := col } }) ha
      (outsideComment hp.top hp.below hp.suffix hp.kind) h
  | setParent kind a ih =>
    rw [act] at h
    split at h
    · cases h
    · next n below hbelow =>
      have hnodes := hp.below
      rw [hbelow, List.forall_mem_cons] at hnodes
      have hparent : ({ n with kind } : OpenNode).Commented ∧ kind.isComment = false := ⟨hnodes.1.1, ha.1⟩
      exact ih (p := { p with below := { n with kind } :: below }) ha.2.2
        (outsideComment hp.top (List.forall_mem_cons.2 ⟨hparent, hnodes.2⟩) hp.suffix hp.kind) h
  | loop =>
    cases h
    exact ⟨hp.top, hp.below, hp.suffix, fun sec hsec => absurd hsec (not_comment hp.kind sec)⟩
  | openScope kind hup =>
    rw [act] at h
    split at h
    · cases h
    · split at h
      · cases h
        by_cases hkind : kind.isComment = true
        · obtain ⟨sec, rfl⟩ := exists_sec hkind
          obtain ⟨rfl, t, rest, hcur, ht⟩ := ha sec rfl
          exact hp.open_comment hcur ht
        · exact (hp.open (Bool.eq_false_iff.2 hkind) hup).toCommentInv
      · cases h
  | openBoth kind inner hup =>
    rw [act] at h
    split at h
    · cases h
    · cases h
    · split at h
      · cases h
        exact ((hp.open ha.1 1).open ha.2 hup).toCommentInv
      · cases h
  | passUp =>
    rw [act] at h
    split at h
    · cases h
    · next n below hbelow =>
      cases h
      have hnodes := hp.below
      rw [hbelow] at hnodes
      exact commentInv_passUp hp.top (fun sec hsec => absurd hsec (not_comment hp.kind sec)) hnodes hp.suffix
  | finish =>
    cases h
    exact hp.toCommentInv
  | fail err => cases h
  | null => cases h

/-- A round in a comment: it is closed, it goes on, or its tokens have ended. -/
theorem CommentInv.comment_step {sec : CommentSec} (hp : CommentInv T p) (hcut : Tokenized sTokens T)
    (hkind : p.top.kind = .comment sec) (h : (parseStep env p).parsing? = some q) : CommentInv T q := by
  have hin := hp.comment sec hkind
  obtain ⟨op, hop, hchilds, hsuffix⟩ := hin.begun
  rw [parseStep, parseAction_comment hkind] at h
  cases hcur : p.cur with
  | nil =>
    rw [hcur] at h
    cases h
    exact hp
  | cons t rest =>
    rw [hcur] at h hsuffix
    dsimp only at h
    split at h
    · next hclose =>
      -- the tokens looked at and this one become children
      rw [closeScope, act, act] at h
      dsimp only at h
      rw [hcur] at h
      dsimp only at h
      rw [act, act] at h
      split at h
      · cases h
      · next n below hbelow =>
        cases h
        have hnodes := hp.below
        rw [show p.below = n :: below from hbelow] at hnodes
        refine commentInv_passUp (p := ⟨(p.top.addToken p.pre).addToken [t], p.below, [], rest, p.entry⟩)
          ((hp.top.addToken p.pre).addToken [t]) (fun sec' hsec => ?_) hnodes ?_
        · rw [OpenNode.kind_addToken, OpenNode.kind_addToken, hkind] at hsec
          cases hsec
          have hend : listText [t] = t.text := List.append_nil t.text
          rw [tokenTexts_addToken, tokenTexts_addToken, hchilds, hend, List.append_assoc]
          exact hop.closed (hcut.suffix hsuffix) hin.notClosed hclose
        · have hrest : rest <:+ op :: (p.pre ++ t :: rest) := ⟨op :: (p.pre ++ [t]), by simp⟩
          exact hrest.trans hsuffix
    · next hopen =>
      rw [act, hcur] at h
      cases h
      have hgoes : p.pre ++ [t] ++ rest = p.pre ++ t :: rest := by
        rw [List.append_assoc]
        rfl
      refine ⟨hp.top, hp.below, ?_, fun sec' hsec => ?_⟩
      · rw [hgoes]
        exact (List.suffix_cons op _).trans hsuffix
      · rw [hkind] at hsec
        cases hsec
        refine ⟨⟨op, hop, hchilds, ?_⟩, ?_⟩
        · rw [hgoes]
          exact hsuffix
        · rw [List.forall_mem_append, List.forall_mem_singleton]
          exact ⟨hin.notClosed, Bool.eq_false_iff.2 hopen⟩

theorem CommentInv.step (hp : CommentInv T p) (hcut : Tokenized sTokens T)
    (h : (parseStep env p).parsing? = some q) : CommentInv T q := by
  by_cases hkind : p.top.kind.isComment = true
  · obtain ⟨sec, hsec⟩ := exists_sec hkind
    exact hp.comment_step hcut hsec h
  · exact act_commentInv (parseAction_orderly env p) ⟨hp, Bool.eq_false_iff.2 hkind⟩ h

theorem CommentInv.run (hp : CommentInv T p) (hcut : Tokenized sTokens T)
    (h : Relation.ReflTransGen (Steps env) p q) : CommentInv T q := by
  induction h with
  | refl => exact hp
  | tail _ hstep ih =>
    have hgo : parseStep env _ = .go _ := hstep
    exact ih.step hcut (by rw [hgo]; rfl)

theorem commentInv_parseStart (T : List Token) : CommentInv T (parseStart T) where
  top c hc := by cases hc
  below n hn := by cases hn
  suffix := List.suffix_refl T
  comment sec hsec := by cases hsec

/-- When all nodes are closed. -/
theorem closeAll_commented {n : OpenNode} {below : List OpenNode} (hn : n.toNode.Commented)
    (hbelow : ∀ m ∈ below, m.Commented ∧ m.kind.isComment = false) : (closeAll n below).Commented := by
  induction below generalizing n with
  | nil => exact hn
  | cons q below ih =>
    rw [List.forall_mem_cons] at hbelow
    refine ih ?_ hbelow.2
    exact (hbelow.1.1.concat hn).toNode fun sec hsec => absurd hsec (not_comment hbelow.1.2 sec)

/-- **Each comment in the tree of a template has the text of a comment.** -/
theorem parse_commented {langs : List Bytes} {text : Bytes} {r : RootNode}
    (h : parse env langs text = some (.ok r)) : r.child.Commented := by
  obtain ⟨q, res, hrun, -, hlast, hparse, -⟩ := parse_ends env langs text
  cases hparse.symm.trans h
  have hcut := tokenize_tokenized text
  have hq := (commentInv_parseStart (tokenize text)).run hcut hrun
  cases hstep : parseStep env q with
  | go q' =>
    rw [hstep] at hlast
    cases hlast
  | done q' =>
    rw [hstep] at hlast
    cases hlast
    have hq' := hq.step hcut (by rw [hstep]; rfl)
    refine closeAll_commented (hq'.top.toNode fun sec hsec => ?_) hq'.below
    obtain ⟨op, hop, hchilds, -⟩ := (hq'.comment sec hsec).begun
    rw [hchilds]
    exact hop.commentText
  | error err =>
    rw [hstep] at hlast
    cases hlast
  | null =>
    rw [hstep] at hlast
    cases hlast

end Parse

/-! ## What is written for a comment -/

/-- **What is written for a comment of a parsed template is white space and complete comments exactly if the
comment is a line comment or a block comment that is closed, and its content lets it be one.** That of a region
never is. -/
theorem comment_written_iff (env : GenEnv) (langs : List Bytes) (text : Bytes) (r : RootNode)
    (h : parse env.toFanEnv langs text = some (.ok r)) (sec : CommentSec) (line col : Nat) (childs : List Node)
    (hin : (Node.node (.comment sec) line col childs).In r.child) (doc : Document) (ctx : GenCtx) :
    (Node.node (.comment sec) line col childs).gen env doc ctx = .text (commentCode env (tokenTexts childs)) ∧
      (CommentsOnly (commentCode env (tokenTexts childs)) ↔ CommentSafe sec (tokenTexts childs)) :=
  ⟨by rw [Node.gen]; rfl, (parse_commented h sec line col childs hin).commentsOnly_iff env⟩

/-- A template that is parsed to one literal, with the node among its children. -/
theorem parse_child {text : Bytes} {T : List Token} {n : Node} {childs : List Node}
    (htokens : tokenize text = T) (hn : n ∈ childs)
    (htree : (parseLoop blankTrim (rootLangs []) ((parseStart T).size + 1) (parseStart T)).any
      (·.isTree fun r => r.child = .node (.literal .literal (bytes "html") 0) 0 0 childs) = true) :
    ∃ r, parse blankTrim [] text = some (.ok r) ∧ n.In r.child := by
  obtain ⟨r, hr, hchild⟩ := exists_of_isTree htree
  refine ⟨r, ?_, ?_⟩
  · simp only [parse, htokens]
    exact hr
  · rw [of_decide_eq_true hchild]
    exact .child hn .self

/-- The children of the comment `@**1/2`. -/
def lineComment : List Node :=
  [.token [⟨bytes "@**", 1, 1, 0⟩],
    .token [⟨bytes "1", 1, 0, 2⟩, ⟨bytes "/", 1, 5, 4⟩, ⟨bytes "2", 1, 0, 4⟩],
    .token [⟨[10], 1, 7, 6⟩]]

set_option maxRecDepth 20000 in
/-- `@**1/2`, with a line behind it. -/
theorem comment_written_line :
    ∃ r, parse blankTrim [] (bytes "@**1/2" ++ [10, 51]) = some (.ok r) ∧
      (Node.node (.comment .commentLine) 0 0 lineComment).gen plainGenEnv headerDoc .root
        = .text (commentCode plainGenEnv (tokenTexts lineComment)) ∧
      (CommentsOnly (commentCode plainGenEnv (tokenTexts lineComment)) ↔
        CommentSafe .commentLine (tokenTexts lineComment)) ∧
      CommentsOnly (commentCode plainGenEnv (tokenTexts lineComment)) := by
  have htokens : tokenize (bytes "@**1/2" ++ [10, 51]) = [rootToken, ⟨bytes "@**", 1, 1, 0⟩,
      ⟨bytes "1", 1, 0, 2⟩, ⟨bytes "/", 1, 5, 4⟩, ⟨bytes "2", 1, 0, 4⟩, ⟨[10], 1, 7, 6⟩,
      ⟨bytes "3", 2, 0, 6⟩] := by
    rw [tokenize_heads isNoLetter (by decide +kernel)]
    decide +kernel
  obtain ⟨r, hr, hin⟩ := @parse_child _ _ (.node (.comment .commentLine) 0 0 lineComment)
    [.node (.comment .commentLine) 0 0 lineComment, .token [⟨bytes "3", 2, 0, 6⟩]] htokens
    List.mem_cons_self (by decide +kernel)
  obtain ⟨hgen, hiff⟩ := comment_written_iff plainGenEnv [] _ r hr .commentLine 0 0 lineComment hin headerDoc
    .root
  exact ⟨r, hr, hgen, hiff, hiff.2 ⟨bytes "1/2", by decide, by decide⟩⟩

/-- The children of the comment `@region` at the end of a template. -/
def emptyRegion : List Node := [.token [⟨bytes "@region", 1, 1, 0⟩], .token [⟨[10], 1, 0, 6⟩]]

set_option maxRecDepth 20000 in
/-- `@region` and the end of the line are written as they are. -/
theorem region_written_live :
    ¬ ∀ (env : GenEnv) (langs : List Bytes) (text : Bytes) (r : RootNode),
      parse env.toFanEnv langs text = some (.ok r) →
      ∀ sec line col childs, (Node.node (.comment sec) line col childs).In r.child →
        CommentsOnly (commentCode env (tokenTexts childs)) := by
  intro hall
  have htext : bytes "@region" ++ [10] = 64 :: (bytes "region" ++ [10]) := by decide
  have htokens : tokenize (bytes "@region" ++ [10]) = atTemplate (bytes "@region") 10 := by
    rw [htext]
    exact tokenize_at (bytes "region" ++ [10]) (by decide) (by decide)
  obtain ⟨r, hr, hin⟩ := @parse_child _ _ (.node (.comment .regionStart) 0 0 emptyRegion)
    [.node (.comment .regionStart) 0 0 emptyRegion] htokens List.mem_cons_self (by decide)
  have hcode := hall plainGenEnv [] (bytes "@region" ++ [10]) r hr .regionStart 0 0 emptyRegion hin
  have hwritten : tokenTexts emptyRegion = bytes "@region" ++ [10] := by decide
  rw [hwritten] at hcode
  exact not_commentsOnly_region plainGenEnv (List.mem_map_of_mem (by simp)) [10] hcode

end Fanjet

end LibEvmvc
