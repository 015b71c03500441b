import LibEvmvc.Fanjet.CodeRounds

set_option autoImplicit false

/-! # Where a code block ends

A block of code contains the code that stands between its braces, if the parsers read the code as it is
meant (`Reads true`). -/

namespace LibEvmvc

namespace Fanjet

section Statements

variable {env : FanEnv} {k : Token} {h b s : List Token}

theorem Reads.head_ne (hh : Reads true .head h) : h ≠ [] := by
  cases hh
  simp

theorem Reads.body_ne (hb : Reads true .body b) : b ≠ [] := by
  cases hb
  simp

theorem Reads.ifRest_ne (hs : Reads true .ifRest s) : s ≠ [] := by
  cases hs with
  | ifThen hh _ => simp [hh.head_ne]
  | ifElse hh _ _ _ _ => simp [hh.head_ne]
  | ifElseIf hh _ _ _ _ _ _ => simp [hh.head_ne]

theorem openTry_word (hk : k.is "try" = true) (a : Action) :
    orOpen [openControl .codeBlock k, openTry k] a = .openScope (.codeErr .new) 1 := by
  have hnot : k.isAny ["if", "switch", "for", "do", "while"] = false :=
    (Token.isAny_of_is hk _).trans (by decide)
  simp only [Token.isAny, List.any_cons, List.any_nil, Bool.or_false, Bool.or_eq_false_iff] at hnot
  simp [orOpen, openControl, openTry, Token.isAny, hnot, hk]

theorem statementRuns_if (hk : k.is "if" = true) (hne : s ≠ []) (hs : IfRuns env s) :
    StatementRuns env (k :: s) := by
  intro p below rest hends hp
  have hopen := @openControl_word k "if" hk .codeIf (by decide) (by decide)
  refine .step (goesTo_keyword hk (by decide) hopen (by simp [hne]) hp) fun q hq => ?_
  obtain ⟨X, hX, hat⟩ := hq
  refine (hs q _ _ rest rfl rfl rfl rfl hends hat).mono ?_
  rintro r ⟨kind, hkind, hr, hentry⟩
  exact ⟨kind, X, hkind, hX, hr, hentry⟩

/-- A statement of a keyword, an expression and a block. -/
theorem statementRuns_loop {w : String} {sec : ControlSec} (hk : k.is w = true)
    (hw : ((fanWords ++ ["(", "return", "throw", "\"", "'", "\x7b"]).any fun s' =>
      decide (bytes w = bytes s')) = false)
    (hopen : ∀ a, orOpen [openControl .codeBlock k, openTry k] a
      = .openScope (.codeControl (.new sec)) 1)
    (hif : sec ≠ .codeIf) (hdo : sec ≠ .codeDo) (hne : h ≠ []) (hh : HeadRuns env h)
    (hb : BodyRuns env b) : StatementRuns env (k :: (h ++ b)) := by
  intro p below rest _ hp
  rw [List.cons_append, List.append_assoc] at hp
  refine .step (goesTo_keyword hk hw hopen (by simp [hne]) hp) fun q hq => ?_
  obtain ⟨X, hX, hat⟩ := hq
  have hexpr : NodeKind.WantsExpr (.codeControl (.new sec))
      (.codeControl { ControlNode.new sec with needExpr := false }) :=
    .control rfl rfl fun h => absurd h hdo
  refine (hh q _ _ _ _ hexpr hat).trans fun q' hq' => ?_
  have hcode : NodeKind.WantsCode (.codeControl { ControlNode.new sec with needExpr := false })
      (.codeControl { ControlNode.new sec with needExpr := false, needCode := false }) :=
    .control rfl rfl (decide_eq_false hdo).symm
  refine (hb q' _ _ _ rest hcode hq').mono ?_
  rintro r ⟨hr, hentry⟩
  have hdone := @blockKind_loop env rest
    { ControlNode.new sec with needExpr := false, needCode := false } hif hdo
  rw [hdone] at hr
  exact ⟨_, X, .control rfl, hX, hr, hentry⟩

theorem statementRuns_try (htrim : TrimsBlank env) (hk : k.is "try" = true) (hne : b ≠ [])
    (hb : BodyRuns env b) (hread : Reads true .catches s) (hs : CatchRuns env s) :
    StatementRuns env (k :: (b ++ s)) := by
  intro p below rest hends hp
  rw [List.cons_append, List.append_assoc] at hp
  refine .step (goesTo_keyword hk (by decide) (openTry_word hk) (by simp [hne]) hp) fun q hq => ?_
  obtain ⟨X, hX, hat⟩ := hq
  have hcode : NodeKind.WantsCode (.codeErr .new) (.codeErr { ErrNode.new with needCode := false }) :=
    .err rfl rfl rfl
  refine (hb q _ _ _ _ hcode hat).trans ?_
  rintro q' ⟨hq', -⟩
  rw [blockKind_catches htrim hread] at hq'
  refine (hs q' _ _ rest rfl rfl rfl hends hq').mono ?_
  rintro r ⟨kind, hfinished, hr, hentry⟩
  exact ⟨kind, X, hfinished, hX, hr, hentry⟩

theorem doRuns {g g' : List Token} {w e : Token} (htrim : TrimsBlank env) (hk : k.is "do" = true)
    (hne : b ≠ []) (hb : BodyRuns env b) (hg : ∀ t ∈ g, t.isGap = true) (hw : w.is "while" = true)
    (hh : HeadRuns env h) (hg' : ∀ t ∈ g', t.isGap = true) (he : e.is ";" = true) :
    DoRuns env (k :: (b ++ (g ++ w :: (h ++ (g' ++ [e]))))) := by
  intro p below rest hp
  simp only [List.append_assoc, List.cons_append, List.nil_append] at hp
  have hopen := @openControl_word k "do" hk .codeDo (by decide) (by decide)
  refine .step (goesTo_keyword hk (by decide) hopen (by simp [hne]) hp) fun q hq => ?_
  obtain ⟨X, hX, hat⟩ := hq
  have hcode : NodeKind.WantsCode (.codeControl (.new .codeDo))
      (.codeControl { ControlNode.new .codeDo with needCode := false }) := .control rfl rfl rfl
  refine (hb q _ _ _ _ hcode hat).trans ?_
  rintro q' ⟨hq', -⟩
  rw [blockKind_do rfl] at hq'
  have hgaps : NodeKind.Pending (.codeControl { ControlNode.new .codeDo with needCode := false }) :=
    pending_control rfl
  refine (leadsTo_gaps htrim hgaps hg hq').trans fun r hr => ?_
  have hwhile : w.isAny ["else", "if", "while"] = true := (Token.isAny_of_is hw _).trans (by decide)
  refine (leadsTo_skip htrim (.control rfl (.inr hwhile)) hr).trans fun r' hr' => ?_
  have hexpr : NodeKind.WantsExpr (.codeControl { ControlNode.new .codeDo with needCode := false })
      (.codeControl { ControlNode.new .codeDo with needCode := false, needExpr := false }) :=
    .control rfl rfl fun _ => rfl
  refine (hh r' _ _ _ _ hexpr hr').trans fun u hu => ?_
  refine (leadsTo_gaps htrim (pending_control rfl) hg' hu).trans fun u' hu' => ?_
  refine (LeadsTo.of_step (goesTo_semicolon htrim rfl rfl rfl rfl he hu')).mono fun v hv => ?_
  rw [hX] at hv
  exact hv

/-- Every part of code is read as what it is. -/
theorem reads_runs (htrim : TrimsBlank env) {part : CodePart} {ts : List Token}
    (h : Reads true part ts) : part.Runs env ts := by
  induction h with
  | done => exact fun p below c rest _ hp => .refl hp
  | plain ht _ ih => exact codeRuns_plain ht ih
  | taken _ _ ih => exact takenRuns_cons ih
  | grouped _ _ ihg ih => exact codeRuns_grouped ihg ih
  | statement _ hends _ ihs ih => exact codeRuns_statement ihs hends ih
  | doStatement _ _ ihs ih => exact codeRuns_do ihs ih
  | @exprDone type passed =>
    cases passed with
    | true => exact passedRuns_done
    | false => exact exprRuns_done
  | @exprPlain type t ts ht _ ih =>
    refine exprRuns_plain ht (fun hsplit => ?_) fun hsplit => ?_
    · rw [hsplit] at ih
      exact ih
    · rw [hsplit] at ih
      exact ih
  | exprPassed _ hclose _ ih => exact passedRuns_cons hclose ih
  | exprGrouped _ _ ihg ih => exact exprRuns_grouped ihg ih
  | string hq hq' hts => exact groupRuns_string hq hq' hts
  | @parens l r ts hl hr _ ih =>
    have hopen : openExpr l = some (.openScope (.expr .parens) 1) := by simp [openExpr, hl]
    exact groupRuns_expr ((Token.isAny_of_is hl _).trans (by decide)) hopen hr ih
  | @result l r ts hl hr _ ih =>
    have hword : l.is "return" = true ∨ l.is "throw" = true := by simpa [Token.isAny] using hl
    have hnot : l.isAny ("(" :: fanWords) = false := by
      rcases hword with hword | hword
      · exact (Token.isAny_of_is hword _).trans (by decide)
      · exact (Token.isAny_of_is hword _).trans (by decide)
    rw [Token.isAny, List.any_cons, Bool.or_eq_false_iff] at hnot
    have hopen : openExpr l = some (.openScope (.expr .semicol) 1) := by simp [openExpr, hnot.1, hl]
    exact groupRuns_expr hnot.2 hopen hr ih
  | block hl hr _ ih => exact groupRuns_block hl hr ih
  | head hg hl hr _ ih => exact headRuns htrim hg hl hr ih
  | body hg hl hr _ ih => exact bodyRuns htrim hg hl hr ih
  | ifStatement hk hs ih => exact statementRuns_if hk hs.ifRest_ne ih
  | @loop k h b hk hh _ ihh ihb =>
    have hword : k.is "switch" = true ∨ k.is "while" = true ∨ k.is "for" = true := by
      simpa [Token.isAny] using hk
    rcases hword with hword | hword | hword
    · have hopen := @openControl_word k "switch" hword .codeSwitch (by decide) (by decide)
      exact statementRuns_loop hword (by decide) hopen (by decide) (by decide) hh.head_ne ihh ihb
    · have hopen := @openControl_word k "while" hword .codeWhile (by decide) (by decide)
      exact statementRuns_loop hword (by decide) hopen (by decide) (by decide) hh.head_ne ihh ihb
    · have hopen := @openControl_word k "for" hword .codeFor (by decide) (by decide)
      exact statementRuns_loop hword (by decide) hopen (by decide) (by decide) hh.head_ne ihh ihb
  | tryStatement hk hb hs ihb ihs => exact statementRuns_try htrim hk hb.body_ne ihb hs ihs
  | ifThen _ _ ihh ihb => exact ifRuns_then htrim ihh ihb
  | ifElse _ _ hg he hb' ihh ihb ihb' => exact ifRuns_else htrim ihh ihb hg he hb' ihb'
  | ifElseIf _ _ hg he hg' hk _ ihh ihb ihs => exact ifRuns_elseIf htrim ihh ihb hg he hg' hk ihs
  | lastCatch hg hk _ _ ihh ihb => exact catchRuns_last htrim hg hk ihh ihb
  | moreCatch hg hk _ _ hs ihh ihb ihs => exact catchRuns_more htrim hg hk ihh ihb hs ihs
  | doWhile hk hb hg hw _ hg' he ihb ihh => exact doRuns htrim hk hb.body_ne ihb hg hw ihh hg' he

end Statements

/-! ## The first block of a template -/

/-- The literal that a template is in. -/
def rootLiteral : NodeKind := .literal .literal (bytes "html") 0

/-- The tokens of a template begin with those of a block: the parse comes to `R` in the root's literal,
    whose only child is then the node of the block, with these tokens. -/
def BlockCloses (env : FanEnv) (text : Bytes) (block R : List Token) : Prop :=
  ∃ q line col childs, Reached env text q ∧ q.top.kind = rootLiteral ∧ q.below = [] ∧ q.pre = [] ∧
    q.cur = R ∧ q.top.childs = [.node .codeBlock line col childs] ∧ solid (childsTokens childs) = block

section Template

variable {env : FanEnv} {text : Bytes} {p q : Parsing} {X : OpenNode} {below : List OpenNode} {t : Token}
  {rest : List Token}

theorem Reached.parseInv (h : Reached env text q) : ParseInv (tokenize text) q := by
  induction h with
  | refl => exact parseInv_parseStart _
  | @tail p q _ hstep hp =>
    have hgo : parseStep env p = .go q := hstep
    rcases hp.step_cases env (startable_tokenize text) with ⟨-, h⟩ | ⟨err, h⟩ | ⟨-, r, h, -⟩ | ⟨-, h⟩ |
      ⟨r, h, hr, -⟩
    · rw [hgo] at h
      cases h
    · rw [hgo] at h
      cases h
    · rw [hgo] at h
      cases h
    · rw [hgo] at h
      cases h
    · rw [hgo] at h
      cases h
      exact hr

/-- A block in the root's literal is its last child then. -/
theorem goesTo_lastBrace (hX : X.kind = rootLiteral) (hp : p.At .codeBlock [X] (t :: rest))
    (ht : t.is "\x7d" = true) : (parseStep env p).GoesTo fun q =>
      q.At rootLiteral [] rest ∧ q.pre = [] ∧
        ∃ line col childs, q.top.childs = X.childs ++ [.node .codeBlock line col childs] := by
  refine goesTo_braceRound hp ht fun top htop => ?_
  obtain ⟨q, hgo, hq, -, hpre, hchild⟩ := goesTo_close_child (hp.top htop)
  rw [hX] at hq ⊢
  exact ⟨q, hgo, hq, hpre, hchild⟩

/-- The first two tokens: the block is opened. -/
theorem opens_block {op : Token} {rest : List Token} (hmore : rest ≠ []) (hop : op.is "@\x7b" = true) :
    LeadsTo env (parseStart (rootToken :: op :: rest)) fun q =>
      ∃ X, X.kind = rootLiteral ∧ X.childs = [] ∧ q.At .codeBlock [X] rest := by
  have hroot : parseStep env (parseStart (rootToken :: op :: rest))
      = .go { parseStart (op :: rest) with pre := [rootToken], entry := false } := rfl
  have hlen : 1 < (op :: rest).length := Nat.lt_add_of_pos_left (List.length_pos_iff.2 hmore)
  have hblock : parseStep env { parseStart (op :: rest) with pre := [rootToken], entry := false }
      = .go (({ parseStart (op :: rest) with pre := [rootToken], entry := false } : Parsing).open
        .codeBlock 1) := by
    obtain ⟨text, line, col, pos⟩ := op
    obtain rfl : text = bytes "@\x7b" := of_decide_eq_true hop
    exact if_pos hlen
  refine ⟨_, .head hroot (.single hblock), parseStart [] |>.top, rfl, rfl, ?_, rfl, rfl⟩
  rw [Parsing.open, OpenNode.kind_addToken]

/-- **A block at the beginning of a template ends at its brace, if the code in it is read as it is
meant.** -/
theorem block_closes (htrim : TrimsBlank env) {op cl : Token} {B R : List Token}
    (htext : tokenize text = rootToken :: op :: (B ++ cl :: R)) (hop : op.is "@\x7b" = true)
    (hcl : cl.is "\x7d" = true) (hB : Reads true (.code false) B) :
    BlockCloses env text (op :: (B ++ [cl])) R := by
  have hopen := @opens_block env op (B ++ cl :: R) (by simp) hop
  obtain ⟨q, hrun, X, hX, hchilds, hq⟩ := hopen
  obtain ⟨r, hrun', hr⟩ := reads_runs htrim hB q [X] cl R hcl hq
  obtain ⟨e, hstep, hend, hpre, line, col, childs, hlast⟩ := @goesTo_lastBrace env _ _ _ _ hX hr hcl
  have hreached : Reached env text e := by
    unfold Reached
    rw [htext]
    exact (hrun.trans hrun').tail hstep
  rw [hchilds, List.nil_append] at hlast
  refine ⟨e, line, col, childs, hreached, hend.kind, hend.below, hpre, hend.cur, hlast, ?_⟩
  -- the tokens of the tree and those to come are those of the template
  have htokens := hreached.parseInv.tokens
  have htree : e.tokens = childsTokens childs ++ R := by
    rw [Parsing.tokens, Parsing.tree, hend.below, openTokens, openTokens, hlast, childsTokens_singleton,
      Node.tokens, hpre, hend.cur, List.nil_append, List.nil_append]
  have hsolid := solid_tokenize text
  have hall : (tokenize text).tail = op :: (B ++ [cl]) ++ R := by
    rw [htext]
    simp
  rw [htree, solid_append, hsolid, hall] at htokens
  have hR : solid R = R := by
    rw [solid, List.filter_eq_self]
    intro t ht
    refine decide_eq_true (tokenize_ne text t ?_)
    rw [hall]
    exact List.mem_append_right _ ht
  rw [hR] at htokens
  exact List.append_cancel_right htokens

end Template

/-! ## A block with an `if` -/

/-- `if(1)\x7b2\x7d` behind `@\x7b`. -/
def ifOne : List Token :=
  [⟨bytes "if", 1, 3, 2⟩, ⟨bytes "(", 1, 5, 4⟩, ⟨bytes "1", 1, 0, 4⟩, ⟨bytes ")", 1, 7, 6⟩,
    ⟨bytes "\x7b", 1, 8, 7⟩, ⟨bytes "2", 1, 0, 7⟩, ⟨bytes "\x7d", 1, 10, 9⟩]

theorem reads_ifOne (asRead : Bool) : Reads asRead .statement ifOne := by
  have hexpr : PlainInExpr asRead .parens ⟨bytes "1", 1, 0, 4⟩ :=
    ⟨by decide, by decide, by decide, fun _ => by decide, fun _ => by decide⟩
  have hcode : PlainInCode asRead ⟨bytes "2", 1, 0, 7⟩ :=
    ⟨by decide, by decide, by decide, fun _ => by decide, fun _ => by decide⟩
  have hhead : Reads asRead .head
      ([] ++ ⟨bytes "(", 1, 5, 4⟩ :: ([⟨bytes "1", 1, 0, 4⟩] ++ [⟨bytes ")", 1, 7, 6⟩])) :=
    .head (fun t ht => absurd ht List.not_mem_nil) rfl rfl (.exprPlain hexpr .exprDone)
  have hbody : Reads asRead .body
      ([] ++ ⟨bytes "\x7b", 1, 8, 7⟩ :: ([⟨bytes "2", 1, 0, 7⟩] ++ [⟨bytes "\x7d", 1, 10, 9⟩])) :=
    .body (fun t ht => absurd ht List.not_mem_nil) rfl rfl (.plain hcode .done)
  exact .ifStatement rfl (.ifThen hhead hbody)

/-- The characters of the samples. -/
def isIfChar (c : UInt8) : Bool := (asciiBytes "@\x7bif(1)2\x7d 3").contains c

theorem trimsBlank_blankTrim : TrimsBlank blankTrim := by
  intro b
  simp only [blankTrim, List.reverse_eq_nil_iff, List.dropWhile_eq_nil_iff, List.mem_reverse]
  constructor
  · intro hrest c hc
    rw [← @List.takeWhile_append_dropWhile _ isspace b, List.mem_append] at hc
    rcases hc with hc | hc
    · exact List.mem_takeWhile_imp hc
    · exact hrest c hc
  · intro hall c hc
    exact hall c ((List.dropWhile_sublist isspace).subset hc)

/-- `@\x7bif(1)\x7b2\x7d \x7d3`: the blank is what the `if` takes. -/
theorem block_closes_ifOne :
    BlockCloses blankTrim (bytes "@\x7bif(1)\x7b2\x7d \x7d3")
      (⟨bytes "@\x7b", 1, 1, 0⟩ :: (ifOne ++ [⟨bytes " ", 1, 11, 10⟩] ++ [⟨bytes "\x7d", 1, 12, 11⟩]))
      [⟨bytes "3", 1, 0, 11⟩] := by
  have htokens : tokenize (bytes "@\x7bif(1)\x7b2\x7d \x7d3") = rootToken :: ⟨bytes "@\x7b", 1, 1, 0⟩ ::
      (ifOne ++ [⟨bytes " ", 1, 11, 10⟩] ++ ⟨bytes "\x7d", 1, 12, 11⟩ :: [⟨bytes "3", 1, 0, 11⟩]) := by
    rw [tokenize_heads isIfChar (by decide +kernel)]
    decide +kernel
  have hcode : Reads true (.code false) (ifOne ++ [⟨bytes " ", 1, 11, 10⟩]) :=
    .statement (reads_ifOne true) rfl (.taken (by decide) .done)
  exact block_closes trimsBlank_blankTrim htokens rfl rfl hcode

/-- A parse that comes to the last token in the root's literal returns a tree, if nothing is opened
    there. -/
theorem BlockCloses.parses {env : FanEnv} {text : Bytes} {block : List Token} {t : Token}
    (h : BlockCloses env text block [t]) (ht : t.is "3" = true) :
    ∃ r, parse env [] text = some (.ok r) := by
  obtain ⟨q, line, col, childs, hreached, hkind, hbelow, -, hcur, -⟩ := h
  have hliteral : parseAction env q = .next .loop := by
    rw [parseAction, hkind, hcur]
    obtain ⟨text', line', col', pos'⟩ := t
    obtain rfl : text' = bytes "3" := of_decide_eq_true ht
    rfl
  have hround : (parseStep env q).GoesTo fun q => q.At rootLiteral [] [] := by
    rw [parseStep, hliteral]
    exact goesTo_next ⟨hkind, hbelow, hcur⟩
  obtain ⟨q', hgo, hq'⟩ := hround
  have hlast : parseStep env q' = act q' (.attach .finish) := by
    rw [parseStep, parseAction, hq'.kind, hq'.cur]
    rfl
  obtain ⟨e, res, -, -, hres, hparse, huniq⟩ := parse_ends env [] text
  obtain ⟨d, hdone⟩ : ∃ d, act q' (.attach .finish) = .done d := ⟨_, rfl⟩
  cases huniq q' (hreached.tail hgo) fun p' hp' => by simp [hlast, hdone] at hp'
  rw [hlast, hdone] at hres
  cases hres
  exact ⟨_, hparse⟩

/-- The brace of the block is taken by the `if` in front of it. -/
theorem block_not_closed :
    ¬ ∀ (env : FanEnv) (text : Bytes) (op cl : Token) (B R : List Token), TrimsBlank env →
      tokenize text = rootToken :: op :: (B ++ cl :: R) → op.is "@\x7b" = true → cl.is "\x7d" = true →
      Reads false (.code false) B → BlockCloses env text (op :: (B ++ [cl])) R := by
  intro hall
  have htokens : tokenize (bytes "@\x7bif(1)\x7b2\x7d\x7d3") = rootToken :: ⟨bytes "@\x7b", 1, 1, 0⟩ ::
      (ifOne ++ [] ++ ⟨bytes "\x7d", 1, 11, 10⟩ :: [⟨bytes "3", 1, 0, 10⟩]) := by
    rw [tokenize_heads isIfChar (by decide +kernel)]
    decide +kernel
  have hcode : Reads false (.code false) (ifOne ++ []) := .statement (reads_ifOne false) rfl .done
  have hcloses := hall _ _ _ _ _ _ trimsBlank_blankTrim htokens rfl rfl hcode
  obtain ⟨r, hparse⟩ := hcloses.parses rfl
  have herror : (parse blankTrim [] (bytes "@\x7bif(1)\x7b2\x7d\x7d3")).any (·.isTree fun _ => true)
      = false := by
    rw [parse, htokens]
    decide +kernel
  rw [hparse] at herror
  cases herror

end Fanjet

end LibEvmvc
