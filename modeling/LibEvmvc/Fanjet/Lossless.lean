import LibEvmvc.Foundation.Runs
import LibEvmvc.Fanjet.NodeRounds

set_option autoImplicit false

/-! # The parse of a template

The parse is a run of rounds. Each of them comes nearer to the end, so there is a last state, and
`parser::parse` returns what the round there does (`parse_ends`). It is one in which a null token is
dereferenced, one in which a parser reports an error, one in which all tokens are in the tree, or one in
which a comment or an asynchronous call has run out of tokens, and those it has looked at are in no
node. -/

namespace LibEvmvc

namespace Fanjet

/-- One round leads from one state to another. -/
def Steps (env : FanEnv) (p q : Parsing) : Prop := parseStep env p = .go q

/-- The states a parse of a template goes through. -/
def Reached (env : FanEnv) (text : Bytes) : Parsing → Prop :=
  Relation.ReflTransGen (Steps env) (parseStart (tokenize text))

section Runs

variable {env : FanEnv} {T : List Token} {p : Parsing}

theorem startable_tokenize (text : Bytes) : Startable (tokenize text) where
  head := ⟨_, rfl⟩
  ne := tokenize_ne text
  line := tokenize_line text

theorem parseInv_parseStart (T : List Token) : ParseInv T (parseStart T) where
  tokens := rfl
  suffix := List.suffix_refl T
  nested h := absurd rfl h
  outermost := rfl
  comments n hn := by cases hn
  belowEntered n hn := by cases hn
  hasTokens := by
    rintro (h | h)
    · cases h
    · cases h
  topEntered _ := .inr rfl
  clean _ := rfl

/-- What a round does: the parse ends in one of four ways, or comes nearer to its end. -/
theorem ParseInv.step_cases (env : FanEnv) (hp : ParseInv T p) (hT : Startable T) :
    (NullAhead p ∧ parseStep env p = .null) ∨
    (∃ err, parseStep env p = .error err) ∨
    (EndsWhole p ∧ ∃ q, parseStep env p = .done q ∧ solid q.tree = solid T) ∨
    (RunsOut p ∧ parseStep env p = .done p) ∨
    ∃ q, parseStep env p = .go q ∧ ParseInv T q ∧ q.size < p.size := by
  by_cases hnull : NullAhead p
  · exact .inl ⟨hnull, hnull.step env⟩
  by_cases hend : EndsWhole p
  · exact .inr (.inr (.inl ⟨hend, hend.step env hp⟩))
  by_cases hout : RunsOut p
  · exact .inr (.inr (.inr (.inl ⟨hout, hout.step env⟩)))
  rcases (parseAction_good env hp hnull hend hout).leads hT hp.toRoundInv p.round_of with herr | hgo
  · exact .inr (.inl herr)
  · exact .inr (.inr (.inr (.inr hgo)))

theorem tokens_closeAll (n : OpenNode) (below : List OpenNode) :
    (closeAll n below).tokens = openTokens (n :: below) := by
  induction below generalizing n with
  | nil => rfl
  | cons q below ih =>
    rw [closeAll, ih]
    simp only [openTokens, childsTokens_append, childsTokens_singleton, OpenNode.toNode, Node.tokens,
      List.append_assoc]

/-- What the parse returns after its last round. -/
def Outcome.parsed (langs : List Bytes) : Outcome → Option Parsed
  | .go _ => none
  | .done q => some (.ok ⟨langs, closeAll q.top q.below⟩)
  | .error err => some (.error err)
  | .null => some .null

/-- A parse returns what its last round does. -/
theorem parseLoop_ends (env : FanEnv) (hT : Startable T) (langs : List Bytes) (fuel : Nat)
    (hp : ParseInv T p) (hfuel : p.size < fuel) :
    ∃ q res, Relation.ReflTransGen (Steps env) p q ∧ ParseInv T q ∧
      (parseStep env q).parsed langs = some res ∧ parseLoop env langs fuel p = some res := by
  induction fuel generalizing p with
  | zero => exact absurd hfuel (Nat.not_lt_zero _)
  | succ fuel ih =>
    unfold parseLoop
    rcases hp.step_cases env hT with ⟨-, hstep⟩ | ⟨err, hstep⟩ | ⟨-, q, hstep, -⟩ | ⟨-, hstep⟩ |
      ⟨q, hstep, hq, hlt⟩
    · exact ⟨p, _, .refl, hp, by rw [hstep]; rfl, by rw [hstep]⟩
    · exact ⟨p, _, .refl, hp, by rw [hstep]; rfl, by rw [hstep]⟩
    · exact ⟨p, _, .refl, hp, by rw [hstep]; rfl, by rw [hstep]⟩
    · exact ⟨p, _, .refl, hp, by rw [hstep]; rfl, by rw [hstep]⟩
    · obtain ⟨q', res, hrun, hends⟩ := ih hq (by omega)
      rw [hstep]
      exact ⟨q', res, .head hstep hrun, hends⟩

theorem steps_rightUnique (env : FanEnv) : Relator.RightUnique (Steps env) := by
  intro p q q' hq hq'
  exact Outcome.go.inj (hq.symm.trans hq')

/-- **Every parse returns.** There is a last state, and no other one is left without a next. -/
theorem parse_ends (env : FanEnv) (markupLangs : List Bytes) (text : Bytes) :
    ∃ q res, Reached env text q ∧ ParseInv (tokenize text) q ∧
      (parseStep env q).parsed (rootLangs markupLangs) = some res ∧
      parse env markupLangs text = some res ∧
      ∀ p, Reached env text p → (∀ p', parseStep env p ≠ .go p') → p = q := by
  obtain ⟨q, res, hrun, hq, hlast, hparse⟩ := parseLoop_ends env (startable_tokenize text)
    (rootLangs markupLangs) _ (parseInv_parseStart (tokenize text)) (Nat.lt_succ_self _)
  refine ⟨q, res, hrun, hq, hlast, hparse, fun p hp hend => ?_⟩
  refine reflTransGen_end_unique (steps_rightUnique env) hp hrun hend fun q' hstep => ?_
  have hgo : parseStep env q = .go q' := hstep
  rw [hgo] at hlast
  cases hlast

end Runs

/-! ## Small templates -/

/-- A trim that takes blanks away. -/
def blankTrim : FanEnv where
  trim b := ((b.dropWhile isspace).reverse.dropWhile isspace).reverse

/-- The entries of the table that begin with an `@`. -/
def atTokens : List String :=
  ["@\x7b", "@\x7d", "@**", "@*", "@namespace", "@ns", "@path", "@name", "@layout", "@header", "@inherits",
    "@include", "@region", "@endregion", "@::", "@:", "@if", "@switch", "@while", "@for", "@do", "@try",
    "@funi", "@func", "@<", "@await", "@body", "@this", "@type", "@shared_type", "@filename", "@dirname",
    "@scripts", "@styles", "@(", "@>", "@set", "@get", "@fmt", "@get-raw", "@fmt-raw", "@import", "@script",
    "@style", "@add-section", "@write-section"]

set_option maxRecDepth 20000 in
theorem sTokens_at : (sTokens.filter fun tok => tok.head? = some 64) = atTokens.map bytes := by
  rw [sTokens_ascii]
  decide

/-- The tokens of a template of an entry that begins with an `@` and one character behind it. -/
def atTemplate (tok : Bytes) (c : UInt8) : List Token :=
  let s : Lexer := Lexer.skip ⟨0, 1, 1, [], 0, 0, 0⟩ tok
  [rootToken, ⟨tok, 1, 1, 0⟩, ⟨[c], s.tl, s.tc, s.ti⟩]

theorem tokenize_at (rest : Bytes) {tok : Bytes} {c : UInt8}
    (hfind : findToken (atTokens.map bytes) (64 :: rest) = some tok)
    (hrest : (64 :: rest).drop tok.length = [c]) : tokenize (64 :: rest) = atTemplate tok c := by
  have hlen : 0 < rest.length := by
    by_contra hnot
    rw [Nat.not_lt, Nat.le_zero, List.length_eq_zero_iff] at hnot
    rw [hnot, findToken_last] at hfind
    cases hfind
  obtain ⟨fuel, hfuel⟩ : ∃ fuel, rest.length = fuel + 1 := ⟨rest.length - 1, by omega⟩
  have hlast (s : Lexer) : tokenizeLoop sTokens (fuel + 1) s [c]
      = tokenizeLoop sTokens fuel { s with i := s.i + 1, c := s.c + 1, tmpText := s.tmpText ++ [c] } [] := by
    rw [tokenizeLoop, findToken_last]
  have hnil (s : Lexer) : tokenizeLoop sTokens fuel s [] = s.flush := by
    cases fuel with
    | zero => rfl
    | succ fuel => rfl
  rw [tokenize, List.length_cons, tokenizeLoop, findToken_head, sTokens_at, hfind]
  dsimp only
  rw [hrest, hfuel, hlast, hnil]
  rfl

/-- Whether the table is looked up only at characters that pass a test. -/
def looksUp (p : UInt8 → Bool) (toks : List Bytes) : Nat → Bytes → Bool
  | 0, _ => true
  | _ + 1, [] => true
  | fuel + 1, ch :: rest =>
    p ch &&
      match findToken toks (ch :: rest) with
      | some tok => looksUp p toks fuel ((ch :: rest).drop tok.length)
      | none => looksUp p toks fuel rest

/-- The entries that begin with a character that passes a test. -/
def headTokens (p : UInt8 → Bool) (toks : List Bytes) : List Bytes := toks.filter fun tok => tok.head?.any p

/-- Only the entries that begin with such a character count. -/
theorem tokenizeLoop_heads (p : UInt8 → Bool) {toks : List Bytes} (fuel : Nat) (s : Lexer) (rest : Bytes)
    (h : looksUp p (headTokens p toks) fuel rest = true) :
    tokenizeLoop toks fuel s rest = tokenizeLoop (headTokens p toks) fuel s rest := by
  induction fuel generalizing s rest with
  | zero => rfl
  | succ fuel ih =>
    cases rest with
    | nil => rfl
    | cons c rest =>
      rw [looksUp, Bool.and_eq_true] at h
      have hfind : findToken toks (c :: rest) = findToken (headTokens p toks) (c :: rest) := by
        rw [@findToken_head toks c rest, @findToken_head (headTokens p toks) c rest, headTokens,
          List.filter_filter]
        refine congrArg (findToken · (c :: rest)) (List.filter_congr fun tok _ => ?_)
        by_cases hhead : tok.head? = some c
        · simp [hhead, h.1]
        · simp [hhead]
      obtain ⟨-, h⟩ := h
      rw [tokenizeLoop, tokenizeLoop, hfind]
      cases hf : findToken (headTokens p toks) (c :: rest) with
      | none =>
        rw [hf] at h
        exact ih _ _ h
      | some tok =>
        rw [hf] at h
        dsimp only
        rw [ih _ _ h]

theorem tokenize_heads (p : UInt8 → Bool) {text : Bytes}
    (h : looksUp p (headTokens p asciiTokens) text.length text = true) :
    tokenize text
      = rootToken :: tokenizeLoop (headTokens p asciiTokens) text.length ⟨0, 1, 1, [], 0, 0, 0⟩ text := by
  rw [tokenize, sTokens_ascii, tokenizeLoop_heads p _ _ _ h]

/-- A character that is no letter. -/
def isNoLetter (c : UInt8) : Bool := !((65 ≤ c && c ≤ 90) || (97 ≤ c && c ≤ 122))

mutual

/-- Whether two trees are the same. -/
def Node.decEq : (m n : Node) → Decidable (m = n)
  | .token ts, .token ts' => decidable_of_iff (ts = ts') (by rw [Node.token.injEq])
  | .token _, .node .. => isFalse fun h => by cases h
  | .node .., .token _ => isFalse fun h => by cases h
  | .node kind line col childs, .node kind' line' col' childs' =>
    have := childsDecEq childs childs'
    decidable_of_iff (kind = kind' ∧ line = line' ∧ col = col' ∧ childs = childs') (by rw [Node.node.injEq])

def childsDecEq : (ms ns : List Node) → Decidable (ms = ns)
  | [], [] => isTrue rfl
  | [], _ :: _ => isFalse fun h => by cases h
  | _ :: _, [] => isFalse fun h => by cases h
  | m :: ms, n :: ns =>
    have := Node.decEq m n
    have := childsDecEq ms ns
    decidable_of_iff (m = n ∧ ms = ns) (by rw [List.cons.injEq])

end

instance : DecidableEq Node := Node.decEq

/-- The parse dereferenced a null token. -/
def Parsed.isNull : Parsed → Bool
  | .null => true
  | _ => false

/-- The parse returned a tree that passes a test. -/
def Parsed.isTree (test : RootNode → Bool) : Parsed → Bool
  | .ok r => test r
  | _ => false

theorem exists_of_isTree {res : Option Parsed} {test : RootNode → Bool}
    (h : res.any (·.isTree test) = true) : ∃ r, res = some (.ok r) ∧ test r = true := by
  match res, h with
  | some (.ok r), h => exact ⟨r, rfl, h⟩

/-! ## Null tokens -/

/-- **The parser returns a tree or reports an error, unless it comes to a state in which a null token is
dereferenced.** -/
theorem parse_total_iff (env : FanEnv) (markupLangs : List Bytes) (text : Bytes) :
    ((∃ r, parse env markupLangs text = some (.ok r)) ∨
      ∃ err, parse env markupLangs text = some (.error err)) ↔
    ∀ p, Reached env text p → ¬ NullAhead p := by
  obtain ⟨q, res, hrun, hq, hlast, hparse, huniq⟩ := parse_ends env markupLangs text
  rw [hparse]
  constructor
  · rintro hok p hp hnull
    cases huniq p hp (by simp [hnull.step env])
    rw [hnull.step env] at hlast
    cases hlast
    rcases hok with ⟨r, hr⟩ | ⟨err, herr⟩
    · cases hr
    · cases herr
  · intro hnever
    rcases hq.step_cases env (startable_tokenize text) with ⟨hnull, -⟩ | ⟨err, hstep⟩ |
      ⟨-, q', hstep, -⟩ | ⟨-, hstep⟩ | ⟨q', hstep, -⟩
    · exact absurd hnull (hnever q hrun)
    · rw [hstep] at hlast
      exact .inr ⟨err, hlast.symm⟩
    · rw [hstep] at hlast
      exact .inl ⟨_, hlast.symm⟩
    · rw [hstep] at hlast
      exact .inl ⟨_, hlast.symm⟩
    · rw [hstep] at hlast
      cases hlast

set_option maxRecDepth 20000 in
/-- `@:+` is an output whose expression ends with an operator. -/
theorem parse_operator_at_end :
    ¬ ((∃ r, parse blankTrim [] (bytes "@:+") = some (.ok r)) ∨
      ∃ err, parse blankTrim [] (bytes "@:+") = some (.error err)) := by
  have htokens : tokenize (bytes "@:+") = atTemplate (bytes "@:") 43 :=
    tokenize_at (bytes ":+") (by decide) (by decide)
  have hnull : (parse blankTrim [] (bytes "@:+")).any (·.isNull) = true := by
    rw [parse, htokens]
    decide
  rintro (⟨r, hr⟩ | ⟨err, herr⟩)
  · rw [hr] at hnull
    cases hnull
  · rw [herr] at hnull
    cases hnull

/-! ## Lost tokens -/

/-- The tokens of a template, without the one that every list begins with, all have a text. -/
theorem solid_tokenize (text : Bytes) : solid (tokenize text) = (tokenize text).tail :=
  List.filter_eq_self.2 fun t ht => decide_eq_true (tokenize_ne text t ht)

/-- **A tree has the text and the tokens of the template, unless the parser comes to a state in which a
comment or an asynchronous call runs out of tokens.** -/
theorem parse_lossless_iff (env : FanEnv) (markupLangs : List Bytes) (text : Bytes) (r : RootNode)
    (h : parse env markupLangs text = some (.ok r)) :
    (r.text = text ∧ solid r.tokens = (tokenize text).tail) ↔
      ∀ p, Reached env text p → ¬ RunsOut p := by
  obtain ⟨q, res, hrun, hq, hlast, hparse, huniq⟩ := parse_ends env markupLangs text
  cases hparse.symm.trans h
  constructor
  · rintro ⟨htext, -⟩ p hp hout
    cases huniq p hp (by simp [hout.step env])
    rw [hout.step env] at hlast
    cases hlast
    refine hout.lost (startable_tokenize text) hq ?_
    rw [RootNode.text, Node.text_eq, tokens_closeAll] at htext
    rw [text_tokenize]
    exact htext
  · intro hnever
    have hwhole : solid r.tokens = solid (tokenize text) := by
      rcases hq.step_cases env (startable_tokenize text) with ⟨-, hstep⟩ | ⟨err, hstep⟩ |
        ⟨-, q', hstep, htree⟩ | ⟨hout, -⟩ | ⟨q', hstep, -⟩
      · rw [hstep] at hlast
        cases hlast
      · rw [hstep] at hlast
        cases hlast
      · rw [hstep] at hlast
        cases hlast
        rw [RootNode.tokens, tokens_closeAll]
        exact htree
      · exact absurd hout (hnever q hrun)
      · rw [hstep] at hlast
        cases hlast
    refine ⟨?_, hwhole.trans (solid_tokenize text)⟩
    rw [RootNode.text, Node.text_eq, ← listText_solid]
    rw [RootNode.tokens] at hwhole
    rw [hwhole, listText_solid, text_tokenize]

set_option maxRecDepth 20000 in
/-- `@scripts@` is a key with an `@` behind it. -/
theorem parse_lossless_key :
    ∃ r, parse blankTrim [] (bytes "@scripts@") = some (.ok r) ∧
      ((r.text = bytes "@scripts@" ∧ solid r.tokens = (tokenize (bytes "@scripts@")).tail) ↔
        ∀ p, Reached blankTrim (bytes "@scripts@") p → ¬ RunsOut p) := by
  have htokens : tokenize (bytes "@scripts@") = atTemplate (bytes "@scripts") 64 :=
    tokenize_at (bytes "scripts@") (by decide) (by decide)
  have htree : (parse blankTrim [] (bytes "@scripts@")).any (·.isTree fun _ => true) = true := by
    rw [parse, htokens]
    decide
  obtain ⟨r, hr, -⟩ := exists_of_isTree htree
  exact ⟨r, hr, parse_lossless_iff blankTrim [] (bytes "@scripts@") r hr⟩

set_option maxRecDepth 20000 in
/-- `@*a` is a comment that is not closed: its text is not in the tree. -/
theorem parse_comment_lost :
    ∃ r, parse blankTrim [] (bytes "@*a") = some (.ok r) ∧
      ¬ (r.text = bytes "@*a" ∧ solid r.tokens = (tokenize (bytes "@*a")).tail) := by
  have htokens : tokenize (bytes "@*a") = atTemplate (bytes "@*") 97 :=
    tokenize_at (bytes "*a") (by decide) (by decide)
  have htree : (parse blankTrim [] (bytes "@*a")).any (·.isTree fun r => r.text = bytes "@*") = true := by
    rw [parse, htokens]
    decide
  obtain ⟨r, hr, htext⟩ := exists_of_isTree htree
  refine ⟨r, hr, fun h => ?_⟩
  rw [of_decide_eq_true htext] at h
  exact absurd h.1 (by decide)

end Fanjet

end LibEvmvc
