import LibEvmvc.Foundation.Returns
import LibEvmvc.Fanjet.NodeEnds
import LibEvmvc.Fanjet.OrderlyActions

set_option autoImplicit false

/-! # The nodes below the one that is read

A round takes at most one node away from those below the one that is read, and an expression among them stays
as it is until what is in it is closed (`Steps.frame`). How a node goes on does not depend on those further
below, nor on what has been read (`Alike`). -/

namespace LibEvmvc

namespace Fanjet

/-- The node that has `n` nodes below it is closed, and its parent goes on at `r`. -/
def ClosesTo (env : FanEnv) (n : Nat) : Parsing → Parsing → Prop :=
  ReturnsTo (Steps env) (fun p => p.below.length) n

section Frames

variable {env : FanEnv} {p q r : Parsing} {X : OpenNode} {B : List OpenNode} {type : ExprType} {n : Nat}

/-- Only the nearest node below changes or is taken away. -/
theorem act_tail {a : Action} (h : act p a = .go q) : p.below.tail <:+ q.below := by
  induction a generalizing p with
  | attach a ih => exact (ih h :)
  | next a ih =>
    rw [act] at h
    split at h
    · cases h
    · exact (ih h :)
  | set kind a ih => exact (ih h :)
  | dbg line col a ih => exact (ih h :)
  | setParent kind a ih =>
    rw [act] at h
    split at h
    · cases h
    · next n below hbelow =>
      rw [hbelow]
      exact (ih h :)
  | loop =>
    cases h
    exact List.tail_suffix p.below
  | openScope kind hup =>
    rw [act] at h
    split at h
    · cases h
    · split at h
      · cases h
        exact (List.tail_suffix p.below).trans (List.suffix_cons _ _)
      · cases h
  | openBoth kind inner hup =>
    rw [act] at h
    split at h
    · cases h
    · cases h
    · split at h
      · cases h
        exact ((List.tail_suffix p.below).trans (List.suffix_cons _ _)).trans (List.suffix_cons _ _)
      · cases h
  | passUp =>
    rw [act] at h
    split at h
    · cases h
    · next n below hbelow =>
      cases h
      rw [hbelow]
      exact List.suffix_refl below
  | finish => cases h
  | fail err => cases h
  | null => cases h

/-- A round takes one node away at most. -/
theorem Steps.depth (h : Steps env p q) : p.below.length ≤ q.below.length + 1 := by
  have hlen := (act_tail h).length_le
  rw [List.length_tail] at hlen
  omega

/-- An expression that the node is in stays as it is, or goes on. -/
theorem act_frame {a : Action} {parent : Option NodeKind} (ha : a.Orderly parent p.cur)
    (hparent : parent = some (.expr type)) (hX : X.kind = .expr type) (hbelow : p.below = X :: B)
    (h : act p a = .go q) : X :: B <:+ q.below ∨ (q.below = B ∧ q.top.kind = .expr type) := by
  induction a generalizing p with
  | attach a ih => exact @ih { p with top := p.top.addToken p.pre, pre := [] } ha hbelow h
  | next a ih =>
    rw [act] at h
    split at h
    · cases h
    · next t rest hcur =>
      have htail : a.Orderly parent p.cur.tail := ha
      rw [hcur] at htail
      exact @ih { p with pre := p.pre ++ [t], cur := rest } htail hbelow h
  | set kind a ih => exact @ih { p with top := { p.top with kind } } ha.2 hbelow h
  | dbg line col a ih => exact @ih { p with top := { p.top with dbgLine := line, dbgCol := col } } ha hbelow h
  | setParent kind a ih => exact absurd hparent (ha.2.1 type)
  | loop =>
    cases h
    exact .inl (hbelow ▸ List.suffix_refl _)
  | openScope kind hup =>
    rw [act] at h
    split at h
    · cases h
    · split at h
      · cases h
        left
        rw [← hbelow]
        exact List.suffix_cons _ _
      · cases h
  | openBoth kind inner hup =>
    rw [act] at h
    split at h
    · cases h
    · cases h
    · split at h
      · cases h
        left
        rw [← hbelow]
        exact (List.suffix_cons _ _).trans (List.suffix_cons _ _)
      · cases h
  | passUp =>
    rw [act, hbelow] at h
    cases h
    exact .inr ⟨rfl, hX⟩
  | finish => cases h
  | fail err => cases h
  | null => cases h

theorem Steps.frame (hX : X.kind = .expr type) (hp : X :: B <:+ p.below) (h : Steps env p q) :
    X :: B <:+ q.below ∨ (q.below = B ∧ q.top.kind = .expr type) := by
  rcases hp with ⟨_ | ⟨Y, above⟩, hbelow⟩
  · have horderly := parseAction_orderly env p
    rw [← hbelow] at horderly
    exact act_frame horderly (by rw [← hX]; rfl) hX hbelow.symm h
  · left
    refine List.IsSuffix.trans ?_ (act_tail h)
    rw [← hbelow]
    exact List.suffix_append above (X :: B)

theorem ClosesTo.cur (h : ClosesTo env n p r) : r.cur <:+ p.cur := by
  induction h with
  | last hstep _ => exact hstep.cur
  | step hstep _ _ ih => exact ih.trans hstep.cur

/-- What is in an expression is closed, and the expression goes on. -/
theorem ClosesTo.at_expr (h : ClosesTo env (B.length + 1) p r) (hX : X.kind = .expr type)
    (hp : X :: B <:+ p.below) : r.At (.expr type) B r.cur := by
  have hframe (p q : Parsing) (hp : X :: B <:+ p.below) (h : Steps env p q) := Steps.frame hX hp h
  refine ReturnsTo.preserves (P := fun q => X :: B <:+ q.below) (Q := fun q => q.At (.expr type) B q.cur) (fun p q hp h hdepth => ?_) (fun p q hp h hdepth => ?_) h hp
  · refine (hframe p q hp h).resolve_right fun hback => ?_
    rw [hback.1] at hdepth
    exact Nat.not_succ_le_self _ hdepth
  · have hback := (hframe p q hp h).resolve_left fun hsuffix => ?_
    · exact ⟨hback.2, hback.1, rfl⟩
    · exact absurd hsuffix.length_le (Nat.not_le.2 hdepth)

end Frames

/-! ## Parses that go on alike -/

/-- Above the nodes `fs` and `fs'`, the parsers are at the same tokens in nodes of the same kinds. -/
structure Alike (fs fs' : List OpenNode) (p p' : Parsing) : Prop where
  kind : p'.top.kind = p.top.kind
  cur : p'.cur = p.cur
  entry : p'.entry = p.entry
  below : ∃ bs bs', p.below = bs ++ fs ∧ p'.below = bs' ++ fs' ∧ bs'.map OpenNode.kind = bs.map OpenNode.kind

/-- The action without the line it notes, and an error without its text. -/
def Action.core : Action → Action
  | .dbg _ _ a => a.core
  | .fail _ => .null
  | a => a

section Alike

variable {env : FanEnv} {fs fs' : List OpenNode} {p p' q : Parsing}

theorem Alike.opened (h : Alike fs fs' p p') (kind : NodeKind) (hup : Nat) :
    Alike fs fs' (p.open kind hup) (p'.open kind hup) := by
  obtain ⟨bs, bs', hbelow, hbelow', hkinds⟩ := h.below
  constructor
  · simp only [Parsing.open, OpenNode.kind_addToken]
  · simp only [Parsing.open, h.cur]
  · rfl
  · refine ⟨p.top.addToken p.pre :: bs, p'.top.addToken p'.pre :: bs', ?_, ?_, ?_⟩
    · rw [Parsing.open, hbelow]
      rfl
    · rw [Parsing.open, hbelow']
      rfl
    · rw [List.map_cons, List.map_cons, OpenNode.kind_addToken, OpenNode.kind_addToken, h.kind, hkinds]

/-- The nearest node below. -/
theorem Alike.parent (h : Alike fs fs' p p') (hdeep : fs.length < p.below.length) :
    ∃ n n' bs bs', p.below = n :: (bs ++ fs) ∧ p'.below = n' :: (bs' ++ fs') ∧ n'.kind = n.kind ∧
      bs'.map OpenNode.kind = bs.map OpenNode.kind := by
  obtain ⟨bs, bs', hbelow, hbelow', hkinds⟩ := h.below
  cases bs with
  | nil =>
    rw [hbelow] at hdeep
    exact absurd hdeep (Nat.lt_irrefl _)
  | cons n bs =>
    cases bs' with
    | nil => cases hkinds
    | cons n' bs' =>
      obtain ⟨hkind, hkinds⟩ := List.cons.inj hkinds
      exact ⟨n, n', bs, bs', hbelow, hbelow', hkind, hkinds⟩

/-- The same action in parses that are alike. -/
theorem Alike.act {a : Action} (h : Alike fs fs' p p') (hdeep : fs.length < p.below.length)
    (hgo : Fanjet.act p a = .go q) : ∃ q', Fanjet.act p' a = .go q' ∧ Alike fs fs' q q' := by
  induction a generalizing p p' with
  | attach a ih =>
    refine @ih { p with top := p.top.addToken p.pre, pre := [] }
      { p' with top := p'.top.addToken p'.pre, pre := [] } ⟨?_, h.cur, h.entry, h.below⟩ hdeep hgo
    rw [OpenNode.kind_addToken, OpenNode.kind_addToken]
    exact h.kind
  | next a ih =>
    rw [Fanjet.act] at hgo ⊢
    rw [h.cur]
    cases hcur : p.cur with
    | nil =>
      rw [hcur] at hgo
      cases hgo
    | cons t rest =>
      rw [hcur] at hgo
      exact @ih { p with pre := p.pre ++ [t], cur := rest } { p' with pre := p'.pre ++ [t], cur := rest }
        ⟨h.kind, rfl, h.entry, h.below⟩ hdeep hgo
  | set kind a ih =>
    exact @ih { p with top := { p.top with kind } } { p' with top := { p'.top with kind } }
      ⟨rfl, h.cur, h.entry, h.below⟩ hdeep hgo
  | dbg line col a ih =>
    exact @ih { p with top := { p.top with dbgLine := line, dbgCol := col } }
      { p' with top := { p'.top with dbgLine := line, dbgCol := col } } ⟨h.kind, h.cur, h.entry, h.below⟩
      hdeep hgo
  | setParent kind a ih =>
    obtain ⟨n, n', bs, bs', hbelow, hbelow', -, hkinds⟩ := h.parent hdeep
    rw [Fanjet.act, hbelow] at hgo
    rw [Fanjet.act, hbelow']
    refine @ih { p with below := { n with kind } :: (bs ++ fs) }
      { p' with below := { n' with kind } :: (bs' ++ fs') } ⟨h.kind, h.cur, h.entry, ?_⟩ ?_ hgo
    · exact ⟨{ n with kind } :: bs, { n' with kind } :: bs', rfl, rfl, congrArg (kind :: ·) hkinds⟩
    · rw [hbelow] at hdeep
      exact hdeep
  | loop =>
    cases hgo
    exact ⟨_, rfl, h.kind, h.cur, rfl, h.below⟩
  | openScope kind hup =>
    rw [Fanjet.act] at hgo ⊢
    rw [h.cur]
    split at hgo
    · cases hgo
    · next t rest hcur =>
      split at hgo
      · next hlen =>
        cases hgo
        refine ⟨_, ?_, h.opened kind hup⟩
        rw [hcur] at hlen ⊢
        exact if_pos hlen
      · cases hgo
  | openBoth kind inner hup =>
    rw [Fanjet.act] at hgo ⊢
    rw [h.cur]
    split at hgo
    · cases hgo
    · cases hgo
    · next u t rest hcur =>
      split at hgo
      · next hlen =>
        cases hgo
        exact ⟨_, if_pos hlen, (h.opened kind 1).opened inner hup⟩
      · cases hgo
  | passUp =>
    obtain ⟨n, n', bs, bs', hbelow, hbelow', hkind, hkinds⟩ := h.parent hdeep
    rw [Fanjet.act, hbelow] at hgo
    rw [Fanjet.act, hbelow']
    cases hgo
    exact ⟨_, rfl, hkind, h.cur, rfl, bs, bs', rfl, rfl, hkinds⟩
  | finish => cases hgo
  | fail err => cases hgo
  | null => cases hgo

/-- The line an action notes is in the node only. -/
theorem act_core (a : Action) (p : Parsing) :
    ∃ line col, ∀ q, Fanjet.act p a = .go q ↔
      Fanjet.act { p with top := { p.top with dbgLine := line, dbgCol := col } } a.core = .go q := by
  induction a generalizing p with
  | dbg line col a ih =>
    obtain ⟨line', col', heq⟩ := ih { p with top := { p.top with dbgLine := line, dbgCol := col } }
    exact ⟨line', col', heq⟩
  | fail err => exact ⟨0, 0, fun q => ⟨fun h => (by cases h), fun h => (by cases h)⟩⟩
  | _ => exact ⟨p.top.dbgLine, p.top.dbgCol, fun q => Iff.rfl⟩

theorem core_entered {entry : Bool} {n n' : OpenNode} {t : Token} {rest : List Token}
    {body : OpenNode → Action} (hkind : n'.kind = n.kind)
    (hbody : ∀ m m' : OpenNode, m'.kind = m.kind → (body m').core = (body m).core) :
    (entered entry n' (t :: rest) body).core = (entered entry n (t :: rest) body).core := by
  have hsame (m : OpenNode) (hm : m.kind = n.kind) :
      (entered entry m (t :: rest) body).core = (body n).core := by
    unfold entered
    split
    · exact hbody n { m with dbgLine := t.line, dbgCol := t.col } hm
    · exact hbody n m hm
  rw [hsame n' hkind, hsame n rfl]

/-- At a token, what a parser does depends on the kinds of its node and of the parent only. -/
theorem core_parseAction {t : Token} {rest : List Token} (hkind : p'.top.kind = p.top.kind)
    (hcur : p.cur = t :: rest) (hcur' : p'.cur = p.cur) (hentry : p'.entry = p.entry)
    (hparent : p'.below.head?.map OpenNode.kind = p.below.head?.map OpenNode.kind) :
    (parseAction env p').core = (parseAction env p).core := by
  rw [hcur] at hcur'
  unfold parseAction
  rw [hparent, hcur, hcur', hentry, hkind]
  cases p.top.kind with
  | literal sec lang braces => rfl
  | expr type => exact core_entered hkind fun m m' hm => by rw [hm]
  | string enclosing escape => exact core_entered hkind fun m m' hm => rfl
  | directive sec done =>
    refine core_entered hkind fun m m' hm => ?_
    split
    · rfl
    · rfl
  | comment sec => rfl
  | output sec done =>
    dsimp only
    unfold outputParse
    split
    · rfl
    · exact core_entered hkind fun m m' hm => rfl
  | codeBlock => exact core_entered hkind fun m m' hm => by rw [hm]
  | codeControl cn =>
    dsimp only
    unfold codeControlParse
    split
    · rfl
    · exact core_entered hkind fun m m' hm => rfl
  | codeErr en =>
    dsimp only
    unfold codeErrParse
    split
    · rfl
    · exact core_entered hkind fun m m' hm => rfl
  | codeFun sec done =>
    dsimp only
    unfold codeFunParse
    split
    · rfl
    · exact core_entered hkind fun m m' hm => rfl
  | codeAsync an =>
    dsimp only
    unfold codeAsyncParse
    split
    · rfl
    · exact core_entered hkind fun m m' hm => rfl
  | fanKey sec => rfl
  | fanFn sec done =>
    dsimp only
    unfold fanFnParse
    split
    · rfl
    · exact core_entered hkind fun m m' hm => rfl
  | tag tn => exact core_entered hkind fun m m' hm => by rw [hm]

/-- A round of parses that are alike. -/
theorem Alike.step (h : Alike fs fs' p p') (hdeep : fs.length < p.below.length) (hcur : p.cur ≠ [])
    (hstep : Steps env p q) : ∃ q', Steps env p' q' ∧ Alike fs fs' q q' := by
  obtain ⟨t, rest, hts⟩ := List.exists_cons_of_ne_nil hcur
  have hparent : p'.below.head?.map OpenNode.kind = p.below.head?.map OpenNode.kind := by
    obtain ⟨n, n', bs, bs', hbelow, hbelow', hkind, -⟩ := h.parent hdeep
    rw [hbelow, hbelow']
    exact congrArg some hkind
  have hcore : (parseAction env p').core = (parseAction env p).core :=
    core_parseAction h.kind hts h.cur h.entry hparent
  obtain ⟨line, col, hgo⟩ := act_core (parseAction env p) p
  obtain ⟨line', col', hgo'⟩ := act_core (parseAction env p') p'
  have hlines : Alike fs fs' { p with top := { p.top with dbgLine := line, dbgCol := col } }
      { p' with top := { p'.top with dbgLine := line', dbgCol := col' } } :=
    ⟨h.kind, h.cur, h.entry, h.below⟩
  obtain ⟨q', hq', halike⟩ := hlines.act hdeep ((hgo q).1 hstep)
  rw [← hcore] at hq'
  exact ⟨q', (hgo' q').2 hq', halike⟩

/-- How far below the parsers are. -/
theorem Alike.depth (h : Alike fs fs' p p') : p.below.length + fs'.length = p'.below.length + fs.length := by
  obtain ⟨bs, bs', hbelow, hbelow', hkinds⟩ := h.below
  have hlen := congrArg List.length hkinds
  rw [List.length_map, List.length_map] at hlen
  rw [hbelow, hbelow', List.length_append, List.length_append]
  omega

/-- **Where a node is closed does not depend on the nodes further below.** -/
theorem Alike.closes (h : Alike fs fs' p p') (hdeep : fs.length < p.below.length) {r : Parsing}
    (hr : r.cur ≠ []) (hcloses : ClosesTo env (fs.length + 1) p r) :
    ∃ r', ClosesTo env (fs'.length + 1) p' r' ∧ r'.cur = r.cur := by
  have hcur {p q : Parsing} (hsuffix : q.cur <:+ p.cur) (hq : q.cur ≠ []) : p.cur ≠ [] := by
    intro hnil
    rw [hnil] at hsuffix
    exact hq (List.suffix_nil.1 hsuffix)
  induction hcloses generalizing p' with
  | @last p r hstep hdepth =>
    obtain ⟨r', hstep', halike⟩ := h.step hdeep (hcur hstep.cur hr) hstep
    have := halike.depth
    exact ⟨r', .last hstep' (by omega), halike.cur⟩
  | @step p q r hstep hdepth hrest ih =>
    have hq : q.cur ≠ [] := hcur (ClosesTo.cur hrest) hr
    obtain ⟨q', hstep', halike⟩ := h.step hdeep (hcur hstep.cur hq) hstep
    obtain ⟨r', hcloses, hend⟩ := ih halike hdepth hr
    have := halike.depth
    exact ⟨r', .step hstep' (by omega) hcloses, hend⟩

theorem Alike.symm (h : Alike fs fs' p p') : Alike fs' fs p' p := by
  obtain ⟨bs, bs', hbelow, hbelow', hkinds⟩ := h.below
  exact ⟨h.kind.symm, h.cur.symm, h.entry.symm, bs', bs, hbelow', hbelow, hkinds.symm⟩

end Alike

end Fanjet

end LibEvmvc
