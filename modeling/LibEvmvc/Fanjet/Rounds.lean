import LibEvmvc.Fanjet.Parser

set_option autoImplicit false

/-! # What a round of a parser can do

`Good` is what all rounds have in common that neither end the parse nor dereference a null token: they
go on by a token at least, open a node only at a token, and close any node but the literal at the top.
`Good.leads` says what follows for the parse as a whole: it comes nearer to its end, and what holds of
every parse in progress (`ParseInv`) holds again. -/

namespace LibEvmvc

namespace Fanjet

/-! ## The invariant -/

def NodeKind.isComment : NodeKind → Bool
  | .comment _ => true
  | _ => false

def NodeKind.isKey : NodeKind → Bool
  | .fanKey _ => true
  | _ => false

/-- The parser does not set `_dbg_line` when it is called without a token. -/
def NodeKind.skipsDbg : NodeKind → Bool
  | .literal .. => true
  | .comment _ => true
  | .fanKey _ => true
  | .output _ done => done
  | .fanFn _ done => done
  | _ => false

/-- The parser has been called for the node, or needs no `_dbg_line`. -/
def OpenNode.Entered (n : OpenNode) : Prop := n.dbgLine ≠ 0 ∨ n.kind.skipsDbg = true

/-- The members of a node change. -/
structure NodeKind.Keeps (k k' : NodeKind) : Prop where
  literalSec : k'.isLiteralSec = k.isLiteralSec
  comment : k'.isComment = k.isComment
  skipsDbg : k.skipsDbg = true → k'.skipsDbg = true

/-- A node that is neither the literal at the top, nor a comment, nor a key. -/
structure NodeKind.Inner (k : NodeKind) : Prop where
  literalSec : k.isLiteralSec = false
  comment : k.isComment = false
  key : k.isKey = false

/-- The members of the outermost node. -/
def outermost (k : NodeKind) : List OpenNode → NodeKind
  | [] => k
  | n :: ns => outermost n.kind ns

/-- What holds in the middle of a round: the tokens `T` have been taken apart from the front, the
    outermost node is a literal and no comment has children. -/
structure RoundInv (T : List Token) (p : Parsing) : Prop where
  tokens : solid p.tokens = solid T
  suffix : p.pre ++ p.cur <:+ T
  nested : p.below ≠ [] → p.pre ++ p.cur <:+ T.drop 2
  outermost : (outermost p.top.kind p.below).isLiteralSec = true
  comments : ∀ n ∈ p.below, n.kind.isComment = false
  belowEntered : ∀ n ∈ p.below, n.Entered

/-- What holds of a parse in progress: a parser that is in its loop has tokens, and so has one that reads
    a comment; one that has just begun has no tokens behind it. -/
structure ParseInv (T : List Token) (p : Parsing) : Prop extends RoundInv T p where
  hasTokens : p.entry = false ∨ p.top.kind.isComment = true → p.pre ++ p.cur ≠ []
  topEntered : p.entry = false ∨ p.cur = [] → p.top.Entered
  clean : p.entry = true ∨ p.top.kind.isKey = true → p.pre = []

/-- The tokens a parse can start with. -/
structure Startable (T : List Token) : Prop where
  head : ∃ rest, T = rootToken :: rest
  ne : ∀ t ∈ T.tail, t.text ≠ []
  line : ∀ t ∈ T.drop 2, 1 ≤ t.line

/-! ## Good rounds -/

/-- What a round depends on: the tokens to come, whether it has gone on by one, whether there are tokens
    behind it, whether the node is entered, its members and those of the parent. -/
structure Round where
  cur : List Token
  moved : Bool
  kept : Bool
  ent : Bool
  kind : NodeKind
  parent : Option NodeKind

/-- A node may be opened. The first token of all opens none. -/
def Round.CanOpen (r : Round) : Prop :=
  r.ent = true ∧ r.kind.isComment = false ∧
    ∃ t rest, r.cur = t :: rest ∧ (r.kind.isLiteralSec = true → t.text ≠ [])

/-- The action is one of a round that goes on. -/
def Action.Good : Round → Action → Prop
  | r, .attach a => a.Good { r with kept := false }
  | r, .next a =>
    match r.cur with
    | [] => False
    | _ :: rest => a.Good { r with cur := rest, moved := true, kept := true }
  | r, .set kind a => r.kind.Keeps kind ∧ a.Good { r with kind }
  | r, .dbg line _ a =>
    r.parent ≠ none ∧ (∃ t rest, r.cur = t :: rest ∧ line = t.line) ∧ a.Good { r with ent := true }
  | r, .setParent kind a => ∃ q, r.parent = some q ∧ q.Keeps kind ∧ a.Good { r with parent := some kind }
  | r, .loop => r.moved = true ∧ r.ent = true ∧ (r.kept = true ∨ r.cur ≠ []) ∧ r.kind.isKey = false
  | r, .openScope _ hup => 1 ≤ hup ∧ r.CanOpen
  | r, .openBoth kind _ _ => kind.skipsDbg = true ∧ kind.isComment = false ∧ r.CanOpen
  | r, .passUp => r.kind.isLiteralSec = false ∧ r.kept = false
  | _, .finish => False
  | _, .fail _ => True
  | _, .null => False

section Act

variable {T : List Token}

/-- The round a parse in progress is in, `bound` being its size at the beginning. -/
structure Round.Of (r : Round) (p : Parsing) (bound : Nat) : Prop where
  cur : r.cur = p.cur
  size : p.size ≤ bound
  moved : r.moved = true → p.size < bound
  kept : r.kept = true ↔ p.pre ≠ []
  ent : r.ent = true → p.top.Entered
  kind : r.kind = p.top.kind
  parent : r.parent = p.below.head?.map OpenNode.kind

/-- In a node below the literal at the top, all tokens have a line. -/
theorem RoundInv.line_pos {p : Parsing} (h : RoundInv T p) (hT : Startable T) (hbelow : p.below ≠ [])
    {t : Token} (ht : t ∈ p.cur) : t.line ≠ 0 := by
  have hmem := (h.nested hbelow).subset (List.mem_append_right p.pre ht)
  have hline := hT.line t hmem
  omega

/-- A token with a text is not the first one. -/
theorem Startable.drop_two (hT : Startable T) {t : Token} {rest : List Token} (h : t :: rest <:+ T)
    (hne : t.text ≠ []) : rest <:+ T.drop 2 := by
  obtain ⟨ts, rfl⟩ := hT.head
  have htail : t :: rest <:+ ts := by
    rcases List.suffix_cons_iff.1 h with heq | htail
    · cases heq
      exact absurd rfl hne
    · exact htail
  obtain ⟨front, rfl⟩ := htail
  match front with
  | [] => exact List.suffix_refl _
  | f :: front =>
    refine ⟨front ++ [t], ?_⟩
    rw [List.append_assoc]
    rfl

@[simp] theorem OpenNode.kind_addToken (n : OpenNode) (ts : List Token) : (n.addToken ts).kind = n.kind := by
  unfold OpenNode.addToken
  split <;> rfl

@[simp] theorem OpenNode.dbgLine_addToken (n : OpenNode) (ts : List Token) :
    (n.addToken ts).dbgLine = n.dbgLine := by
  unfold OpenNode.addToken
  split <;> rfl

theorem OpenNode.entered_addToken {n : OpenNode} {ts : List Token} (h : n.Entered) :
    (n.addToken ts).Entered := by
  unfold OpenNode.Entered at h ⊢
  rw [OpenNode.kind_addToken, OpenNode.dbgLine_addToken]
  exact h

/-- Opening a node keeps the invariant. -/
theorem RoundInv.open {p : Parsing} (h : RoundInv T p) (hent : p.top.Entered)
    (hcomment : p.top.kind.isComment = false) (kind : NodeKind) {hup : Nat}
    (hnested : p.cur.drop hup <:+ T.drop 2) : RoundInv T (p.open kind hup) := by
  constructor
  · rw [p.tokens_open]
    exact h.tokens
  · exact hnested.trans (List.drop_suffix 2 T)
  · exact fun _ => hnested
  · show (Fanjet.outermost (p.top.addToken p.pre).kind p.below).isLiteralSec = true
    rw [OpenNode.kind_addToken]
    exact h.outermost
  · intro n hn
    rcases List.mem_cons.1 hn with rfl | hn
    · rw [OpenNode.kind_addToken]
      exact hcomment
    · exact h.comments n hn
  · intro n hn
    rcases List.mem_cons.1 hn with rfl | hn
    · exact OpenNode.entered_addToken hent
    · exact h.belowEntered n hn

/-- Where a node may be opened, the tokens behind the next one are not the first two. -/
theorem RoundInv.drop_nested {p : Parsing} (h : RoundInv T p) (hT : Startable T) {t : Token}
    {rest : List Token} (hcur : p.cur = t :: rest)
    (hne : p.top.kind.isLiteralSec = true → t.text ≠ []) {hup : Nat} (hhup : 1 ≤ hup) :
    p.cur.drop hup <:+ T.drop 2 := by
  have hdrop : p.cur.drop hup <:+ rest := by
    rw [hcur]
    obtain ⟨k, rfl⟩ : ∃ k, hup = k + 1 := ⟨hup - 1, by omega⟩
    exact List.drop_suffix k rest
  refine hdrop.trans ?_
  by_cases hbelow : p.below = []
  · have hsec := h.outermost
    rw [hbelow] at hsec
    refine hT.drop_two ?_ (hne hsec)
    rw [← hcur]
    exact (List.suffix_append _ _).trans h.suffix
  · have hall := h.nested hbelow
    rw [hcur] at hall
    exact (List.suffix_cons t rest).trans ((List.suffix_append _ _).trans hall)

theorem RoundInv.attach {p : Parsing} (h : RoundInv T p) :
    RoundInv T { p with top := p.top.addToken p.pre, pre := [] } where
  tokens := (act_tokens (.attach .finish) p rfl).trans h.tokens
  suffix := (List.suffix_append _ _).trans h.suffix
  nested hbelow := (List.suffix_append _ _).trans (h.nested hbelow)
  outermost := by
    show (Fanjet.outermost (p.top.addToken p.pre).kind p.below).isLiteralSec = true
    rw [OpenNode.kind_addToken]
    exact h.outermost
  comments := h.comments
  belowEntered := h.belowEntered

theorem RoundInv.next {p : Parsing} (h : RoundInv T p) {t : Token} {rest : List Token}
    (hcur : p.cur = t :: rest) : RoundInv T { p with pre := p.pre ++ [t], cur := rest } := by
  have hpre : p.pre ++ [t] ++ rest = p.pre ++ p.cur := by
    rw [hcur, List.append_assoc]
    rfl
  constructor
  · have htokens := h.tokens
    unfold Parsing.tokens at htokens ⊢
    rw [← hpre] at htokens
    exact htokens
  · show p.pre ++ [t] ++ rest <:+ T
    rw [hpre]
    exact h.suffix
  · intro hbelow
    show p.pre ++ [t] ++ rest <:+ T.drop 2
    rw [hpre]
    exact h.nested hbelow
  · exact h.outermost
  · exact h.comments
  · exact h.belowEntered

theorem RoundInv.set {p : Parsing} (h : RoundInv T p) {kind : NodeKind} (hkeeps : p.top.kind.Keeps kind)
    (dbgLine dbgCol : Nat) :
    RoundInv T { p with top := { p.top with kind, dbgLine, dbgCol } } where
  tokens := h.tokens
  suffix := h.suffix
  nested := h.nested
  outermost := by
    have hsec := h.outermost
    show (Fanjet.outermost kind p.below).isLiteralSec = true
    cases hbelow : p.below with
    | nil =>
      rw [hbelow] at hsec
      exact hkeeps.literalSec.trans hsec
    | cons n below =>
      rw [hbelow] at hsec
      exact hsec
  comments := h.comments
  belowEntered := h.belowEntered

theorem NodeKind.Keeps.refl (k : NodeKind) : k.Keeps k := ⟨rfl, rfl, id⟩

theorem NodeKind.Inner.keeps {k k' : NodeKind} (h : k.Inner) (h' : k'.Inner)
    (hskips : k.skipsDbg = true → k'.skipsDbg = true) : k.Keeps k' :=
  ⟨h'.literalSec.trans h.literalSec.symm, h'.comment.trans h.comment.symm, hskips⟩

theorem NodeKind.Keeps.entered {n : OpenNode} {kind : NodeKind} (h : n.kind.Keeps kind)
    (hent : n.Entered) : ({ n with kind } : OpenNode).Entered := by
  rcases hent with hdbg | hskips
  · exact .inl hdbg
  · exact .inr (h.skipsDbg hskips)

theorem RoundInv.setParent {p : Parsing} (h : RoundInv T p) {n : OpenNode} {below : List OpenNode}
    (hbelow : p.below = n :: below) {kind : NodeKind} (hkeeps : n.kind.Keeps kind) :
    RoundInv T { p with below := { n with kind } :: below } where
  tokens := by
    have htokens := h.tokens
    unfold Parsing.tokens Parsing.tree at htokens ⊢
    rw [hbelow] at htokens
    exact htokens
  suffix := h.suffix
  nested _ := h.nested (by rw [hbelow]; simp)
  outermost := by
    have hsec := h.outermost
    rw [hbelow] at hsec
    show (Fanjet.outermost kind below).isLiteralSec = true
    cases below with
    | nil => exact hkeeps.literalSec.trans hsec
    | cons n' below => exact hsec
  comments := by
    intro m hm
    rcases List.mem_cons.1 hm with rfl | hm
    · exact hkeeps.comment.trans (h.comments n (by rw [hbelow]; exact List.mem_cons_self ..))
    · exact h.comments m (by rw [hbelow]; exact List.mem_cons_of_mem _ hm)
  belowEntered := by
    intro m hm
    rcases List.mem_cons.1 hm with rfl | hm
    · exact hkeeps.entered (h.belowEntered n (by rw [hbelow]; exact List.mem_cons_self ..))
    · exact h.belowEntered m (by rw [hbelow]; exact List.mem_cons_of_mem _ hm)

/-- A node and one in it are opened. -/
theorem RoundInv.openBoth {p : Parsing} (h : RoundInv T p) (hT : Startable T) (hent : p.top.Entered)
    (hcomment : p.top.kind.isComment = false) {t : Token} {rest : List Token} (hcur : p.cur = t :: rest)
    (hne : p.top.kind.isLiteralSec = true → t.text ≠ []) {kind : NodeKind} (hskips : kind.skipsDbg = true)
    (hkind : kind.isComment = false) (inner : NodeKind) (hup : Nat) :
    RoundInv T ((p.open kind 1).open inner hup) := by
  have houter : RoundInv T (p.open kind 1) :=
    h.open hent hcomment kind (h.drop_nested hT hcur hne (Nat.le_refl 1))
  have hnested : (p.open kind 1).cur.drop hup <:+ T.drop 2 :=
    (List.drop_suffix hup _).trans (houter.nested (by simp [Parsing.open]))
  refine houter.open (.inr ?_) ?_ inner hnested
  · rw [Parsing.open, OpenNode.kind_addToken]
    exact hskips
  · rw [Parsing.open, OpenNode.kind_addToken]
    exact hkind

/-- A node goes back to its parent. -/
theorem RoundInv.passUp {p : Parsing} (h : RoundInv T p) {n : OpenNode} {below : List OpenNode}
    (hbelow : p.below = n :: below) :
    RoundInv T { p with top := { n with childs := n.childs ++ [p.top.toNode] }, below, entry := true } := by
  have hsub : ∀ m ∈ below, m ∈ p.below := by
    intro m hm
    rw [hbelow]
    exact List.mem_cons_of_mem _ hm
  constructor
  · exact (act_tokens .passUp p (by rw [Fanjet.act, hbelow]; rfl)).trans h.tokens
  · exact h.suffix
  · exact fun _ => h.nested (by rw [hbelow]; simp)
  · have hsec := h.outermost
    rw [hbelow] at hsec
    exact hsec
  · exact fun m hm => h.comments m (hsub m hm)
  · exact fun m hm => h.belowEntered m (hsub m hm)

/-- The parser reports an error, or the parse goes on and is nearer to its end. -/
def Outcome.Leads (T : List Token) (bound : Nat) (o : Outcome) : Prop :=
  (∃ err, o = .error err) ∨ ∃ q, o = .go q ∧ ParseInv T q ∧ q.size < bound

/-- A node that has just been opened, and has a token to look at. -/
theorem RoundInv.opened {p : Parsing} (h : RoundInv T p) (hentry : p.entry = true) (hpre : p.pre = [])
    (hcur : p.cur ≠ []) : ParseInv T p where
  toRoundInv := h
  hasTokens _ := by
    rw [hpre]
    exact hcur
  topEntered := by
    rintro (hno | hnil)
    · rw [hentry] at hno
      cases hno
    · exact absurd hnil hcur
  clean _ := hpre

section Parts

variable {r : Round} {p : Parsing} {bound : Nat}

theorem Round.Of.attach (hr : r.Of p bound) :
    Round.Of { r with kept := false } { p with top := p.top.addToken p.pre, pre := [] } bound where
  cur := hr.cur
  size := hr.size
  moved := hr.moved
  kept := by simp
  ent h := OpenNode.entered_addToken (hr.ent h)
  kind := by
    rw [OpenNode.kind_addToken]
    exact hr.kind
  parent := hr.parent

theorem Round.Of.next (hr : r.Of p bound) {t : Token} {rest : List Token} (hcur : p.cur = t :: rest) :
    Round.Of { r with cur := rest, moved := true, kept := true }
      { p with pre := p.pre ++ [t], cur := rest } bound := by
  have hsize : 4 * rest.length + 4 + p.below.length ≤ bound := by
    have h := hr.size
    rw [Parsing.size, hcur, List.length_cons] at h
    omega
  refine ⟨rfl, ?_, fun _ => ?_, by simp, hr.ent, hr.kind, hr.parent⟩
  · simp only [Parsing.size]
    omega
  · simp only [Parsing.size]
    omega

theorem Round.Of.setParent (hr : r.Of p bound) {n : OpenNode} {below : List OpenNode}
    (hbelow : p.below = n :: below) (kind : NodeKind) :
    Round.Of { r with parent := some kind } { p with below := { n with kind } :: below } bound := by
  have hsize : ({ p with below := { n with kind } :: below } : Parsing).size = p.size := by
    simp only [Parsing.size, hbelow, List.length_cons]
  exact ⟨hr.cur, hsize ▸ hr.size, hsize ▸ hr.moved, hr.kept, hr.ent, hr.kind, rfl⟩

theorem loop_leads (ha : Action.loop.Good r) (hp : RoundInv T p) (hr : r.Of p bound) :
    (act p .loop).Leads T bound := by
  obtain ⟨hmoved, hent, htokens, hkey⟩ := ha
  refine .inr ⟨_, rfl, {
    hp with
    hasTokens := fun _ => ?_
    topEntered := fun _ => hr.ent hent
    clean := ?_ }, hr.moved hmoved⟩
  · rw [ne_eq, List.append_eq_nil_iff, not_and_or]
    rcases htokens with hkept | hcur
    · exact .inl (hr.kept.1 hkept)
    · exact .inr (by rw [← hr.cur]; exact hcur)
  · rintro (h | h)
    · cases h
    · rw [hr.kind] at hkey
      exact absurd (h.symm.trans hkey) (by simp)

theorem openScope_leads {kind : NodeKind} {hup : Nat} (ha : (Action.openScope kind hup).Good r)
    (hT : Startable T) (hp : RoundInv T p) (hr : r.Of p bound) :
    (act p (.openScope kind hup)).Leads T bound := by
  obtain ⟨hhup, hent, hcomment, t, rest, hcur, hne⟩ := ha
  rw [hr.cur] at hcur
  rw [hr.kind] at hcomment hne
  rw [act, hcur]
  simp only
  split
  · next hlen =>
    have hopen : RoundInv T (p.open kind hup) :=
      hp.open (hr.ent hent) hcomment kind (hp.drop_nested hT hcur hne hhup)
    have hcur' : (p.open kind hup).cur ≠ [] := by
      intro hnil
      have := List.drop_eq_nil_iff.1 hnil
      rw [hcur] at this
      omega
    refine .inr ⟨_, rfl, hopen.opened rfl rfl hcur', ?_⟩
    have hsize := hr.size
    simp only [Parsing.size, Parsing.open, List.length_drop, List.length_cons, hcur] at hsize hlen ⊢
    omega
  · exact .inl ⟨_, rfl⟩

theorem openBoth_leads {kind inner : NodeKind} {hup : Nat} (ha : (Action.openBoth kind inner hup).Good r)
    (hT : Startable T) (hp : RoundInv T p) (hr : r.Of p bound) :
    (act p (.openBoth kind inner hup)).Leads T bound := by
  obtain ⟨hskips, hkind, hent, hcomment, t, rest, hcur, hne⟩ := ha
  rw [hr.cur] at hcur
  rw [hr.kind] at hcomment hne
  rw [act, hcur]
  cases rest with
  | nil => exact .inl ⟨_, rfl⟩
  | cons u rest =>
    simp only
    split
    · next hlen =>
      have hopen := hp.openBoth hT (hr.ent hent) hcomment hcur hne hskips hkind inner hup
      have hcur' : ((p.open kind 1).open inner hup).cur ≠ [] := by
        intro hnil
        have := List.drop_eq_nil_iff.1 hnil
        simp only [Parsing.open, hcur, List.drop_one, List.tail_cons] at this
        omega
      refine .inr ⟨_, rfl, hopen.opened rfl rfl hcur', ?_⟩
      have hsize := hr.size
      simp only [Parsing.size, Parsing.open, List.length_drop, List.length_cons, hcur] at hsize hlen ⊢
      omega
    · exact .inl ⟨_, rfl⟩

theorem passUp_leads (ha : Action.passUp.Good r) (hp : RoundInv T p) (hr : r.Of p bound) :
    (act p .passUp).Leads T bound := by
  obtain ⟨hsec, hkept⟩ := ha
  cases hbelow : p.below with
  | nil =>
    have hout := hp.outermost
    rw [hbelow, Fanjet.outermost, ← hr.kind, hsec] at hout
    cases hout
  | cons n below =>
    have hmem : n ∈ p.below := by
      rw [hbelow]
      exact List.mem_cons_self ..
    refine .inr ⟨_, by rw [act, hbelow], {
      hp.passUp hbelow with
      hasTokens := ?_
      topEntered := fun _ => hp.belowEntered n hmem
      clean := fun _ => ?_ }, ?_⟩
    · rintro (h | h)
      · cases h
      · have hn : n.kind.isComment = true := h
        rw [hp.comments n hmem] at hn
        cases hn
    · by_contra hne
      exact absurd (hkept.symm.trans (hr.kept.2 hne)) (by simp)
    · have hsize := hr.size
      simp only [Parsing.size, hbelow, List.length_cons] at hsize ⊢
      omega

end Parts

/-- **What comes of a good round**: an error of the parser, or a parse that is nearer to its end. -/
theorem Action.Good.leads {a : Action} {r : Round} (ha : a.Good r) (hT : Startable T) {p : Parsing}
    (hp : RoundInv T p) {bound : Nat} (hr : r.Of p bound) : (act p a).Leads T bound := by
  induction a generalizing r p with
  | attach a ih => exact ih ha hp.attach hr.attach
  | next a ih =>
    cases hcur : p.cur with
    | nil =>
      rw [Action.Good, hr.cur, hcur] at ha
      exact ha.elim
    | cons t rest =>
      rw [Action.Good, hr.cur, hcur] at ha
      rw [act, hcur]
      exact ih ha (hp.next hcur) (hr.next hcur)
  | set kind a ih =>
    obtain ⟨hkeeps, ha⟩ := ha
    rw [hr.kind] at hkeeps
    exact ih ha (hp.set hkeeps _ _) ⟨hr.cur, hr.size, hr.moved, hr.kept,
      fun h => hkeeps.entered (hr.ent h), rfl, hr.parent⟩
  | dbg line col a ih =>
    obtain ⟨hparent, ⟨t, rest, hcur, rfl⟩, ha⟩ := ha
    have hbelow : p.below ≠ [] := by
      intro hnil
      rw [hr.parent, hnil] at hparent
      exact hparent rfl
    have hline : t.line ≠ 0 := hp.line_pos hT hbelow (by rw [← hr.cur, hcur]; exact List.mem_cons_self ..)
    exact ih ha (hp.set (.refl _) _ _) ⟨hr.cur, hr.size, hr.moved, hr.kept, fun _ => .inl hline, hr.kind,
      hr.parent⟩
  | setParent kind a ih =>
    obtain ⟨q, hq, hkeeps, ha⟩ := ha
    cases hbelow : p.below with
    | nil =>
      rw [hr.parent, hbelow] at hq
      cases hq
    | cons n below =>
      rw [hr.parent, hbelow] at hq
      cases hq
      rw [act, hbelow]
      exact ih ha (hp.setParent hbelow hkeeps) (hr.setParent hbelow kind)
  | loop => exact loop_leads ha hp hr
  | openScope kind hup => exact openScope_leads ha hT hp hr
  | openBoth kind inner hup => exact openBoth_leads ha hT hp hr
  | passUp => exact passUp_leads ha hp hr
  | finish => exact ha.elim
  | fail err => exact .inl ⟨err, rfl⟩
  | null => exact ha.elim

end Act

end Fanjet

end LibEvmvc
