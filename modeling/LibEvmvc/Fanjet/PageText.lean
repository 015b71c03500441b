import LibEvmvc.Fanjet.Lossless
import LibEvmvc.Fanjet.ViewClass

set_option autoImplicit false

/-! # Literal text in code

A text of the page is written as a string literal of C++, and what is generated for it at the top of the
template stays as it is. In a markup section in code it is part of what is generated for the code: each
code block and each statement around it replaces the keys and aliases in all of that, in the string
literal too. So the text is the same at every depth exactly if no word of it is an alias
(`literalText_kept_iff`). -/

namespace LibEvmvc

namespace Fanjet

/-! ## Places in a template -/

/-- A node around another one, with the nodes before it and behind it. -/
inductive Frame where
  | block (line col : Nat) (first : Node) (pre post : List Node) (last : Node)
  | control (cn : ControlNode) (line col : Nat) (first : Node) (pre post : List Node)
  | tag (tn : TagNode) (line col : Nat) (pre post : List Node)
  | markup (lang : Bytes) (braces line col : Nat) (first : Node) (pre post : List Node) (last : Node)

def Frame.fill : Frame → Node → Node
  | .block line col first pre post last, n => .node .codeBlock line col (first :: (pre ++ n :: (post ++ [last])))
  | .control cn line col first pre post, n => .node (.codeControl cn) line col (first :: (pre ++ n :: post))
  | .tag tn line col pre post, n => .node (.tag tn) line col (pre ++ n :: post)
  | .markup lang braces line col first pre post last, n =>
    .node (.literal .markupHtml lang braces) line col (first :: (pre ++ n :: (post ++ [last])))

/-- How often a node replaces the keys in what it is around. -/
def Frame.depth : Frame → Nat
  | .block .. => 1
  | .control .. => 1
  | .tag .. => 0
  | .markup .. => 0

/-- Where a text of the page can be: at the top of the template, or in a markup section, in the nodes
    around it from the outermost one on. -/
inductive Place where
  | top
  | markup (frames : List Frame) (lang : Bytes) (braces line col : Nat) (first : Node) (pre post : List Node)
      (last : Node)

/-- The node at the top of the template the text is in. -/
def Place.fill : Place → List Token → Node
  | .top, ts => .token ts
  | .markup frames lang braces line col first pre post last, ts =>
    frames.foldr Frame.fill (Frame.fill (.markup lang braces line col first pre post last) (.token ts))

/-- How many code blocks and statements are around the place. -/
def Place.depth : Place → Nat
  | .top => 0
  | .markup frames .. => frames.foldr (fun F depth => F.depth + depth) 0

/-- No other tokens are next to a text between these nodes. -/
def Apart (pre post : List Node) : Prop :=
  (∀ ts, pre.getLast? ≠ some (.token ts)) ∧ ∀ ts, post.head? ≠ some (.token ts)

/-- The text at the place is all of the text there. -/
def Place.IsRun (pre post : List Node) : Place → Prop
  | .top => Apart pre post
  | .markup _ _ _ _ _ _ pre post _ => Apart pre post

/-! ## What becomes of a text -/

/-- The keys of `replace_fan_keys`. -/
def fanKeys : List Bytes :=
  ["@this", "@type", "@shared_type", "@req", "@res", "@cb", "@filename", "@dirname"].map bytes

/-- The string literal that is written for a text, in `depth` code blocks and statements. -/
def pageLiteral (env : GenEnv) (doc : Document) (depth : Nat) (l : Bytes) : Bytes :=
  replaceEscapes env ((replaceFanKeys doc)^[depth] (escapeCppSource env l))

/-- In what is generated there is what becomes of the text, and all else is the same for every text. -/
def Emits (g : List Token → Gen) (f : Bytes → Bytes) : Prop :=
  ∀ st, (∃ err, ∀ ts, g ts st = .error err) ∨
    ∃ a b st', ∀ ts, g ts st = .ok (a ++ (f (listText ts) ++ b), st')

/-- A text in quotes. -/
def Quoted (s : Bytes) : Prop := ∃ m, s = 34 :: (m ++ [34])

section Emits

variable {env : GenEnv} {doc : Document} {g : List Token → Gen} {f : Bytes → Bytes}

theorem Emits.append_right (h : Emits g f) (k : Gen) : Emits (fun ts => g ts ++ k) f := by
  intro st
  rcases h st with ⟨err, herr⟩ | ⟨a, b, st', hok⟩
  · refine .inl ⟨err, fun ts => ?_⟩
    show Gen.append (g ts) k st = _
    rw [Gen.append, herr]
  · cases hk : k st' with
    | error err =>
      refine .inl ⟨err, fun ts => ?_⟩
      show Gen.append (g ts) k st = _
      rw [Gen.append, hok]
      dsimp only
      rw [hk]
    | ok r =>
      obtain ⟨c, st''⟩ := r
      refine .inr ⟨a, b ++ c, st'', fun ts => ?_⟩
      show Gen.append (g ts) k st = _
      rw [Gen.append, hok]
      dsimp only
      rw [hk]
      simp only [List.append_assoc]

theorem Emits.append_left (k : Gen) (h : Emits g f) : Emits (fun ts => k ++ g ts) f := by
  intro st
  cases hk : k st with
  | error err =>
    refine .inl ⟨err, fun ts => ?_⟩
    show Gen.append k (g ts) st = _
    rw [Gen.append, hk]
  | ok r =>
    obtain ⟨c, st'⟩ := r
    rcases h st' with ⟨err, herr⟩ | ⟨a, b, st'', hok⟩
    · refine .inl ⟨err, fun ts => ?_⟩
      show Gen.append k (g ts) st = _
      rw [Gen.append, hk]
      dsimp only
      rw [herr]
    · refine .inr ⟨c ++ a, b, st'', fun ts => ?_⟩
      show Gen.append k (g ts) st = _
      rw [Gen.append, hk]
      dsimp only
      rw [hok]
      simp only [List.append_assoc]

theorem Quoted.keys {s : Bytes} (h : Quoted s) : Quoted (replaceFanKeys doc s) := by
  obtain ⟨m, rfl⟩ := h
  have hquote : isFanWord 34 = false := by decide
  refine ⟨replaceFanKeys doc m, ?_⟩
  exact (replaceWords_sep [] (m ++ [34]) hquote).trans (congrArg (34 :: ·) (replaceWords_sep m [] hquote))

/-- The keys before a text in quotes, in it and behind it are replaced apart from each other. -/
theorem replaceFanKeys_quoted {s : Bytes} (h : Quoted s) (a b : Bytes) :
    replaceFanKeys doc (a ++ (s ++ b)) = replaceFanKeys doc a ++ (replaceFanKeys doc s ++ replaceFanKeys doc b) := by
  obtain ⟨m, rfl⟩ := h
  have hquote : isFanWord 34 = false := by decide
  have hmid : replaceFanKeys doc (34 :: (m ++ [34])) = 34 :: (replaceFanKeys doc m ++ [34]) :=
    (replaceWords_sep [] (m ++ [34]) hquote).trans (congrArg (34 :: ·) (replaceWords_sep m [] hquote))
  have hall : replaceFanKeys doc (a ++ 34 :: (m ++ 34 :: b))
      = replaceFanKeys doc a ++ 34 :: (replaceFanKeys doc m ++ 34 :: replaceFanKeys doc b) :=
    (replaceWords_sep a (m ++ 34 :: b) hquote).trans
      (congrArg (fun s => replaceFanKeys doc a ++ 34 :: s) (replaceWords_sep m b hquote))
  rw [hmid]
  simpa only [List.cons_append, List.append_assoc, List.nil_append] using hall

theorem Emits.keys (doc : Document) (h : Emits g f) (hq : ∀ l, Quoted (f l)) :
    Emits (fun ts => (g ts).map (replaceFanKeys doc)) fun l => replaceFanKeys doc (f l) := by
  intro st
  rcases h st with ⟨err, herr⟩ | ⟨a, b, st', hok⟩
  · refine .inl ⟨err, fun ts => ?_⟩
    show Gen.map _ (g ts) st = _
    rw [Gen.map, herr]
  · refine .inr ⟨replaceFanKeys doc a, replaceFanKeys doc b, st', fun ts => ?_⟩
    show Gen.map _ (g ts) st = _
    rw [Gen.map, hok]
    exact congrArg (fun s => Except.ok (s, st')) (replaceFanKeys_quoted (hq (listText ts)) a b)

theorem escapeCppSource_quoted (l : Bytes) : Quoted (escapeCppSource env l) := by
  have hquote : bytes "\"" = [34] := by decide
  unfold escapeCppSource
  simp only [hquote]
  exact ⟨_, rfl⟩

/-- The call that writes a text has its string literal in it. -/
theorem emits_writeRaw (env : GenEnv) (doc : Document) :
    Emits (fun ts => .text (writeRaw env doc (listText ts))) (escapeCppSource env) := by
  intro st
  refine .inr ⟨replaceFanKeys doc (bytes "@this->write_raw("), replaceFanKeys doc (bytes ");"), st,
    fun ts => ?_⟩
  unfold writeRaw
  simp only [Gen.text, List.append_assoc]

end Emits

/-! ## Through the nodes -/

theorem Frame.isGenerated_fill (F : Frame) (n : Node) : (F.fill n).isGenerated = true := by
  cases F <;> rfl

section Nodes

variable {env : GenEnv} {doc : Document} {ctx : GenCtx} {n : List Token → Node} {f : Bytes → Bytes}

theorem emits_genCode (hn : ∀ ts, (n ts).isGenerated = true)
    (h : Emits (fun ts => (n ts).gen env doc ctx) f) (skip init : Bool) (pre post : List Node)
    (hpost : init = true → post ≠ []) :
    Emits (fun ts => genCode env doc ctx skip init (pre ++ n ts :: post)) f := by
  induction pre with
  | nil =>
    simp only [List.nil_append, genCode_node hpost (hn _)]
    exact h.append_right _
  | cons x pre ih =>
    obtain ⟨k, hk⟩ := genCode_cons env doc ctx skip init x
    have hcons : ∀ ts, genCode env doc ctx skip init (x :: (pre ++ n ts :: post))
        = k ++ genCode env doc ctx skip init (pre ++ n ts :: post) := fun ts => hk _ fun _ => by simp
    simp only [List.cons_append, hcons]
    exact ih.append_left k

theorem emits_genWrites (hn : ∀ ts, (n ts).isGenerated = true)
    (h : Emits (fun ts => (n ts).gen env doc ctx) f) (init : Bool) (pending : Option Bytes)
    (pre post : List Node) (hpost : init = true → post ≠ []) :
    Emits (fun ts => genWrites env doc ctx init pending (pre ++ n ts :: post)) f := by
  induction pre generalizing pending with
  | nil =>
    simp only [List.nil_append, genWrites_node hpost pending (hn _)]
    exact (h.append_left _).append_right _
  | cons x pre ih =>
    have hlast : ∀ ts, init = true → pre ++ n ts :: post ≠ [] := fun ts _ => by simp
    cases x with
    | token ts' =>
      simp only [List.cons_append, genWrites_token (hlast _)]
      exact ih _
    | node kind line col childs =>
      obtain ⟨k, hk⟩ := genWrites_cons env doc ctx init kind line col childs
      simp only [List.cons_append, hk _ _ (hlast _)]
      exact (ih none).append_left _

theorem Apart.tail {x : Node} {pre post : List Node} (h : Apart (x :: pre) post) : Apart pre post := by
  refine ⟨fun ts hts => ?_, h.2⟩
  cases pre with
  | nil => cases hts
  | cons y pre => exact h.1 ts (by rw [List.getLast?_cons_cons, hts])

/-- A text between other nodes is written with one call. -/
theorem emits_genWrites_run (ctx : GenCtx) (pending : Option Bytes) {pre post : List Node} (last : Node)
    (hapart : Apart pre post) (hpending : pre = [] → pending = none) :
    Emits (fun ts => genWrites env doc ctx true pending (pre ++ .token ts :: (post ++ [last])))
      (escapeCppSource env) := by
  have hpost : true = true → post ++ [last] ≠ [] := fun _ => by simp
  induction pre generalizing pending with
  | nil =>
    rw [hpending rfl]
    simp only [List.nil_append, genWrites_token hpost]
    cases post with
    | nil =>
      simp only [List.nil_append, genWrites_last]
      exact emits_writeRaw env doc
    | cons x post =>
      cases x with
      | token ts' => exact absurd rfl (hapart.2 ts')
      | node kind line col childs =>
        obtain ⟨k, hk⟩ := genWrites_cons env doc ctx true kind line col childs
        have hrest : true = true → post ++ [last] ≠ [] := fun _ => by simp
        simp only [List.cons_append, hk _ _ hrest]
        exact ((emits_writeRaw env doc).append_right _).append_right _
  | cons x pre ih =>
    have hlast : ∀ ts, true = true → pre ++ Node.token ts :: (post ++ [last]) ≠ [] := fun ts _ => by simp
    cases x with
    | token ts' =>
      simp only [List.cons_append, genWrites_token (hlast _)]
      refine ih _ hapart.tail ?_
      rintro rfl
      exact absurd rfl (hapart.1 ts')
    | node kind line col childs =>
      obtain ⟨k, hk⟩ := genWrites_cons env doc ctx true kind line col childs
      simp only [List.cons_append, hk _ _ (hlast _)]
      exact (ih none hapart.tail fun _ => rfl).append_left _

theorem emits_fail (err : GenError) : Emits (fun _ => .fail err) f := fun _ => .inl ⟨err, fun _ => rfl⟩

/-- A node around another one keeps what is generated for it, with the keys replaced if it is code. -/
theorem Frame.emits (F : Frame) (hn : ∀ ts, (n ts).isGenerated = true) (hq : ∀ l, Quoted (f l))
    (h : ∀ ctx, Emits (fun ts => (n ts).gen env doc ctx) f) (ctx : GenCtx) :
    Emits (fun ts => (F.fill (n ts)).gen env doc ctx) fun l => (replaceFanKeys doc)^[F.depth] (f l) := by
  cases F with
  | block line col first pre post last =>
    have hpost : true = true → post ++ [last] ≠ [] := fun _ => by simp
    have hcode := (emits_genCode hn (h .cpp) false true pre _ hpost).keys doc hq
    simp only [Frame.fill, Node.gen]
    split
    · exact hcode
    · split
      · exact (hcode.append_left _).append_right _
      · exact emits_fail _
  | control cn line col first pre post =>
    have hpost : false = true → post ≠ [] := fun hf => (by cases hf)
    have hcode := (emits_genCode hn (h .cpp) false false pre post hpost).keys doc hq
    simp only [Frame.fill, Node.gen]
    split
    · exact hcode.append_left _
    · split
      · exact hcode.append_left _
      · exact emits_fail _
  | tag tn line col pre post =>
    have hpost : false = true → post ≠ [] := fun hf => (by cases hf)
    have hne : ∀ ts, (pre ++ n ts :: post).isEmpty = false := fun ts => by simp
    simp only [Frame.fill, Node.gen, hne]
    exact emits_genWrites hn (h ctx) false none pre post hpost
  | markup lang braces line col first pre post last =>
    have hpost : true = true → post ++ [last] ≠ [] := fun _ => by simp
    have hne : ∀ ts, (pre ++ n ts :: (post ++ [last])).isEmpty = false := fun ts => by simp
    simp only [Frame.fill, Node.gen, hne]
    exact ((emits_genWrites hn (h .literal) true none pre _ hpost).append_left _).append_right _

end Nodes

/-! ## At a place -/

section Places

variable {env : GenEnv} {doc : Document}

theorem Quoted.iterate {s : Bytes} (h : Quoted s) (k : Nat) : Quoted ((replaceFanKeys doc)^[k] s) := by
  induction k with
  | zero => exact h
  | succ k ih =>
    rw [Function.iterate_succ_apply']
    exact ih.keys

/-- What is generated for the node a text is in. -/
theorem emits_frames (frames : List Frame) (lang : Bytes) (braces line col : Nat) (first : Node)
    {pre post : List Node} (last : Node) (hapart : Apart pre post) (ctx : GenCtx) :
    Emits (fun ts => ((Place.markup frames lang braces line col first pre post last).fill ts).gen env doc ctx)
      fun l => (replaceFanKeys doc)^[frames.foldr (fun F depth => F.depth + depth) 0] (escapeCppSource env l) := by
  induction frames generalizing ctx with
  | nil =>
    have hne : ∀ ts, (pre ++ Node.token ts :: (post ++ [last])).isEmpty = false := fun ts => by simp
    simp only [Place.fill, List.foldr_nil, Frame.fill, Node.gen, hne]
    exact ((emits_genWrites_run .literal none last hapart fun _ => rfl).append_left _).append_right _
  | cons F frames ih =>
    have hn : ∀ ts, ((Place.markup frames lang braces line col first pre post last).fill ts).isGenerated
        = true := by
      intro ts
      cases frames with
      | nil => rfl
      | cons F' frames => exact Frame.isGenerated_fill F' _
    have hF := F.emits hn (fun l => (escapeCppSource_quoted l).iterate _) ih ctx
    simp only [List.foldr_cons, Function.iterate_add_apply]
    exact hF

/-- In the text of the parts there is what becomes of a text, and all else is the same for every text. -/
def PartsEmit (doc : Document) (g : List Token → Except GenError (List BodyPart × GenState))
    (f : Bytes → Bytes) : Prop :=
  (∃ err, ∀ ts, g ts = .error err) ∨
    ∃ a b st', ∀ ts, ∃ parts, g ts = .ok (parts, st') ∧
      parts.flatMap (BodyPart.text doc) = a ++ (f (listText ts) ++ b)

theorem PartsEmit.with {g : List Token → Except GenError (List BodyPart × GenState)} {f : Bytes → Bytes}
    (h : PartsEmit doc g f) (front : List BodyPart) : PartsEmit doc (fun ts => withParts front (g ts)) f := by
  rcases h with ⟨err, herr⟩ | ⟨a, b, st', hok⟩
  · exact .inl ⟨err, fun ts => congrArg (withParts front) (herr ts)⟩
  · refine .inr ⟨front.flatMap (BodyPart.text doc) ++ a, b, st', fun ts => ?_⟩
    obtain ⟨parts, hparts, htext⟩ := hok ts
    refine ⟨front ++ parts, congrArg (withParts front) hparts, ?_⟩
    rw [List.flatMap_append, htext, List.append_assoc]

/-- The same parts before and behind one part that a text is in. -/
theorem partsEmit_mid {part : List Token → BodyPart} {f : Bytes → Bytes} {a b : Bytes}
    (hpart : ∀ ts, (part ts).text doc = a ++ (f (listText ts) ++ b)) (front mid : List BodyPart)
    (rest : Except GenError (List BodyPart × GenState)) :
    PartsEmit doc (fun ts => withParts (front ++ part ts :: mid) rest) f := by
  cases rest with
  | error err => exact .inl ⟨err, fun ts => rfl⟩
  | ok r =>
    obtain ⟨parts, st'⟩ := r
    refine .inr ⟨front.flatMap (BodyPart.text doc) ++ a,
      b ++ (mid ++ parts).flatMap (BodyPart.text doc), st', fun ts => ⟨_, rfl, ?_⟩⟩
    rw [List.append_assoc, List.flatMap_append, List.cons_append, List.flatMap_cons, hpart]
    simp only [List.append_assoc]

/-- The parts of a body with a text between the nodes at the top. -/
theorem partsEmit_run (next : Bytes) (pending : Option Bytes) {pre post : List Node}
    (hapart : Apart pre post) (hpending : pre = [] → pending = none) (st : GenState) :
    PartsEmit doc (fun ts => bodyParts env doc pending next (pre ++ .token ts :: post) st)
      (escapeCppSource env) := by
  have hwrite : ∀ ts : List Token, (BodyPart.write (writeRaw env doc (listText ts))).text doc
      = replaceFanKeys doc (bytes "@this->write_raw(")
        ++ (escapeCppSource env (listText ts) ++ replaceFanKeys doc (bytes ");")) := by
    intro ts
    rw [BodyPart.text, writeRaw, List.append_assoc]
  induction pre generalizing pending next st with
  | nil =>
    rw [hpending rfl]
    simp only [List.nil_append, bodyParts_token]
    cases post with
    | nil => exact partsEmit_mid hwrite [] [] (finishPart st)
    | cons x post =>
      cases x with
      | token ts' => exact absurd rfl (hapart.2 ts')
      | node kind line col childs =>
        rcases bodyParts_node env doc next kind line col childs st with ⟨err, herr⟩ | ⟨front, next', st', hok⟩
        · exact .inl ⟨err, fun ts => herr _ _⟩
        · simp only [hok]
          exact partsEmit_mid hwrite [] front _
  | cons x pre ih =>
    cases x with
    | token ts' =>
      simp only [List.cons_append, bodyParts_token]
      refine ih next _ hapart.tail ?_ st
      rintro rfl
      exact absurd rfl (hapart.1 ts')
    | node kind line col childs =>
      have hne : ∀ ts, (pre ++ Node.token ts :: post).isEmpty = false := fun ts => by simp
      rcases bodyParts_node env doc next kind line col childs st with ⟨err, herr⟩ | ⟨front, next', st', hok⟩
      · exact .inl ⟨err, fun ts => herr _ _⟩
      · simp only [List.cons_append, hok, hne]
        exact (ih next' none hapart.tail (fun _ => rfl) st').with _

/-- The parts of a body with a node at the top that a text is in. -/
theorem partsEmit_node {n : List Token → Node} {f : Bytes → Bytes}
    (hn : ∀ ts, ∃ kind line col childs, n ts = .node kind line col childs ∧ kind.isInline = true)
    (h : Emits (fun ts => (n ts).gen env doc .literal) f) (next : Bytes) (pending : Option Bytes)
    (pre post : List Node) (st : GenState) :
    PartsEmit doc (fun ts => bodyParts env doc pending next (pre ++ n ts :: post) st) f := by
  induction pre generalizing pending next st with
  | nil =>
    rcases h st with ⟨err, herr⟩ | ⟨a, b, st', hok⟩
    · refine .inl ⟨err, fun ts => ?_⟩
      obtain ⟨kind, line, col, childs, heq, hkind⟩ := hn ts
      have hgen : Node.gen env doc .literal (n ts) st = .error err := herr ts
      rw [heq] at hgen
      show bodyParts env doc pending next (n ts :: post) st = .error err
      rw [heq, bodyParts_inline hkind, hgen]
    · have hnode : ∀ ts, bodyParts env doc pending next (n ts :: post) st
          = withParts (pendingParts env doc pending ++ [.node (a ++ (f (listText ts) ++ b))])
            (if post.isEmpty then finishPart st' else bodyParts env doc none next post st') := by
        intro ts
        obtain ⟨kind, line, col, childs, heq, hkind⟩ := hn ts
        have hgen : Node.gen env doc .literal (n ts) st = .ok (a ++ (f (listText ts) ++ b), st') := hok ts
        rw [heq] at hgen
        rw [heq, bodyParts_inline hkind, hgen]
      simp only [List.nil_append, hnode]
      exact partsEmit_mid (fun ts => rfl) _ [] _
  | cons x pre ih =>
    cases x with
    | token ts' =>
      simp only [List.cons_append, bodyParts_token]
      exact ih next _ st
    | node kind line col childs =>
      have hne : ∀ ts, (pre ++ n ts :: post).isEmpty = false := fun ts => by simp
      rcases bodyParts_node env doc next kind line col childs st with ⟨err, herr⟩ | ⟨front, next', st', hok⟩
      · exact .inl ⟨err, fun ts => herr _ _⟩
      · simp only [List.cons_append, hok, hne]
        exact (ih next' none st').with _

end Places

/-! ## The escapes -/

section Escapes

theorem replaceAll_pair_quotes {c : UInt8} {r : Bytes} (hc : c ≠ 34) (m : Bytes) :
    replaceAll [64, c] r (34 :: (m ++ [34])) = 34 :: (replaceAll [64, c] r m ++ [34]) := by
  have hno : ¬ [64, c] <+: 34 :: (m ++ [34]) := by
    rw [pair_prefix_iff]
    exact fun hpre => absurd hpre.1 (by decide)
  have hend : replaceAll [64, c] r [34] = [34] := replaceAll_of_not_mem (by decide)
  rw [replaceAll_cons hno, replaceAll_pair_append, hend]
  rintro - hhead
  exact hc (Option.some.inj hhead).symm

theorem pair_quoted {c : UInt8} {r s : Bytes} (hc : c ≠ 34) (h : Quoted s) :
    Quoted (replaceAll [64, c] r s) := by
  obtain ⟨m, rfl⟩ := h
  exact ⟨_, replaceAll_pair_quotes hc m⟩

/-- What is before a text in quotes, the text and what is behind it are replaced apart from each other. -/
theorem replaceAll_pair_quoted {c : UInt8} {r s : Bytes} (hc : c ≠ 34) (h : Quoted s) (a b : Bytes) :
    replaceAll [64, c] r (a ++ (s ++ b))
      = replaceAll [64, c] r a ++ (replaceAll [64, c] r s ++ replaceAll [64, c] r b) := by
  obtain ⟨m, rfl⟩ := h
  rw [replaceAll_pair_append, replaceAll_pair_append]
  · intro hlast
    have hquote : (34 :: (m ++ [34])).getLast? = some (34 : UInt8) := by
      rw [← List.cons_append]
      exact List.getLast?_concat
    rw [hquote] at hlast
    exact absurd (Option.some.inj hlast) (by decide)
  · rintro - hhead
    exact hc (Option.some.inj hhead).symm

theorem replaceEscapes_eq (env : GenEnv) (s : Bytes) :
    replaceEscapes env s = replaceAll [64, 64] [64] (replaceAll [64, 125] [125] s) := by
  have hbrace : bytes "@\x7d" = [64, 125] := by decide
  have hat : bytes "@@" = [64, 64] := by decide
  rw [replaceEscapes, env.replace_eq _ _ _ (by decide), env.replace_eq _ _ _ (by decide), hbrace, hat]
  rfl

theorem replaceEscapes_quoted (env : GenEnv) {s : Bytes} (h : Quoted s) (a b : Bytes) :
    replaceEscapes env (a ++ (s ++ b))
      = replaceEscapes env a ++ (replaceEscapes env s ++ replaceEscapes env b) := by
  have hbrace : (125 : UInt8) ≠ 34 := by decide
  have hat : (64 : UInt8) ≠ 34 := by decide
  simp only [replaceEscapes_eq]
  rw [replaceAll_pair_quoted hbrace h, replaceAll_pair_quoted hat (pair_quoted hbrace h)]

theorem count_replaceEscapes (env : GenEnv) (s : Bytes) : (replaceEscapes env s).count 58 = s.count 58 := by
  rw [replaceEscapes_eq, count_replaceAll (List.cons_ne_nil _ _) (by decide),
    count_replaceAll (List.cons_ne_nil _ _) (by decide)]

end Escapes

/-! ## Aliases -/

section Aliases

variable {docs : List Document} {doc doc' : Document} {w : Bytes}

theorem mem_of_astFind {path : Bytes} {d : Document} (h : astFind docs doc path = .ok d) : d ∈ docs := by
  unfold astFind at h
  dsimp only at h
  generalize (if path.getLast? = some 47 then path.drop 1 else doc.path ++ path) = p at h
  split at h
  · cases h
  · split at h
    · cases h
    · split at h
      · next hfound =>
        cases h
        obtain ⟨i, -, hd⟩ := List.exists_of_findSome?_eq_some hfound
        obtain ⟨d', hd', hsome⟩ := List.exists_of_findSome?_eq_some hd
        split at hsome
        · cases hsome
          exact (List.mem_filter.1 hd').1
        · cases hsome
      · cases h

theorem findInherits_mem {items items' : List InheritsItem} (h : findInherits docs doc items = .ok items') :
    ∀ ii ∈ items', ∃ d ∈ docs, ii.nsclsName = d.nsclsName := by
  induction items generalizing items' with
  | nil =>
    cases h
    exact fun ii hii => absurd hii List.not_mem_nil
  | cons ii items ih =>
    rw [findInherits] at h
    cases hfind : astFind docs doc ii.path with
    | error err =>
      rw [hfind] at h
      cases h
    | ok d =>
      rw [hfind] at h
      cases hrest : findInherits docs doc items with
      | error err =>
        rw [hrest] at h
        cases h
      | ok rest =>
        rw [hrest] at h
        cases h
        rw [List.forall_mem_cons]
        exact ⟨⟨d, mem_of_astFind hfind, rfl⟩, ih hrest⟩

/-- What an alias stands for has a `:` in it. -/
theorem colon_mem_inherit (hdocs : ∀ d ∈ docs, d.Accepted) (h : doc.inherit docs = .ok doc') :
    ∀ ii ∈ doc'.inheritsItems, 58 ∈ ii.nsclsName := by
  unfold Document.inherit at h
  cases hfind : findInherits docs doc doc.inheritsItems with
  | error err =>
    rw [hfind] at h
    cases h
  | ok items =>
    rw [hfind] at h
    cases h
    intro ii hii
    obtain ⟨d, hd, heq⟩ := findInherits_mem hfind ii hii
    have hcolon : (58 : UInt8) ∈ bytes "::" := by decide
    rw [heq, (hdocs d hd).named.nsclsName]
    exact List.mem_append_left _ (List.mem_append_right _ hcolon)

theorem replaceAlias_word (hne : w ≠ []) (hw : ∀ c ∈ w, isFanWord c = true) :
    replaceAlias doc w = aliasWord doc w := replaceWords_word hw hne

/-- A word that is neither a key nor an alias stays. -/
theorem fanKeyWord_plain (hne : w ≠ []) (hw : ∀ c ∈ w, isFanWord c = true) (hkey : w ∉ fanKeys)
    (halias : ∀ ii ∈ doc.inheritsItems, ii.aliasName ≠ w) : fanKeyWord doc w = w := by
  simp only [fanKeys, List.map_cons, List.map_nil, List.mem_cons, List.not_mem_nil, or_false, not_or] at hkey
  have hfind : doc.inheritsItems.find? (fun ii => decide (ii.aliasName = w)) = none := by
    rw [List.find?_eq_none]
    exact fun ii hii => by simpa using halias ii hii
  have hself : replaceAlias doc w = w := by
    rw [replaceAlias_word hne hw]
    unfold aliasWord
    simp only [hkey, if_false, hfind]
  unfold fanKeyWord
  simp only [hself, hkey, if_false]

/-- A word that is an alias is replaced by the name of a class. -/
theorem fanKeyWord_alias (hcolon : ∀ ii ∈ doc.inheritsItems, 58 ∈ ii.nsclsName) (hne : w ≠ [])
    (hw : ∀ c ∈ w, isFanWord c = true) (hkey : w ∉ fanKeys) {ii : InheritsItem} (hii : ii ∈ doc.inheritsItems)
    (halias : ii.aliasName = w) : ∃ ii ∈ doc.inheritsItems, fanKeyWord doc w = ii.nsclsName := by
  simp only [fanKeys, List.map_cons, List.map_nil, List.mem_cons, List.not_mem_nil, or_false, not_or] at hkey
  obtain ⟨ii', hfind⟩ : ∃ ii', doc.inheritsItems.find? (fun ii => decide (ii.aliasName = w)) = some ii' := by
    rw [← Option.isSome_iff_exists, List.find?_isSome]
    exact ⟨ii, hii, decide_eq_true halias⟩
  have hitem := List.mem_of_find?_eq_some hfind
  have hself : replaceAlias doc w = ii'.nsclsName := by
    rw [replaceAlias_word hne hw]
    unfold aliasWord
    simp only [hkey, if_false, hfind]
  have hnokey : ∀ key : Bytes, 58 ∉ key → ii'.nsclsName ≠ key := by
    rintro key hno rfl
    exact hno (hcolon ii' hitem)
  refine ⟨ii', hitem, ?_⟩
  unfold fanKeyWord
  simp only [hself, hnokey _ (by decide : (58 : UInt8) ∉ bytes "@this"),
    hnokey _ (by decide : (58 : UInt8) ∉ bytes "@type"),
    hnokey _ (by decide : (58 : UInt8) ∉ bytes "@shared_type"),
    hnokey _ (by decide : (58 : UInt8) ∉ bytes "@req"), hnokey _ (by decide : (58 : UInt8) ∉ bytes "@res"),
    hnokey _ (by decide : (58 : UInt8) ∉ bytes "@cb"),
    hnokey _ (by decide : (58 : UInt8) ∉ bytes "@filename"),
    hnokey _ (by decide : (58 : UInt8) ∉ bytes "@dirname"), if_false]

/-- A word has no `:`. -/
theorem count_colon_word {s : Bytes} (hw : w ∈ words isFanWord s) : w.count 58 = 0 := by
  rw [List.count_eq_zero]
  intro hmem
  have hword := (mem_words hw).2 58 hmem
  exact absurd hword (by decide)

theorem count_replaceFanKeys_le (s : Bytes) : s.count 58 ≤ (replaceFanKeys doc s).count 58 := by
  refine count_replaceWords_le fun w hw => ?_
  rw [count_colon_word hw]
  exact Nat.zero_le _

variable (doc) in
theorem count_iterate_le (k : Nat) (s : Bytes) : s.count 58 ≤ ((replaceFanKeys doc)^[k] s).count 58 := by
  induction k with
  | zero => exact Nat.le_refl _
  | succ k ih =>
    rw [Function.iterate_succ_apply']
    exact Nat.le_trans ih (count_replaceFanKeys_le _)

/-- **A text is the same in code as at the top exactly if no word of it is an alias.** -/
theorem pageLiteral_eq_iff (env : GenEnv) (hcolon : ∀ ii ∈ doc.inheritsItems, 58 ∈ ii.nsclsName)
    (depth : Nat) {l : Bytes} (hkeys : ∀ w ∈ words isFanWord (escapeCppSource env l), w ∉ fanKeys) :
    pageLiteral env doc depth l = pageLiteral env doc 0 l ↔
      depth = 0 ∨ ∀ w ∈ words isFanWord (escapeCppSource env l),
        ∀ ii ∈ doc.inheritsItems, ii.aliasName ≠ w := by
  cases depth with
  | zero => exact ⟨fun _ => .inl rfl, fun _ => rfl⟩
  | succ depth =>
    constructor
    · intro heq
      refine .inr fun w hw ii hii halias => ?_
      obtain ⟨hne, hword⟩ := mem_words hw
      obtain ⟨ii', hii', hword'⟩ := fanKeyWord_alias hcolon hne hword (hkeys w hw) hii halias
      have hlt : (escapeCppSource env l).count 58
          < (replaceFanKeys doc (escapeCppSource env l)).count 58 := by
        refine count_replaceWords_lt (fun w hw => ?_) hw ?_
        · rw [count_colon_word hw]
          exact Nat.zero_le _
        · rw [count_colon_word hw, hword']
          exact List.count_pos_iff.2 (hcolon ii' hii')
      have hle := count_iterate_le doc depth (replaceFanKeys doc (escapeCppSource env l))
      have hcount := congrArg (List.count 58) heq
      rw [pageLiteral, pageLiteral, count_replaceEscapes, count_replaceEscapes,
        Function.iterate_succ_apply] at hcount
      exact absurd hcount (Nat.ne_of_gt (Nat.lt_of_lt_of_le hlt hle))
    · rintro (hzero | hplain)
      · cases hzero
      · have hfix : replaceFanKeys doc (escapeCppSource env l) = escapeCppSource env l := by
          refine replaceWords_id fun w hw => ?_
          obtain ⟨hne, hword⟩ := mem_words hw
          exact fanKeyWord_plain hne hword (hkeys w hw) (hplain w hw)
        rw [pageLiteral, pageLiteral, Function.iterate_fixed hfix]
        rfl

end Aliases

/-! ## The class -/

/-- The parts of a body with a text at a place. -/
theorem partsEmit_place (env : GenEnv) (doc : Document) (next : Bytes) {pre post : List Node} {place : Place}
    (hrun : place.IsRun pre post) (st : GenState) :
    PartsEmit doc (fun ts => bodyParts env doc none next (pre ++ place.fill ts :: post) st)
      fun l => (replaceFanKeys doc)^[place.depth] (escapeCppSource env l) := by
  cases place with
  | top => exact partsEmit_run next none hrun (fun _ => rfl) st
  | markup frames lang braces line col first pre' post' last =>
    refine partsEmit_node (fun ts => ?_)
      (emits_frames frames lang braces line col first last hrun .literal) next none pre post st
    cases frames with
    | nil => exact ⟨_, _, _, _, rfl, rfl⟩
    | cons F frames =>
      cases F with
      | block => exact ⟨_, _, _, _, rfl, rfl⟩
      | control => exact ⟨_, _, _, _, rfl, rfl⟩
      | tag => exact ⟨_, _, _, _, rfl, rfl⟩
      | markup => exact ⟨_, _, _, _, rfl, rfl⟩

/-- **The class of a document has a string literal for a text of the page, which is the same in code as at
the top of the template exactly if no word of it is an alias.** -/
theorem literalText_kept_iff (env : GenEnv) (dbg : Bool) {docs : List Document} {doc doc' : Document}
    (hdocs : ∀ d ∈ docs, d.Accepted) (hinherit : doc.inherit docs = .ok doc') (langs : List Bytes)
    (kind : NodeKind) (line col : Nat) {pre post : List Node} {place : Place} (hrun : place.IsRun pre post) :
    Emits (fun ts => RootNode.gen env dbg docs doc
        ⟨langs, .node kind line col (pre ++ place.fill ts :: post)⟩) (pageLiteral env doc' place.depth) ∧
      ∀ l, (∀ w ∈ words isFanWord (escapeCppSource env l), w ∉ fanKeys) →
        (pageLiteral env doc' place.depth l = pageLiteral env doc' 0 l ↔
          place.depth = 0 ∨ ∀ w ∈ words isFanWord (escapeCppSource env l),
            ∀ ii ∈ doc'.inheritsItems, ii.aliasName ≠ w) := by
  refine ⟨fun st => ?_, fun l => pageLiteral_eq_iff env (colon_mem_inherit hdocs hinherit) place.depth⟩
  have hexec : ∀ st, ∃ name st', execName env doc' st = .ok (name, st') := fun st => ⟨_, _, rfl⟩
  obtain ⟨execFn, st₁, hfirst⟩ := hexec st
  obtain ⟨next, st₂, hsecond⟩ := hexec st₁
  simp only [RootNode.gen, hinherit, clsParts, hfirst, hsecond]
  rcases partsEmit_place env doc' next hrun st₂ with ⟨err, herr⟩ | ⟨a, b, st', hok⟩
  · simp only [herr]
    exact .inl ⟨err, fun _ => rfl⟩
  · refine .inr ⟨clsHead doc' ++ replaceEscapes env (execHead doc' execFn ++ bytes " "
      ++ beginWrite doc' (bytes "html") ++ a), replaceEscapes env b ++ clsFoot dbg doc' execFn, st',
      fun ts => ?_⟩
    obtain ⟨parts, hparts, htext⟩ := hok ts
    have hquoted : Quoted ((replaceFanKeys doc')^[place.depth] (escapeCppSource env (listText ts))) :=
      (escapeCppSource_quoted _).iterate _
    have hbody := replaceEscapes_quoted env hquoted
      (execHead doc' execFn ++ bytes " " ++ beginWrite doc' (bytes "html") ++ a) b
    rw [List.append_assoc _ a] at hbody
    simp only [hparts]
    rw [bodyText, htext, hbody, pageLiteral]
    simp only [List.append_assoc]

/-- An environment that replaces texts as it has to, and has no files. -/
def plainGenEnv : GenEnv where
  toFanEnv := blankTrim
  numToStr n := (Nat.toDigits 10 n).map fun c => UInt8.ofNat c.toNat
  replaceSubstring s f r := replaceAll f r s
  replace_eq _ _ _ _ := rfl
  readLines _ := none

/-- A document that inherits from `x` with the alias `header`. -/
def headerDoc : Document :=
  docNamed (bytes "/views.fan") (bytes "/") (bytes "app") (bytes "/") (bytes "b")
    ⟨[], [], [], [], [⟨.pub, bytes "header", bytes "x", []⟩]⟩

/-- The document with the class that is found for it. -/
def headerDocFound : Document :=
  { headerDoc with inheritsItems := [⟨.pub, bytes "header", bytes "x", bytes "app::_x"⟩] }

theorem sampleDocs_accepted : ∀ d ∈ [sampleDoc "/" "x"], d.Accepted := by
  intro d hd
  rw [List.mem_singleton.1 hd]
  exact sampleDoc_accepted (by decide)

theorem headerDoc_accepted : headerDoc.Accepted :=
  ⟨bytes "/views.fan", bytes "/", bytes "app", bytes "/b",
    ⟨[], [], [], [], [⟨.pub, bytes "header", bytes "x", []⟩]⟩, by decide⟩

theorem headerDoc_inherit : headerDoc.inherit [sampleDoc "/" "x"] = .ok headerDocFound := by decide

/-- A node of one token. -/
def tokenNode (s : String) : Node := .token [⟨bytes s, 1, 1, 0⟩]

/-- The place of a text in a markup section in a code block. -/
def blockPlace : Place :=
  .markup [.block 1 1 (tokenNode "@\x7b") [tokenNode " "] [tokenNode " "] (tokenNode "\x7d")]
    (bytes "html") 0 1 1 (tokenNode "@(html)\x7b") [] [] (tokenNode "\x7d")

theorem apart_nil : Apart [] [] := ⟨fun ts hts => (by cases hts), fun ts hts => (by cases hts)⟩

/-- The place in a code block of a document with an alias. -/
theorem literalText_kept_block :
    Emits (fun ts => RootNode.gen plainGenEnv false [sampleDoc "/" "x"] headerDoc
        ⟨[], .node (.literal .literal (bytes "html") 0) 0 0 ([] ++ blockPlace.fill ts :: [])⟩)
        (pageLiteral plainGenEnv headerDocFound blockPlace.depth) ∧
      ∀ l, (∀ w ∈ words isFanWord (escapeCppSource plainGenEnv l), w ∉ fanKeys) →
        (pageLiteral plainGenEnv headerDocFound blockPlace.depth l = pageLiteral plainGenEnv headerDocFound 0 l ↔
          blockPlace.depth = 0 ∨ ∀ w ∈ words isFanWord (escapeCppSource plainGenEnv l),
            ∀ ii ∈ headerDocFound.inheritsItems, ii.aliasName ≠ w) :=
  literalText_kept_iff plainGenEnv false sampleDocs_accepted headerDoc_inherit [] _ 0 0 apart_nil

set_option maxRecDepth 20000 in
/-- The text ` header ` is not found in the class where it is in a code block. -/
theorem literalText_rewritten :
    ¬ ∀ (env : GenEnv) (docs : List Document) (doc : Document), (∀ d ∈ docs, d.Accepted) → doc.Accepted →
      ∀ (pre post : List Node) (place : Place), place.IsRun pre post →
      ∀ ts : List Token, (∀ c ∈ listText ts, c ≠ 64 ∧ c ≠ 123 ∧ c ≠ 125) →
      ∀ text st, RootNode.gen env false docs doc
          ⟨[], .node (.literal .literal (bytes "html") 0) 0 0 (pre ++ place.fill ts :: post)⟩ ⟨0, 0⟩
          = .ok (text, st) →
        escapeCppSource env (listText ts) <:+: text := by
  intro hall
  have hlost : (match RootNode.gen plainGenEnv false [sampleDoc "/" "x"] headerDoc
      ⟨[], .node (.literal .literal (bytes "html") 0) 0 0
        ([] ++ blockPlace.fill [⟨bytes " header ", 1, 1, 0⟩] :: [])⟩ ⟨0, 0⟩ with
    | .ok (text, _) => decide (¬ escapeCppSource plainGenEnv (bytes " header ") <:+: text)
    | .error _ => false) = true := by decide +kernel
  split at hlost
  · next text st hgen =>
    have hinfix := hall plainGenEnv [sampleDoc "/" "x"] headerDoc sampleDocs_accepted headerDoc_accepted [] []
      blockPlace apart_nil [⟨bytes " header ", 1, 1, 0⟩] (by decide) text st hgen
    exact of_decide_eq_true hlost hinfix
  · cases hlost

end Fanjet

end LibEvmvc
