import LibEvmvc.Fanjet.SourceText
import LibEvmvc.Foundation.Brackets

set_option autoImplicit false

/-! # The brackets of a view

A partial rendering opens a function and a `try` for the rest of the template; where the template ends,
they are closed, each `try` with its `catch`. Before a function block all of them would have to be closed
too, and only the functions are. So the brackets of a view are closed exactly if no function block comes
behind a partial rendering, and if there is a last node, behind which they are closed at all
(`viewBody_closed_iff`). -/

namespace LibEvmvc

namespace Fanjet

open Brackets

/-! ## Texts and what they open -/

/-- A text that opens and closes brackets once the escapes are replaced, which does not end with the
    first character of an escape. -/
structure Fragment (env : GenEnv) (b : Bytes) (opened opened' : List Opened) : Prop where
  last : b.getLast? ≠ some 64
  nests : Nests (replaceEscapes env b) opened opened'

section Fragments

variable {env : GenEnv} {a b : Bytes} {opened opened' opened'' outer : List Opened}

theorem getLast?_replaceAll_pair {c d : UInt8} {s : Bytes} (hs : s.getLast? ≠ some c) :
    (replaceAll [c, d] [d] s).getLast? = s.getLast? := by
  induction s using replace_induction (List.cons_ne_nil c [d]) with
  | nil => rfl
  | found s ih =>
    rw [replaceAll_found (List.cons_ne_nil c [d]), List.getLast?_append, List.getLast?_append, ih]
    · rfl
    · intro h
      exact hs (by rw [List.getLast?_append, h]; rfl)
  | kept e s hno ih =>
    rw [replaceAll_cons hno]
    cases s with
    | nil => rfl
    | cons f s =>
      have hne : replaceAll [c, d] [d] (f :: s) ≠ [] := by
        intro hnil
        have hrest := ih fun h => hs (by rw [List.getLast?_cons_cons, h])
        rw [hnil] at hrest
        cases h : (f :: s).getLast? with
        | none => exact absurd (List.getLast?_eq_none_iff.1 h) (List.cons_ne_nil f s)
        | some e => rw [h] at hrest; cases hrest
      obtain ⟨g, r, hg⟩ := List.exists_cons_of_ne_nil hne
      have hrest := ih fun h => hs (by rw [List.getLast?_cons_cons, h])
      rw [hg] at hrest ⊢
      rw [List.getLast?_cons_cons, List.getLast?_cons_cons, hrest]

theorem replaceEscapes_append (ha : a.getLast? ≠ some 64) (b : Bytes) :
    replaceEscapes env (a ++ b) = replaceEscapes env a ++ replaceEscapes env b := by
  simp only [replaceEscapes_eq]
  rw [replaceAll_pair_append fun h => absurd h ha, replaceAll_pair_append]
  intro h
  rw [getLast?_replaceAll_pair ha] at h
  exact absurd h ha

theorem replaceEscapes_of_not_mem (h : 64 ∉ b) : replaceEscapes env b = b := by
  rw [replaceEscapes_eq, replaceAll_of_not_mem h, replaceAll_of_not_mem h]

theorem Fragment.append (ha : Fragment env a opened opened') (hb : Fragment env b opened' opened'') :
    Fragment env (a ++ b) opened opened'' where
  last := by
    rw [List.getLast?_append]
    cases h : b.getLast? with
    | none => exact ha.last
    | some c => exact fun heq => hb.last (by rw [h, ← heq]; rfl)
  nests := by
    rw [replaceEscapes_append ha.last]
    exact ha.nests.append hb.nests

theorem Fragment.frame (h : Fragment env b opened opened') (houter : outer.head? ≠ some .tried) :
    Fragment env b (opened ++ outer) (opened' ++ outer) := ⟨h.last, h.nests.frame houter⟩

theorem fragment_nil (opened : List Opened) : Fragment env [] opened opened := by
  refine ⟨fun h => (by cases h), ?_⟩
  rw [replaceEscapes_of_not_mem List.not_mem_nil]
  exact nests_nil opened

end Fragments

/-- The same between two edges. -/
structure Piece (env : GenEnv) (b : Bytes) (e : Edge) (opened : List Opened) (e' : Edge)
    (opened' : List Opened) : Prop where
  last : b.getLast? ≠ some 64
  runs : Runs (replaceEscapes env b) e opened e' opened'

section Pieces

variable {env : GenEnv} {a b v : Bytes} {e e' e'' : Edge} {opened opened' opened'' outer : List Opened}

theorem getLast?_append_ne {x : UInt8} (ha : a.getLast? ≠ some x) (hb : b.getLast? ≠ some x) :
    (a ++ b).getLast? ≠ some x := by
  rw [List.getLast?_append]
  cases h : b.getLast? with
  | none => exact ha
  | some c => exact fun heq => hb (by rw [h, ← heq]; rfl)

theorem Piece.append (ha : Piece env a e opened e' opened') (hb : Piece env b e' opened' e'' opened'') :
    Piece env (a ++ b) e opened e'' opened'' where
  last := getLast?_append_ne ha.last hb.last
  runs := by
    rw [replaceEscapes_append ha.last]
    exact ha.runs.append hb.runs

theorem Piece.breaks (ha : Piece env a e opened e' opened') (hb : BreaksAt (replaceEscapes env b) e' opened') :
    BreaksAt (replaceEscapes env (a ++ b)) e opened := by
  rw [replaceEscapes_append ha.last]
  exact ha.runs.breaks hb

theorem Piece.word (h : Piece env b e opened e' opened') : Piece env b e opened .word opened' :=
  ⟨h.last, h.runs.word⟩

theorem Piece.of_word (h : Piece env b .word opened e' opened') (e : Edge) : Piece env b e opened e' opened' :=
  ⟨h.last, h.runs.of_word e⟩

theorem Piece.frame (h : Piece env b .apart opened e' opened') (houter : outer.head? ≠ some .tried) :
    Piece env b .apart (opened ++ outer) e' (opened' ++ outer) := ⟨h.last, h.runs.frame houter⟩

theorem piece_nil (e : Edge) (opened : List Opened) : Piece env [] e opened e opened := by
  refine ⟨fun h => (by cases h), ?_⟩
  rw [replaceEscapes_of_not_mem List.not_mem_nil]
  exact runs_nil e opened

theorem Fragment.piece (h : Fragment env b opened opened') : Piece env b .apart opened .apart opened' :=
  ⟨h.last, nests_iff_runs.1 h.nests⟩

/-- A text that begins with a word, behind a word. -/
theorem Fragment.behind_word {c : UInt8} (h : Fragment env (v ++ c :: b) opened opened')
    (hopen : opened.head? ≠ some .tried) (hc : isIdentChar c = false) (hat : c ≠ 64)
    (hident : ∀ d ∈ v, isIdentChar d = true) (hv : ∀ w, w ++ v ≠ bytes "try") (hne : v ≠ []) :
    Piece env (v ++ c :: b) .word opened .apart opened' := by
  have hno : 64 ∉ v := fun hmem => absurd (hident 64 hmem) (by decide)
  have htext : replaceEscapes env (v ++ c :: b) = v ++ c :: replaceEscapes env b := by
    have hsign : ([c] : Bytes).getLast? ≠ some 64 := fun hlast => hat (Option.some.inj hlast)
    rw [replaceEscapes_append fun hlast => hno (List.mem_of_getLast? hlast), replaceEscapes_of_not_mem hno,
      ← List.singleton_append, replaceEscapes_append hsign,
      replaceEscapes_of_not_mem fun hmem => hat (List.mem_singleton.1 hmem).symm]
    rfl
  obtain ⟨hlast, hnests⟩ := h
  rw [htext] at hnests
  refine ⟨hlast, ?_⟩
  rw [htext]
  exact hnests.behind_word hopen hc hident hv hne

end Pieces

/-! ## The texts that are always the same -/

/-- What a partial rendering leaves open. -/
def rendering : List Opened := [.tryBrace, .brace, .paren]

/-- What `k` partial renderings leave open. -/
def renderings (k : Nat) : List Opened := (List.replicate k rendering).flatten

/-- What is open in a function that renders. -/
def inExec : List Opened := [.tryBrace, .brace]

theorem renderings_succ (k : Nat) : renderings (k + 1) = rendering ++ renderings k := rfl

theorem renderings_add (k m : Nat) : renderings (k + m) = renderings k ++ renderings m := by
  rw [renderings, renderings, renderings, ← List.replicate_append_replicate, List.flatten_append]

theorem head_renderings {outer : List Opened} (h : outer.head? ≠ some .tried) (k : Nat) :
    (renderings k ++ outer).head? ≠ some .tried := by
  cases k with
  | zero => exact h
  | succ k => exact fun heq => (by cases heq)

/-- The names a document has in its class. -/
structure ClassNames (doc : Document) : Prop where
  cls : IsName doc.clsName
  self : IsName doc.selfName
  selfLow : 95 ∈ doc.selfName
  cb : IsName doc.cbName

theorem isName_low {w : Bytes} (hlow : 95 ∈ w) (hw : ∀ c ∈ w, isIdentChar c = true) : IsName w where
  ne := List.ne_nil_of_mem hlow
  ident := hw
  no_try := by
    rintro rfl
    exact absurd hlow (by decide)

theorem no_at_of_isName {w : Bytes} (h : IsName w) : 64 ∉ w :=
  fun hmem => absurd (h.ident 64 hmem) (by decide)

theorem Document.Named.clsName_ident {doc : Document} (h : doc.Named) :
    ∀ c ∈ doc.clsName, isIdentChar c = true := h.clsName_vname.alphanum

theorem Document.Named.classNames {doc : Document} (h : doc.Named) : ClassNames doc := by
  have hcls := h.clsName_ident
  have hname {post : Bytes} (hpost : ∀ c ∈ post, isIdentChar c = true) :
      IsName (bytes "_" ++ doc.clsName ++ post) := by
    refine isName_low (by rw [List.append_assoc]; exact List.mem_append_left _ (by decide)) ?_
    rw [List.forall_mem_append, List.forall_mem_append]
    exact ⟨⟨forall_mem_of_all (by decide), hcls⟩, hpost⟩
  refine ⟨isName_low ?_ hcls, ?_, ?_, ?_⟩
  · -- the `/` at the end of the path
    obtain ⟨path, hpath⟩ := List.getLast?_eq_some_iff.1 h.slash
    rw [h.clsName_eq, hpath]
    exact List.mem_map.2 ⟨47, by simp, by decide⟩
  · rw [h.selfName]
    exact hname (forall_mem_of_all (by decide))
  · rw [h.selfName, List.append_assoc]
    exact List.mem_append_left _ (by decide)
  · rw [h.cbName]
    exact hname (forall_mem_of_all (by decide))

/-- A text without escapes that opens and closes brackets. -/
def Fixed (b : Bytes) (opened opened' : List Opened) : Prop := 64 ∉ b ∧ Nests b opened opened'

instance (b : Bytes) (opened opened' : List Opened) : Decidable (Fixed b opened opened') :=
  inferInstanceAs (Decidable (_ ∧ _))

section Texts

variable {env : GenEnv} {doc : Document} {opened opened' outer : List Opened} {w a b : Bytes}

theorem Fixed.fragment (h : Fixed b opened opened') : Fragment env b opened opened' where
  last hlast := h.1 (List.mem_of_getLast? hlast)
  nests := by
    rw [replaceEscapes_of_not_mem h.1]
    exact h.2

theorem Fixed.frame (h : Fixed b opened opened') (outer : List Opened) (houter : outer.head? ≠ some .tried) :
    Fixed b (opened ++ outer) (opened' ++ outer) := ⟨h.1, h.2.frame houter⟩

/-- A text that begins with a sign, behind a word. -/
theorem Fixed.behind_sign (h : Fixed b opened opened') (hopen : opened.head? ≠ some .tried)
    (hsign : ∃ c r, b = c :: r ∧ isIdentChar c = false ∧ c ≠ 47 ∧ c ≠ 42) :
    Piece env b .word opened .apart opened' := by
  obtain ⟨c, r, rfl, hident, hcomment⟩ := hsign
  refine ⟨fun hlast => h.1 (List.mem_of_getLast? hlast), ?_⟩
  rw [replaceEscapes_of_not_mem h.1]
  exact h.2.behind hopen hident hcomment

theorem fixed_nil (opened : List Opened) : Fixed [] opened opened := ⟨List.not_mem_nil, nests_nil opened⟩

/-- A text, and what comes behind it. -/
theorem fixed_text (mid : List Opened) (ha : Fixed a opened mid) (hb : Fixed b mid opened') :
    Fixed (a ++ b) opened opened' :=
  ⟨fun h => (List.mem_append.1 h).elim ha.1 hb.1, ha.2.append hb.2⟩

/-- A name and a text that does not go on with it, and what comes behind them. -/
theorem fixed_name (mid : List Opened) (hw : IsName w) (ha : (a.head?.any fun c => !isIdentChar c) = true)
    (hopen : opened.head? ≠ some .tried) (hmid : Fixed a opened mid) (hb : Fixed b mid opened') :
    Fixed (w ++ (a ++ b)) opened opened' := by
  obtain ⟨hno, hnests⟩ := fixed_text mid hmid hb
  refine ⟨fun h => (List.mem_append.1 h).elim (no_at_of_isName hw) hno, ?_⟩
  cases a with
  | nil => cases ha
  | cons c a =>
    rw [List.head?_cons, Option.any_some, Bool.not_eq_true'] at ha
    exact nests_name hw ⟨c, a ++ b, rfl, ha⟩ hnests hopen

theorem fixed_execHead (hdoc : ClassNames doc) {fn : Bytes} (hfn : IsName fn) :
    Fixed (execHead doc fn) [] inExec := by
  unfold execHead
  rw [← List.append_nil (bytes ")\x7b try\x7b")]
  simp only [List.append_assoc]
  refine fixed_text [] (by decide) ?_
  refine fixed_name [.paren] hfn (by decide) (by decide) (by decide) ?_
  refine fixed_name [.paren] hdoc.cls (by decide) (by decide) (by decide) ?_
  refine fixed_name [.paren] hdoc.self (by decide) (by decide) (by decide) ?_
  exact fixed_name inExec hdoc.cb (by decide) (by decide) (by decide) (fixed_nil _)

theorem fixed_callNext (hdoc : ClassNames doc) {fn : Bytes} (hfn : IsName fn) :
    Fixed (callNext doc fn) [] [] := by
  unfold callNext
  rw [← List.append_nil (bytes ");")]
  simp only [List.append_assoc]
  refine fixed_name [] hdoc.self (by decide) (by decide) (by decide) ?_
  refine fixed_name [.paren] hfn (by decide) (by decide) (by decide) ?_
  refine fixed_name [.paren] hdoc.self (by decide) (by decide) (by decide) ?_
  exact fixed_name [] hdoc.cb (by decide) (by decide) (by decide) (fixed_nil _)

theorem fixed_catchErr (hdoc : ClassNames doc) : Fixed (catchErr doc) [.tryBrace] [] := by
  unfold catchErr
  rw [← List.append_nil (bytes "(__err);return;\x7d")]
  simp only [List.append_assoc]
  refine fixed_text [.brace] (by decide) ?_
  exact fixed_name [] hdoc.cb (by decide) (by decide) (by decide) (fixed_nil _)

/-- A call of a function of the view. -/
theorem fixed_selfCall (hdoc : ClassNames doc) {call : Bytes} (h : Fixed (bytes "->" ++ call) opened opened')
    (hopen : opened.head? ≠ some .tried) : Fixed (selfCall doc call) opened opened' := by
  unfold selfCall
  rw [List.append_assoc, ← List.append_nil (bytes "->" ++ call)]
  exact fixed_name opened' hdoc.self rfl hopen h (fixed_nil _)

theorem fixed_commitWrite (hdoc : ClassNames doc) : Fixed (commitWrite doc (bytes "html")) [] [] :=
  fixed_selfCall hdoc (by decide) (by decide)

theorem fixed_beginWrite (hdoc : ClassNames doc) : Fixed (beginWrite doc (bytes "html")) [] [] :=
  fixed_selfCall hdoc (by decide) (by decide)

/-- A text that begins with a call of a function of the view. -/
def BeginsSelf (doc : Document) (b : Bytes) : Prop := ∃ r, b = doc.selfName ++ 45 :: r

theorem BeginsSelf.append (h : BeginsSelf doc a) (b : Bytes) : BeginsSelf doc (a ++ b) := by
  obtain ⟨r, rfl⟩ := h
  exact ⟨r ++ b, by rw [List.append_assoc, List.cons_append]⟩

theorem beginsSelf_selfCall (doc : Document) (call : Bytes) : BeginsSelf doc (selfCall doc call) :=
  ⟨62 :: call, by rw [selfCall, List.append_assoc]; rfl⟩

theorem beginsSelf_callNext (doc : Document) (fn : Bytes) : BeginsSelf doc (callNext doc fn) := by
  refine ⟨62 :: (fn ++ bytes "(" ++ doc.selfName ++ bytes ", " ++ doc.cbName ++ bytes ");"), ?_⟩
  rw [callNext]
  simp only [List.append_assoc]
  rfl

/-- A name with a `_` does not become `try` with what is before it. -/
theorem append_ne_try {v : Bytes} (hlow : 95 ∈ v) (w : Bytes) : w ++ v ≠ bytes "try" := by
  intro heq
  have hmem : 95 ∈ bytes "try" := heq ▸ List.mem_append_right w hlow
  exact absurd hmem (by decide)

/-- A call of a function of the view, behind a word. -/
theorem Fragment.behind (h : Fragment env b opened opened') (hdoc : ClassNames doc)
    (hself : BeginsSelf doc b) (hopen : opened.head? ≠ some .tried) :
    Piece env b .word opened .apart opened' := by
  obtain ⟨r, rfl⟩ := hself
  exact h.behind_word hopen rfl (by decide) hdoc.self.ident (append_ne_try hdoc.selfLow) hdoc.self.ne

/-- What closes the functions and the `try`s that partial renderings opened. -/
theorem fixed_closeAll (hdoc : ClassNames doc) (k : Nat) (houter : outer.head? ≠ some .tried) :
    Fixed (repeated k (catchErr doc ++ bytes "\x7d);")) (renderings k ++ outer) outer := by
  have hone : Fixed (catchErr doc ++ bytes "\x7d);") rendering [] :=
    fixed_text [.brace, .paren] ((fixed_catchErr hdoc).frame [.brace, .paren] (by decide))
      (by decide)
  induction k with
  | zero => exact fixed_nil outer
  | succ k ih =>
    rw [renderings_succ, List.append_assoc]
    exact fixed_text _ (hone.frame _ (head_renderings houter k)) ih

set_option maxRecDepth 20000 in
/-- **Behind the last node everything is closed.** -/
theorem fixed_finish (hdoc : ClassNames doc) (k : Nat) :
    Fixed ((BodyPart.finish k).text doc) (renderings k ++ inExec) [] := by
  have hexec : inExec.head? ≠ some .tried := by decide
  have hcallback : Fixed (doc.cbName ++ bytes "(nullptr);") [] [] := by
    rw [← List.append_nil (bytes "(nullptr);")]
    exact fixed_name [] hdoc.cb (by decide) (by decide) (by decide) (fixed_nil _)
  unfold BodyPart.text
  simp only [List.append_assoc]
  refine fixed_text _ ((fixed_commitWrite hdoc).frame _ (head_renderings hexec k)) ?_
  rw [← List.append_assoc doc.cbName]
  refine fixed_text _ (hcallback.frame _ (head_renderings hexec k)) ?_
  refine fixed_text _ (fixed_closeAll hdoc k hexec) ?_
  refine fixed_text [.brace] ((fixed_catchErr hdoc).frame [.brace] (by decide)) ?_
  decide

theorem fixed_enter (hdoc : ClassNames doc) {fn : Bytes} (hfn : IsName fn) :
    Fixed ((BodyPart.enter fn).text doc) [] inExec :=
  fixed_text [] (by decide) (fixed_execHead hdoc hfn)

/-- Before a function block everything is closed if no partial rendering is open. -/
theorem fixed_leave (hdoc : ClassNames doc) {fn : Bytes} (hfn : IsName fn) :
    Fixed ((BodyPart.leave fn 0).text doc) inExec [] := by
  unfold BodyPart.text
  simp only [List.append_assoc]
  refine fixed_text inExec ((fixed_callNext hdoc hfn).frame inExec (by decide)) ?_
  exact fixed_text [.brace] ((fixed_catchErr hdoc).frame [.brace] (by decide)) (by decide)

end Texts

/-! ## Literal text -/

section Literals

variable {env : GenEnv} {doc : Document} {opened : List Opened}

/-- A character is escaped with a backslash, ends a line, or stays. -/
theorem escapeChar_cases (c : UInt8) :
    (∃ d ∈ [92, 34, 116, 114], escapeChar c = [92, d]) ∨ escapeChar c = [92, 110, 34, 10, 34] ∨
      (c ≠ 34 ∧ c ≠ 92 ∧ c ≠ 10) ∧ escapeChar c = [c] := by
  unfold escapeChar
  split
  · exact .inl ⟨92, by decide, rfl⟩
  · split
    · exact .inl ⟨34, by decide, rfl⟩
    · split
      · exact .inl ⟨116, by decide, rfl⟩
      · split
        · exact .inl ⟨114, by decide, rfl⟩
        · split
          · exact .inr (.inl rfl)
          · exact .inr (.inr ⟨⟨by assumption, by assumption, by assumption⟩, rfl⟩)

theorem inString_escapeChar (c : UInt8) : InString (escapeChar c) := by
  rcases escapeChar_cases c with ⟨d, -, heq⟩ | heq | ⟨hplain, heq⟩
  · rw [heq]
    exact ⟨0, rfl⟩
  · rw [heq]
    exact ⟨1, by decide⟩
  · rw [heq]
    refine inString_plain fun d hd => ?_
    rw [List.mem_singleton.1 hd]
    exact hplain

theorem replaceAll_escapeChar {x : UInt8} {r : Bytes} (hx : escapeChar x = [x]) (hne : x ≠ 92)
    (hr : r.flatMap escapeChar = r) (l : Bytes) :
    replaceAll [64, x] r (l.flatMap escapeChar) = (replaceAll [64, x] r l).flatMap escapeChar := by
  refine replaceAll_pair_flatMap (by decide) hx hr (fun c hc => ?_) (fun c hc => ?_) l
  · rcases escapeChar_cases c with ⟨d, hd, heq⟩ | heq | ⟨-, heq⟩
    · rw [heq]
      intro hmem
      rcases List.mem_cons.1 hmem with hslash | hlast
      · exact absurd hslash (by decide)
      · rw [← List.mem_singleton.1 hlast] at hd
        exact absurd hd (by decide)
    · rw [heq]
      decide
    · rw [heq]
      exact fun h => hc (List.mem_singleton.1 h).symm
  · rcases escapeChar_cases c with ⟨d, -, heq⟩ | heq | ⟨-, heq⟩
    · exact ⟨_, _, heq, hne.symm⟩
    · exact ⟨_, _, heq, hne.symm⟩
    · exact ⟨_, _, heq, hc⟩

/-- The string literal of a text, with the escapes replaced in it. -/
theorem replaceEscapes_escape (env : GenEnv) (l : Bytes) :
    replaceEscapes env (escapeCppSource env l) = escapeCppSource env (replaceEscapes env l) := by
  rw [escapeCppSource_eq, escapeCppSource_eq, replaceEscapes_eq, replaceEscapes_eq,
    replaceAll_pair_quotes (by decide), replaceAll_pair_quotes (by decide),
    replaceAll_escapeChar (by decide) (by decide) (by decide),
    replaceAll_escapeChar (by decide) (by decide) (by decide)]

theorem fragment_escape (l : Bytes) (hopen : opened.head? ≠ some .tried) :
    Fragment env (escapeCppSource env l) opened opened where
  last := by
    rw [escapeCppSource_eq, ← List.cons_append, List.getLast?_concat]
    decide
  nests := by
    rw [replaceEscapes_escape, escapeCppSource_eq]
    exact nests_string (inString_flatMap inString_escapeChar _) hopen

/-- The name of a class with its namespace. -/
def Qualified (s : Bytes) : Prop :=
  ∃ ns cls, s = ns ++ (bytes "::" ++ cls) ∧ (∀ c ∈ ns, isIdentChar c = true ∨ c = 58) ∧ IsName cls

theorem Qualified.fixed {s : Bytes} (h : Qualified s) (hopen : opened.head? ≠ some .tried) {a : Bytes}
    {opened' : List Opened} (ha : (a.head?.any fun c => !isIdentChar c) = true) (hnests : Fixed a opened opened') :
    Fixed (s ++ a) opened opened' := by
  obtain ⟨ns, cls, rfl, hns, hcls⟩ := h
  have hscope : Fixed (ns ++ bytes "::") opened opened := by
    refine ⟨fun hmem => ?_, nests_scope hns hopen⟩
    rcases List.mem_append.1 hmem with hmem | hmem
    · exact absurd (hns 64 hmem) (by decide)
    · exact absurd hmem (by decide)
  have hname := fixed_name opened' hcls ha hopen hnests (fixed_nil opened')
  rw [List.append_nil] at hname
  rw [← List.append_assoc, List.append_assoc]
  exact fixed_text opened hscope hname

/-- What the word `write_raw` becomes: it is the name of a class if the document has it for an alias. -/
theorem fixed_writeCall (hitems : ∀ ii ∈ doc.inheritsItems, Qualified ii.nsclsName) :
    Fixed (fanKeyWord doc (bytes "write_raw") ++ bytes "(") [] [.paren] := by
  have hplain : IsName (bytes "write_raw") := isName_low (by decide) (forall_mem_of_all (by decide))
  have hword : ∀ c ∈ bytes "write_raw", isFanWord c = true := forall_mem_of_all (by decide)
  have hkey : bytes "write_raw" ∉ fanKeys := by decide
  have hparen : Fixed (bytes "(") [] [.paren] := by decide
  have hcolon : ∀ ii ∈ doc.inheritsItems, 58 ∈ ii.nsclsName := by
    intro ii hii
    obtain ⟨ns, cls, heq, -, -⟩ := hitems ii hii
    rw [heq]
    exact List.mem_append_right _ (List.mem_append_left _ (by decide))
  by_cases halias : ∀ ii ∈ doc.inheritsItems, ii.aliasName ≠ bytes "write_raw"
  · rw [fanKeyWord_plain (by decide) hword hkey halias, ← List.append_nil (bytes "(")]
    exact fixed_name [.paren] hplain rfl (by decide) hparen (fixed_nil _)
  · push Not at halias
    obtain ⟨ii, hii, hiialias⟩ := halias
    obtain ⟨ii', hii', heq⟩ := fanKeyWord_alias hcolon (by decide) hword hkey hii hiialias
    rw [heq]
    exact (hitems ii' hii').fixed (by decide) rfl hparen

theorem fanKeyWord_this (hdoc : ClassNames doc) : fanKeyWord doc (bytes "@this") = doc.selfName := by
  have hself : replaceAlias doc (bytes "@this") = doc.selfName := by
    rw [replaceAlias_word (by decide) (forall_mem_of_all (by decide))]
    exact if_pos rfl
  have hno : ∀ key : Bytes, 64 ∈ key → doc.selfName ≠ key := by
    rintro key hkey rfl
    exact no_at_of_isName hdoc.self hkey
  unfold fanKeyWord
  simp only [hself, hno _ (by decide : (64 : UInt8) ∈ bytes "@this"),
    hno _ (by decide : (64 : UInt8) ∈ bytes "@type"), hno _ (by decide : (64 : UInt8) ∈ bytes "@shared_type"),
    hno _ (by decide : (64 : UInt8) ∈ bytes "@req"), hno _ (by decide : (64 : UInt8) ∈ bytes "@res"),
    hno _ (by decide : (64 : UInt8) ∈ bytes "@cb"), hno _ (by decide : (64 : UInt8) ∈ bytes "@filename"),
    hno _ (by decide : (64 : UInt8) ∈ bytes "@dirname"), if_false]

theorem writeBegin_eq (hdoc : ClassNames doc) : replaceFanKeys doc (bytes "@this->write_raw(")
    = doc.selfName ++ (bytes "->" ++ (fanKeyWord doc (bytes "write_raw") ++ bytes "(")) := by
  have htext : bytes "@this->write_raw(" = bytes "@this" ++ 45 :: 62 :: (bytes "write_raw" ++ 40 :: []) := by
    decide
  rw [replaceFanKeys, htext, replaceWords_sep _ _ (by decide),
    replaceWords_word (forall_mem_of_all (by decide)) (by decide),
    fanKeyWord_this hdoc]
  rfl

theorem beginsSelf_writeRaw (hdoc : ClassNames doc) (l : Bytes) : BeginsSelf doc (writeRaw env doc l) := by
  unfold writeRaw
  rw [writeBegin_eq hdoc]
  have hbegin : BeginsSelf doc (doc.selfName ++ (bytes "->" ++ (fanKeyWord doc (bytes "write_raw") ++ bytes "("))) :=
    ⟨62 :: (fanKeyWord doc (bytes "write_raw") ++ bytes "("), rfl⟩
  exact (hbegin.append _).append _

variable (env) in
theorem fragment_writeRaw (hdoc : ClassNames doc) (hitems : ∀ ii ∈ doc.inheritsItems, Qualified ii.nsclsName)
    (l : Bytes) (hopen : opened.head? ≠ some .tried) : Fragment env (writeRaw env doc l) opened opened := by
  have hend : replaceFanKeys doc (bytes ");") = bytes ");" := rfl
  have hhead : Fixed (doc.selfName ++ (bytes "->" ++ (fanKeyWord doc (bytes "write_raw") ++ bytes "(")))
      opened (.paren :: opened) :=
    have harrow : Fixed (bytes "->") [] [] := by decide
    (fixed_name [] hdoc.self rfl (by decide) harrow (fixed_writeCall hitems)).frame opened hopen
  have htail : Fixed (bytes ");") (.paren :: opened) opened :=
    Fixed.frame (by decide : Fixed (bytes ");") [.paren] []) opened hopen
  unfold writeRaw
  rw [writeBegin_eq hdoc, hend]
  exact (hhead.fragment.append (fragment_escape l (fun h => (by cases h)))).append htail.fragment

end Literals

/-! ## The nodes of a page -/

/-- What is generated closes its brackets. It may end in a word. -/
def BalancedCode (env : GenEnv) (g : Gen) : Prop :=
  ∀ st, ∃ b st', g st = .ok (b, st') ∧ st'.scopeLevel = st.scopeLevel ∧ Piece env b .apart [] .word []

/-- A name that can stand in quotes. -/
def IsViewName (s : Bytes) : Prop := ∀ c ∈ s, c ≠ 34 ∧ c ≠ 92 ∧ c ≠ 10

instance (s : Bytes) : Decidable (IsViewName s) :=
  List.decidableBAll (fun c => c ≠ 34 ∧ c ≠ 92 ∧ c ≠ 10) s

/-- Literal text. -/
def Node.isText : Node → Bool
  | .token _ => true
  | .node .. => false

/-- A code block. -/
def Node.isBlock : Node → Bool
  | .node .codeBlock .. => true
  | _ => false

/-- A function block. -/
def Node.isFun : Node → Bool
  | .node (.codeFun ..) .. => true
  | _ => false

/-- Whether a code block comes first, behind directives at most. -/
def startsCode : List Node → Bool
  | [] => false
  | .node (.directive ..) _ _ _ :: ns => startsCode ns
  | n :: _ => n.isBlock

/-- What is generated for the node does not end in a word. -/
def Node.EndsApart (env : GenEnv) (doc : Document) (n : Node) : Prop :=
  ∀ st b st', n.gen env doc .literal st = .ok (b, st') →
    ∀ c, b.getLast? = some c → isIdentChar c = false ∧ c ≠ 47

mutual

/-- A page is made of literal text, tags, outputs, code blocks and partial renderings. The code in them
    closes its brackets, and the views are named. -/
def Node.IsPage (env : GenEnv) (doc : Document) : Node → Prop
  | .token _ => True
  | .node (.tag _) _ _ childs =>
    (childs.head?.any Node.isText = true ∧ childs.getLast?.any Node.isText = true) ∧ PageNodes env doc childs
  | .node (.string ..) _ _ childs =>
    (childs.head?.any Node.isText = true ∧ childs.getLast?.any Node.isText = true) ∧ PageNodes env doc childs
  | .node (.output ..) _ _ childs =>
    match childs with
    | _ :: .node _ _ _ nds :: _ =>
      BalancedCode env ((genCode env doc .cpp false true nds).map (replaceFanKeys doc))
    | _ => False
  | .node .codeBlock _ _ childs =>
    match childs with
    | fn :: cns =>
      fn.tokenText = bytes "@\x7b" ∧
        BalancedCode env ((genCode env doc .cpp false true cns).map (replaceFanKeys doc))
    | [] => False
  | .node (.fanFn .render _) _ _ childs =>
    match childs with
    | fn :: .node _ _ _ nds :: _ =>
      fn.tokenText = bytes "@>" ∧
        if nds.dropLast.all Node.isText then
          IsViewName (env.trim (replaceFanKeys doc (tokenTexts nds.dropLast)))
        else BalancedCode env ((genCode env doc .cpp false true nds).map (replaceFanKeys doc))
    | _ => False
  | .node (.directive ..) _ _ _ => True
  | _ => False

/-- A page, node by node. Where one code block comes directly behind another, the code of the first one
    does not end in a word. -/
def PageNodes (env : GenEnv) (doc : Document) : List Node → Prop
  | [] => True
  | n :: ns =>
    n.IsPage env doc ∧ (n.isBlock = true → startsCode ns = true → n.EndsApart env doc) ∧ PageNodes env doc ns

end

/-- A function block whose code closes its brackets. -/
def Node.IsFunBlock (env : GenEnv) (doc : Document) : Node → Prop
  | .node (.codeFun .codeFunc _) _ _ _ => True
  | .node (.codeFun .codeFuni _) _ _ childs =>
    match childs with
    | _ :: .node _ _ _ (_ :: nds) :: _ =>
      BalancedCode env ((genCode env doc .cpp false true nds).map (replaceFanKeys doc))
    | _ => False
  | _ => False

/-- A template: a page with function blocks. -/
def TemplateNodes (env : GenEnv) (doc : Document) : List Node → Prop
  | [] => True
  | n :: ns =>
    (n.IsPage env doc ∨ n.IsFunBlock env doc) ∧
      (n.isBlock = true → startsCode ns = true → n.EndsApart env doc) ∧ TemplateNodes env doc ns

mutual

/-- How many partial renderings a node of a page has in it. -/
def Node.renders : Node → Nat
  | .node (.tag _) _ _ childs => rendersAll childs
  | .node (.string ..) _ _ childs => rendersAll childs
  | .node (.fanFn .render _) _ _ _ => 1
  | _ => 0

/-- How many they are in several nodes. -/
def rendersAll : List Node → Nat
  | [] => 0
  | n :: ns => n.renders + rendersAll ns

end

/-- What is generated opens what `k` partial renderings open, between the edges, and counts them. -/
def Renders (env : GenEnv) (g : Gen) (e e' : Edge) (k : Nat) : Prop :=
  ∀ st, ∃ b st', g st = .ok (b, st') ∧ st'.scopeLevel = st.scopeLevel + k ∧
    ∀ outer : List Opened, outer.head? ≠ some .tried → Piece env b e outer e' (renderings k ++ outer)

section Renders

variable {env : GenEnv} {doc : Document} {g h : Gen} {e e' e'' : Edge} {k m : Nat}

theorem Renders.append (hg : Renders env g e e' k) (hh : Renders env h e' e'' m) :
    Renders env (g ++ h) e e'' (k + m) := by
  intro st
  obtain ⟨a, st', hga, hlevel, hpiece⟩ := hg st
  obtain ⟨b, st'', hhb, hlevel', hpiece'⟩ := hh st'
  refine ⟨a ++ b, st'', ?_, by omega, fun outer houter => ?_⟩
  · show Gen.append g h st = _
    rw [Gen.append, hga]
    dsimp only
    rw [hhb]
  · rw [Nat.add_comm k m, renderings_add, List.append_assoc]
    exact (hpiece outer houter).append (hpiece' _ (head_renderings houter k))

theorem Renders.of_word (h : Renders env g .word e' k) (e : Edge) : Renders env g e e' k := by
  intro st
  obtain ⟨b, st', hgb, hlevel, hpiece⟩ := h st
  exact ⟨b, st', hgb, hlevel, fun outer houter => (hpiece outer houter).of_word e⟩

theorem renders_text {b : Bytes}
    (hb : ∀ outer : List Opened, outer.head? ≠ some .tried → Piece env b e outer e' outer) :
    Renders env (.text b) e e' 0 := fun st => ⟨b, st, rfl, rfl, hb⟩

theorem BalancedCode.renders (hg : BalancedCode env g) : Renders env g .apart .word 0 := by
  intro st
  obtain ⟨b, st', hgb, hlevel, hpiece⟩ := hg st
  exact ⟨b, st', hgb, hlevel, fun outer houter => hpiece.frame houter⟩

/-- Code that does not end in a word. -/
theorem Renders.ends (hg : Renders env g .apart .word 0)
    (hends : ∀ st b st', g st = .ok (b, st') → ∀ c, b.getLast? = some c → isIdentChar c = false ∧ c ≠ 47) :
    Renders env g .apart .apart 0 := by
  intro st
  obtain ⟨b, st', hgb, hlevel, hpiece⟩ := hg st
  refine ⟨b, st', hgb, hlevel, fun outer houter => ?_⟩
  obtain ⟨hlast, hruns⟩ := hpiece outer houter
  refine ⟨hlast, hruns.ends fun c hc => hends st b st' hgb c ?_⟩
  rw [replaceEscapes_eq, getLast?_replaceAll_pair, getLast?_replaceAll_pair hlast] at hc
  · exact hc
  · rw [getLast?_replaceAll_pair hlast]
    exact hlast

/-- Code in a call. -/
theorem BalancedCode.call (hg : BalancedCode env g) {a : Bytes} (ha : Fixed a [] [.paren]) (hdoc : ClassNames doc)
    (hself : BeginsSelf doc a) : Renders env (.text a ++ g ++ .text (bytes ");")) .word .apart 0 := by
  intro st
  obtain ⟨c, st', hgc, hlevel, hpiece⟩ := hg st
  refine ⟨a ++ c ++ bytes ");", st', ?_, hlevel, fun outer houter => ?_⟩
  · show Gen.append (Gen.append (.text a) g) (.text (bytes ");")) st = _
    simp only [Gen.append, Gen.text, hgc]
  · have hparen : (Opened.paren :: outer).head? ≠ some .tried := fun heq => (by cases heq)
    have hend : Fixed (bytes ");") (.paren :: outer) outer :=
      Fixed.frame (by decide : Fixed (bytes ");") [.paren] []) outer houter
    exact (((ha.frame outer houter).fragment.behind hdoc hself houter).append (hpiece.frame hparen)).append
      (hend.behind_sign hparen ⟨41, [59], by decide, by decide, by decide⟩)

end Renders

/-! ## What the nodes open -/

section Nodes

variable {env : GenEnv} {doc : Document} {opened : List Opened}

theorem not_mem_of_mem_splitOn {x : UInt8} {s l : Bytes} (h : l ∈ s.splitOn x) : x ∉ l := by
  induction s generalizing l with
  | nil =>
    rw [List.splitOn_nil, List.mem_singleton] at h
    rw [h]
    exact List.not_mem_nil
  | cons c s ih =>
    rw [List.splitOn_cons_eq_if_modifyHead] at h
    split at h
    · rcases List.mem_cons.1 h with rfl | hrest
      · exact List.not_mem_nil
      · exact ih hrest
    · next hc =>
      cases hs : s.splitOn x with
      | nil =>
        rw [hs] at h
        cases h
      | cons first rest =>
        rw [hs] at h ih
        rcases List.mem_cons.1 h with rfl | hrest
        · rw [List.mem_cons, not_or]
          exact ⟨fun heq => hc (beq_iff_eq.2 heq.symm), ih List.mem_cons_self⟩
        · exact ih (List.mem_cons_of_mem _ hrest)

/-- A line as a comment. -/
theorem fragment_comment {l : Bytes} (hl : 10 ∉ l) (opened : List Opened) :
    Fragment env (bytes "// " ++ l ++ bytes "\n") opened opened := by
  have hslashes : bytes "// " = [47, 47, 32] := by decide
  have hline : bytes "\n" = [10] := by decide
  rw [hslashes, hline]
  refine ⟨by rw [List.getLast?_concat]; decide, ?_⟩
  have hend {c : UInt8} {r s : Bytes} (hc : c ≠ 10) :
      replaceAll [64, c] r (s ++ [10]) = replaceAll [64, c] r s ++ [10] := by
    rw [replaceAll_pair_append, replaceAll_of_not_mem (by decide : (64 : UInt8) ∉ [10])]
    exact fun _ hhead => hc (Option.some.inj hhead).symm
  have hno : (10 : UInt8) ∉ replaceEscapes env l := by
    rw [replaceEscapes_eq]
    intro hmem
    rcases mem_replaceAll (List.cons_ne_nil _ _) hmem with h | hmem
    · exact absurd h (by decide)
    · rcases mem_replaceAll (List.cons_ne_nil _ _) hmem with h | h
      · exact absurd h (by decide)
      · exact hl h
  have htext : replaceEscapes env ([47, 47, 32] ++ l ++ [10])
      = 47 :: 47 :: (32 :: replaceEscapes env l ++ [10]) := by
    rw [replaceEscapes_eq, hend (by decide), hend (by decide), ← replaceEscapes_eq,
      replaceEscapes_append (by decide), replaceEscapes_of_not_mem (by decide)]
    rfl
  rw [htext]
  refine nests_comment ?_ opened
  rw [List.mem_cons, not_or]
  exact ⟨by decide, hno⟩

/-- Lines as comments. -/
theorem fragment_comments (ls : List Bytes) (hls : ∀ l ∈ ls, 10 ∉ l) (opened : List Opened) :
    Fragment env (ls.flatMap fun l => bytes "// " ++ l ++ bytes "\n") opened opened := by
  induction ls with
  | nil => exact fragment_nil opened
  | cons l ls ih =>
    rw [List.forall_mem_cons] at hls
    rw [List.flatMap_cons]
    exact (fragment_comment hls.1 opened).append (ih hls.2)

/-- A name that `unique_ident` makes. -/
theorem isName_unique (hnum : ∀ n, ∀ c ∈ env.numToStr n, isAlphanum c = true) {pre : Bytes}
    (hpre : ∀ c ∈ pre, isIdentChar c = true) (n : Nat) : IsName (pre ++ bytes "_" ++ env.numToStr n) := by
  refine isName_low ?_ ?_
  · exact List.mem_append_left _ (List.mem_append_right _ (by decide))
  · rw [List.forall_mem_append, List.forall_mem_append]
    exact ⟨⟨hpre, forall_mem_of_all (by decide)⟩, hnum n⟩

theorem isName_exec (hnum : ∀ n, ∀ c ∈ env.numToStr n, isAlphanum c = true) (hdoc : ClassNames doc)
    {st st' : GenState} {name : Bytes} (h : execName env doc st = .ok (name, st')) :
    IsName name ∧ st'.scopeLevel = st.scopeLevel := by
  cases h
  refine ⟨isName_unique hnum ?_ _, rfl⟩
  rw [List.forall_mem_append]
  exact ⟨forall_mem_of_all (by decide), hdoc.cls.ident⟩

/-- **A partial rendering opens a call, a function and a `try`.** -/
theorem renders_renderCall (hnum : ∀ n, ∀ c ∈ env.numToStr n, isAlphanum c = true) (hdoc : ClassNames doc)
    {vs : Bytes} (hvs : Piece env vs .apart [] .word []) : Renders env (renderCall env doc vs) .word .apart 1 := by
  intro st
  have herr : IsName (bytes "__err_" ++ doc.clsName ++ bytes "_" ++ env.numToStr (st.idents + 1)) := by
    refine isName_unique hnum ?_ _
    rw [List.forall_mem_append]
    exact ⟨forall_mem_of_all (by decide), hdoc.cls.ident⟩
  refine ⟨_, ⟨st.scopeLevel + 1, st.idents + 1⟩, rfl, rfl, fun outer houter => ?_⟩
  have hcall : Fixed (doc.selfName ++ (bytes "->" ++ bytes "render_view(")) [] [.paren] :=
    fixed_name [] hdoc.self rfl (by decide) (by decide) (by decide)
  have hrest : Fixed (bytes ", [" ++ (doc.selfName ++ (bytes ", " ++ (doc.cbName
      ++ (bytes "](md::callback::cb_error " ++ ((bytes "__err_" ++ doc.clsName ++ bytes "_"
      ++ env.numToStr (st.idents + 1)) ++ (bytes ")\x7b if(" ++ ((bytes "__err_" ++ doc.clsName ++ bytes "_"
      ++ env.numToStr (st.idents + 1)) ++ (bytes ")\x7b " ++ (doc.cbName ++ (bytes "("
      ++ ((bytes "__err_" ++ doc.clsName ++ bytes "_" ++ env.numToStr (st.idents + 1))
      ++ (bytes "); return; \x7d try\x7b " ++ []))))))))))))) [.paren] rendering := by
    refine fixed_text [.paren] (by decide) ?_
    refine fixed_name [.paren] hdoc.self rfl (by decide) (by decide) ?_
    refine fixed_name [.paren, .paren] hdoc.cb rfl (by decide) (by decide) ?_
    refine fixed_name [.paren, .brace, .paren] herr rfl (by decide) (by decide) ?_
    refine fixed_name [.brace, .brace, .paren] herr rfl (by decide) (by decide) ?_
    refine fixed_name [.paren, .brace, .brace, .paren] hdoc.cb rfl (by decide) (by decide) ?_
    exact fixed_name rendering herr rfl (by decide) (by decide) (fixed_nil _)
  have hparen : (Opened.paren :: outer).head? ≠ some .tried := fun heq => (by cases heq)
  have hbegin : BeginsSelf doc (doc.selfName ++ (bytes "->" ++ bytes "render_view(")) :=
    ⟨62 :: bytes "render_view(", rfl⟩
  have hall : Piece env _ .word outer .apart (renderings 1 ++ outer) :=
    (((hcall.frame outer houter).fragment.behind hdoc hbegin houter).append (hvs.frame hparen)).append
      ((hrest.frame outer houter).behind_sign hparen ⟨44, _, rfl, by decide, by decide⟩)
  simpa only [selfCall, List.append_assoc, List.append_nil] using hall

/-- What the document and the environment are like. -/
structure ViewNames (env : GenEnv) (doc : Document) : Prop where
  names : ClassNames doc
  items : ∀ ii ∈ doc.inheritsItems, Qualified ii.nsclsName
  digits : ∀ n, ∀ c ∈ env.numToStr n, isAlphanum c = true

/-- Where the text so far is written, no word goes on behind it. -/
def writtenEdge (pending : Option Bytes) (e : Edge) : Edge := if pending.isSome then .apart else e

theorem renders_writePending (hview : ViewNames env doc) (pending : Option Bytes) (e : Edge) :
    Renders env (.text (writePending env doc pending)) e (writtenEdge pending e) 0 := by
  cases pending with
  | none => exact renders_text fun outer _ => piece_nil e outer
  | some text =>
    refine renders_text fun outer houter => ?_
    have hwrite := fragment_writeRaw env hview.names hview.items text houter
    exact (hwrite.behind hview.names (beginsSelf_writeRaw hview.names text) houter).of_word e

/-- What an output writes. -/
theorem renders_output (hview : ViewNames env doc) (sec : OutputSec) {g : Gen} (hg : BalancedCode env g) :
    Renders env (.text (selfCall doc (if sec = .outputEnc then bytes "write_enc(" else bytes "write_raw("))
      ++ g ++ .text (bytes ");")) .word .apart 0 := by
  refine hg.call ?_ hview.names (beginsSelf_selfCall doc _)
  split
  · exact fixed_selfCall hview.names (by decide) (by decide)
  · exact fixed_selfCall hview.names (by decide) (by decide)

/-- What a view is named by. -/
theorem fragment_viewName {s : Bytes} (hs : IsViewName s) :
    Fragment env (bytes "\"" ++ s ++ bytes "\"") [] [] := by
  have hquote : bytes "\"" = [34] := by decide
  have hplain : IsViewName (replaceEscapes env s) := by
    rw [replaceEscapes_eq]
    intro c hc
    rcases mem_replaceAll (List.cons_ne_nil _ _) hc with h | hmem
    · rw [List.mem_singleton.1 h]
      decide
    · rcases mem_replaceAll (List.cons_ne_nil _ _) hmem with h | h
      · rw [List.mem_singleton.1 h]
        decide
      · exact hs c h
  rw [hquote]
  refine ⟨by rw [List.getLast?_concat]; decide, ?_⟩
  have htext : replaceEscapes env ([34] ++ s ++ [34]) = 34 :: (replaceEscapes env s ++ [34]) := by
    rw [replaceEscapes_eq, replaceEscapes_eq]
    exact (congrArg _ (replaceAll_pair_quotes (by decide) s)).trans (replaceAll_pair_quotes (by decide) _)
  rw [htext]
  exact nests_string (inString_plain hplain) (by decide)

theorem Gen.bind_eq {g : Gen} {f : Bytes → Gen} {st st' : GenState} {b : Bytes} (h : g st = .ok (b, st')) :
    g.bind f st = f b st' := by
  unfold Gen.bind
  rw [h]

/-- A partial rendering of a view that an expression names. -/
theorem renders_bind (hview : ViewNames env doc) {g : Gen} (hg : BalancedCode env g) :
    Renders env (g.bind (renderCall env doc)) .word .apart 1 := by
  intro st
  obtain ⟨vs, st', hvs, hlevel, hpiece⟩ := hg st
  rw [Gen.bind_eq hvs, ← hlevel]
  exact renders_renderCall hview.digits hview.names hpiece st'

/-- What is generated for a code block. -/
theorem balanced_block {n : Node} (hn : n.isBlock = true) (hpage : n.IsPage env doc) :
    BalancedCode env (n.gen env doc .literal) := by
  match n, hn with
  | .node .codeBlock _ _ childs, _ =>
    match childs, hpage with
    | fn :: cns, hpage =>
      simp only [Node.gen, hpage.1, if_pos]
      exact hpage.2

/-- Where the code of a block may end in a word: not where another block comes directly behind it. -/
def blockEdge (ns : List Node) : Edge := if startsCode ns then .apart else .word

theorem renders_block {n : Node} {ns : List Node} (hn : n.isBlock = true) (hpage : n.IsPage env doc)
    (hends : startsCode ns = true → n.EndsApart env doc) :
    Renders env (n.gen env doc .literal) .apart (blockEdge ns) 0 := by
  have hcode := (balanced_block hn hpage).renders
  unfold blockEdge
  split
  · next hstarts => exact hcode.ends (hends hstarts)
  · exact hcode

/-- Whether what is to be written ends with text. -/
def endsText (pending : Option Bytes) (ns : List Node) : Bool :=
  match ns.getLast? with
  | some n => n.isText
  | none => pending.isSome

theorem endsText_cons {pending : Option Bytes} {n : Node} {ns : List Node}
    (h : endsText pending (n :: ns) = true) (pending' : Option Bytes)
    (hn : n.isText = true → pending'.isSome = true) : endsText pending' ns = true := by
  unfold endsText at h ⊢
  rw [List.getLast?_cons] at h
  cases hlast : ns.getLast? with
  | none =>
    rw [hlast] at h
    exact hn h
  | some last =>
    rw [hlast] at h
    exact h

theorem isGenerated_of_not_directive {kind : NodeKind} (hkind : ¬ kind.isDirective = true) (line col : Nat)
    (childs : List Node) : (Node.node kind line col childs).isGenerated = true := by
  rw [Node.isGenerated, Bool.not_eq_true', ← Bool.not_eq_true]
  exact hkind

/-- Where a word may go on, no code block comes next. -/
theorem startsCode_written {pending : Option Bytes} {e : Edge} {ns : List Node}
    (hstarts : e = .word → pending = none → startsCode ns = false) (he : writtenEdge pending e = .word) :
    startsCode ns = false := by
  unfold writtenEdge at he
  split at he
  · cases he
  · next hnone => exact hstarts he (Option.not_isSome_iff_eq_none.1 hnone)

/-- A node of a page, and what may come behind it. -/
theorem renders_inline {n : Node} {ns : List Node} {e : Edge} (hpage : n.IsPage env doc)
    (hn : n.isGenerated = true) (hends : n.isBlock = true → startsCode ns = true → n.EndsApart env doc)
    (hstarts : e = .word → startsCode (n :: ns) = false)
    (hnode : n.isBlock = false → Renders env (n.gen env doc .literal) .word .apart n.renders) :
    ∃ e' : Edge, (e' = .word → startsCode ns = false) ∧
      Renders env (n.gen env doc .literal) e e' n.renders := by
  cases hblock : n.isBlock with
  | false => exact ⟨.apart, fun he => (by cases he), (hnode hblock).of_word e⟩
  | true =>
    obtain ⟨line, col, childs, rfl⟩ : ∃ line col childs, n = .node .codeBlock line col childs := by
      match n, hblock with
      | .node .codeBlock line col childs, _ => exact ⟨line, col, childs, rfl⟩
    have hedge : e = .apart := by
      cases e with
      | apart => rfl
      | word => cases hstarts rfl
    rw [hedge]
    refine ⟨blockEdge ns, fun he => ?_, renders_block hblock hpage (hends hblock)⟩
    unfold blockEdge at he
    split at he
    · cases he
    · next hno => exact Bool.eq_false_iff.2 hno

mutual

/-- **What is generated for a node of a page opens what the partial renderings in it open.** -/
theorem Node.renders_gen (hview : ViewNames env doc) : (n : Node) → n.IsPage env doc → n.isGenerated = true →
    n.isBlock = false → Renders env (n.gen env doc .literal) .word .apart n.renders
  | .token _, _, hn, _ => by cases hn
  | .node .codeBlock .., _, _, hn => by cases hn
  | .node (.tag _) _ _ childs, h, _, _ => by
    match childs, h with
    | .token ts :: cs, h =>
      simp only [Node.gen, List.isEmpty_cons, Bool.false_eq_true, if_false]
      exact renders_genWrites hview (.token ts :: cs) h.2 none .word (fun _ _ => rfl) h.1.2
  | .node (.string ..) _ _ childs, h, _, _ => by
    match childs, h with
    | .token ts :: cs, h =>
      simp only [Node.gen, List.isEmpty_cons, Bool.false_eq_true, if_false]
      exact renders_genWrites hview (.token ts :: cs) h.2 none .word (fun _ _ => rfl) h.1.2
  | .node (.output sec _) _ _ childs, h, _, _ => by
    match childs, h with
    | _ :: .node _ _ _ nds :: _, h =>
      simp only [Node.gen]
      exact renders_output hview sec h
  | .node (.fanFn .render done) line col childs, h, _, _ => by
    match childs, h with
    | fn :: .node kind dbgLine dbgCol nds :: rest, ⟨hfn, hname⟩ =>
      have hgen : Node.gen env doc .literal
          (.node (.fanFn .render done) line col (fn :: .node kind dbgLine dbgCol nds :: rest))
          = if nds.dropLast.all Node.isText then renderCall env doc (staticName env doc nds.dropLast)
            else ((genCode env doc .cpp false true nds).map (replaceFanKeys doc)).bind (renderCall env doc) := by
        rw [Node.gen.eq_def]
        exact if_pos hfn
      rw [hgen]
      split at hname
      · next hstatic =>
        rw [if_pos hstatic]
        exact renders_renderCall hview.digits hview.names (fragment_viewName hname).piece.word
      · next hstatic =>
        rw [if_neg hstatic]
        exact renders_bind hview hname

theorem renders_genWrites (hview : ViewNames env doc) : (ns : List Node) → PageNodes env doc ns →
    ∀ pending e, (e = .word → pending = none → startsCode ns = false) → endsText pending ns = true →
      Renders env (genWrites env doc .literal false pending ns) e .apart (rendersAll ns)
  | [], _, pending, e, _, hend => by
    have hsome : pending.isSome = true := hend
    have hwrite := renders_writePending hview pending e
    rw [writtenEdge, if_pos hsome] at hwrite
    rw [genWrites.eq_def]
    exact hwrite
  | n :: ns, h, pending, e, hstarts, hend => by
    have hlast : false = true → ns ≠ [] := fun hf => (by cases hf)
    have hwrite := renders_writePending hview pending e
    match n, h with
    | .token ts, h =>
      have hzero : (Node.token ts).renders = 0 := rfl
      rw [genWrites_token hlast, rendersAll, hzero, Nat.zero_add]
      exact renders_genWrites hview ns h.2.2 _ e (fun _ hnone => by cases hnone)
        (endsText_cons hend _ fun _ => rfl)
    | .node kind line col childs, h =>
      have hend' : endsText none ns = true := endsText_cons hend none fun htext => by cases htext
      by_cases hkind : kind.isDirective = true
      · have hzero : (Node.node kind line col childs).renders = 0 := by
          cases kind with
          | directive => rfl
          | _ => cases hkind
        have hskip : startsCode (.node kind line col childs :: ns) = startsCode ns := by
          cases kind with
          | directive => rfl
          | _ => cases hkind
        have hempty : Renders env (.text []) (writtenEdge pending e) (writtenEdge pending e) 0 :=
          renders_text fun outer _ => piece_nil _ outer
        rw [genWrites_directive hlast pending hkind, rendersAll, hzero]
        exact (hwrite.append hempty).append (renders_genWrites hview ns h.2.2 none _
          (fun he _ => hskip ▸ startsCode_written hstarts he) hend')
      · have hn := isGenerated_of_not_directive hkind line col childs
        obtain ⟨e', hstarts', hnode⟩ := renders_inline h.1 hn h.2.1 (startsCode_written hstarts)
          (Node.renders_gen hview (.node kind line col childs) h.1 hn)
        have hboth := (hwrite.append hnode).append
          (renders_genWrites hview ns h.2.2 none e' (fun he _ => hstarts' he) hend')
        rw [genWrites_node hlast pending hn, rendersAll]
        rw [Nat.zero_add] at hboth
        exact hboth

end

/-- What is generated for a function block. -/
theorem renders_fun {n : Node} (h : n.IsFunBlock env doc) :
    BalancedCode env (n.gen env doc .literal) := by
  match n, h with
  | .node (.codeFun .codeFunc _) _ _ childs, _ =>
    refine fun st => ⟨_, st, rfl, rfl, ?_⟩
    exact (fragment_comments _ (fun l hl => not_mem_of_mem_splitOn hl) []).piece.word
  | .node (.codeFun .codeFuni _) _ _ (_ :: .node _ _ _ (_ :: nds) :: _), h =>
    have hcode : BalancedCode env ((genCode env doc .cpp false true nds).map (replaceFanKeys doc)) := h
    intro st
    obtain ⟨b, st', hb, hlevel, hpiece⟩ := hcode st
    refine ⟨bytes "private: " ++ b, st', ?_, hlevel, ?_⟩
    · have htext : Gen.append (.text (bytes "private: "))
          ((genCode env doc .cpp false true nds).map (replaceFanKeys doc)) st
          = .ok (bytes "private: " ++ b, st') := by
        simp only [Gen.append, Gen.text, hb]
      simp only [Node.gen]
      exact htext
    · exact (by decide : Fixed (bytes "private: ") [] []).fragment.piece.append hpiece

end Nodes

/-! ## The body -/

/-- The part in which what was written is committed and the callback is called. -/
def BodyPart.isFinish : BodyPart → Bool
  | .finish _ => true
  | _ => false

/-- Where `k` partial renderings are open, no function block comes behind one of them or of those to
    come. -/
def FunsClear : Nat → List Node → Prop
  | _, [] => True
  | k, n :: ns => if n.isFun then k = 0 ∧ FunsClear k ns else FunsClear (k + n.renders) ns

/-- What is left of the body, where `k` partial renderings are open: it commits once, and it closes what is
    open if `clear` holds, and breaks it if not. -/
def ClosesBody (env : GenEnv) (doc : Document) (e : Edge) (k : Nat) (clear : Prop)
    (rest : Except GenError (List BodyPart × GenState)) : Prop :=
  ∃ parts st', rest = .ok (parts, st') ∧ parts.countP BodyPart.isFinish = 1 ∧
    (clear → Piece env (parts.flatMap (BodyPart.text doc)) e (renderings k ++ inExec) .apart []) ∧
    (¬ clear → BreaksAt (replaceEscapes env (parts.flatMap (BodyPart.text doc))) e (renderings k ++ inExec))

section Body

variable {env : GenEnv} {doc : Document} {opened opened' : List Opened} {a b : Bytes} {clear : Prop}
  {rest : Except GenError (List BodyPart × GenState)} {e e' : Edge} {k m : Nat}

theorem Fragment.breaks (ha : Fragment env a opened opened') (hb : Breaks (replaceEscapes env b) opened') :
    Breaks (replaceEscapes env (a ++ b)) opened := by
  rw [replaceEscapes_append ha.last]
  exact ha.nests.breaks hb

/-- A text without escapes that breaks the brackets does so whatever follows. -/
theorem breaks_fixed (hat : 64 ∉ a) (ha : Breaks a opened) (b : Bytes) :
    Breaks (replaceEscapes env (a ++ b)) opened := by
  rw [replaceEscapes_append fun hlast => hat (List.mem_of_getLast? hlast), replaceEscapes_of_not_mem hat]
  exact ha.append _

theorem ClosesBody.with (h : ClosesBody env doc e' m clear rest) (front : List BodyPart)
    (hfinish : front.countP BodyPart.isFinish = 0)
    (hfront : Piece env (front.flatMap (BodyPart.text doc)) e (renderings k ++ inExec)
      e' (renderings m ++ inExec)) : ClosesBody env doc e k clear (withParts front rest) := by
  obtain ⟨parts, st', rfl, hcount, hclosed, hbroken⟩ := h
  refine ⟨front ++ parts, st', rfl, ?_, fun hclear => ?_, fun hclear => ?_⟩
  · rw [List.countP_append, hfinish, hcount]
  · rw [List.flatMap_append]
    exact hfront.append (hclosed hclear)
  · rw [List.flatMap_append]
    exact hfront.breaks (hbroken hclear)

/-- What breaks the brackets does so whatever follows. -/
theorem ClosesBody.broken (h : ClosesBody env doc e' m clear rest) (front : List BodyPart)
    (hfinish : front.countP BodyPart.isFinish = 0) {clear' : Prop} (hclear : ¬ clear')
    (hfront : ∀ b, BreaksAt (replaceEscapes env (front.flatMap (BodyPart.text doc) ++ b)) e
      (renderings k ++ inExec)) :
    ClosesBody env doc e k clear' (withParts front rest) := by
  obtain ⟨parts, st', rfl, hcount, -, -⟩ := h
  refine ⟨front ++ parts, st', rfl, ?_, fun h => absurd h hclear, fun _ => ?_⟩
  · rw [List.countP_append, hfinish, hcount]
  · rw [List.flatMap_append]
    exact hfront _

theorem ClosesBody.congr (h : ClosesBody env doc e k clear rest) {clear' : Prop} (hiff : clear ↔ clear') :
    ClosesBody env doc e k clear' rest := by
  rw [← propext hiff]
  exact h

theorem head_inExec (k : Nat) : (renderings k ++ inExec).head? ≠ some .tried :=
  head_renderings (by decide) k

theorem closesBody_finish (hview : ViewNames env doc) (st : GenState) (e : Edge) :
    ClosesBody env doc e st.scopeLevel True (finishPart st) := by
  refine ⟨[.finish st.scopeLevel], st, rfl, rfl, fun _ => ?_, fun h => absurd trivial h⟩
  have hself : BeginsSelf doc ((BodyPart.finish st.scopeLevel).text doc) := by
    unfold BodyPart.text
    simp only [List.append_assoc]
    exact (beginsSelf_selfCall doc _).append _
  rw [List.flatMap_singleton]
  exact ((fixed_finish hview.names st.scopeLevel).fragment.behind hview.names hself
    (head_inExec st.scopeLevel)).of_word e

theorem piece_pending (hview : ViewNames env doc) (pending : Option Bytes) (e : Edge)
    (hopen : opened.head? ≠ some .tried) :
    Piece env ((pendingParts env doc pending).flatMap (BodyPart.text doc)) e opened (writtenEdge pending e)
      opened := by
  cases pending with
  | none => exact piece_nil e opened
  | some text =>
    show Piece env ([BodyPart.write (writeRaw env doc text)].flatMap (BodyPart.text doc)) e opened .apart opened
    rw [List.flatMap_singleton]
    exact ((fragment_writeRaw env hview.names hview.items text hopen).behind hview.names
      (beginsSelf_writeRaw hview.names text) hopen).of_word e

theorem countP_pending (pending : Option Bytes) :
    (pendingParts env doc pending).countP BodyPart.isFinish = 0 := by
  cases pending <;> rfl

/-- The nodes of a function block. -/
theorem Node.IsFunBlock.inner {done : Bool} {line col : Nat} {childs : List Node}
    (h : Node.IsFunBlock env doc (.node (.codeFun .codeFuni done) line col childs)) :
    ∃ fn kind line' col' brace nds post, childs = fn :: .node kind line' col' (brace :: nds) :: post ∧
      BalancedCode env ((genCode env doc .cpp false true nds).map (replaceFanKeys doc)) := by
  rcases childs with _ | ⟨fn, _ | ⟨block, post⟩⟩
  · exact h.elim
  · exact h.elim
  · cases block with
    | token ts => exact h.elim
    | node kind line' col' nodes =>
      cases nodes with
      | nil => exact h.elim
      | cons brace nds => exact ⟨fn, kind, line', col', brace, nds, post, rfl, h⟩

/-- A function block behind a `try` without its `catch`. -/
theorem breaks_fun {sec : FunSec} {done : Bool} {line col : Nat} {childs : List Node} {st st' : GenState}
    (hfun : Node.IsFunBlock env doc (.node (.codeFun sec done) line col childs))
    (hgen : Node.gen env doc .literal (.node (.codeFun sec done) line col childs) st = .ok (a, st'))
    (b : Bytes) : Breaks (replaceEscapes env (a ++ (bytes "private: " ++ b))) [.tried, .brace] := by
  have hprivate (b : Bytes) : Breaks (replaceEscapes env (bytes "private: " ++ b)) [.tried, .brace] :=
    breaks_fixed (by decide) (by decide) b
  cases sec with
  | codeFunc =>
    simp only [Node.gen, if_pos] at hgen
    cases hgen
    exact (fragment_comments _ (fun l hl => not_mem_of_mem_splitOn hl) _).breaks (hprivate b)
  | codeFuni =>
    obtain ⟨fn, kind, line', col', brace, nds, post, rfl, hcode⟩ := hfun.inner
    obtain ⟨c, st'', hc, -, -⟩ := hcode st
    have htext : Gen.append (.text (bytes "private: "))
        ((genCode env doc .cpp false true nds).map (replaceFanKeys doc)) st
        = .ok (bytes "private: " ++ c, st'') := by
      simp only [Gen.append, Gen.text, hc]
    simp only [Node.gen] at hgen
    cases hgen.symm.trans htext
    rw [List.append_assoc]
    exact hprivate _

theorem beginsSelf_leave (doc : Document) (fn : Bytes) (k : Nat) :
    BeginsSelf doc ((BodyPart.leave fn k).text doc) := by
  unfold BodyPart.text
  simp only [List.append_assoc]
  exact (beginsSelf_callNext doc fn).append _

/-- **Where a partial rendering is open, what is written before a function block closes the functions, and
not the `try`s.** -/
theorem breaks_leave (hview : ViewNames env doc) {fn : Bytes} (hfn : IsName fn) (k : Nat)
    (hb : Breaks (replaceEscapes env b) [.tried, .brace]) :
    BreaksAt (replaceEscapes env ((BodyPart.leave fn (k + 1)).text doc ++ b)) .word
      (renderings (k + 1) ++ inExec) := by
  have hcall := (fixed_callNext hview.names hfn).frame (renderings (k + 1) ++ inExec) (head_inExec (k + 1))
  have hcatch : Fixed (catchErr doc) (renderings (k + 1) ++ inExec)
      ([.brace, .paren] ++ (renderings k ++ inExec)) :=
    (fixed_catchErr hview.names).frame _ (fun heq => (by cases heq))
  have hfunction : Fixed (bytes "\x7d);") ([.brace, .paren] ++ (renderings k ++ inExec))
      (renderings k ++ inExec) :=
    (by decide : Fixed (bytes "\x7d);") [.brace, .paren] []).frame _ (head_inExec k)
  have hfragment : Fragment env _ _ _ := hcall.fragment
  have hbegin := hfragment.behind hview.names (beginsSelf_callNext doc fn) (head_inExec (k + 1))
  unfold BodyPart.text
  simp only [repeated, List.replicate_succ, List.flatten_cons, List.append_assoc]
  refine hbegin.breaks (breaksAt_apart.2 (hcatch.fragment.breaks (hfunction.fragment.breaks ?_)))
  cases k with
  | zero =>
    have hbrace : Fixed (bytes "\x7d") inExec [.tried, .brace] := by decide
    exact hbrace.fragment.breaks hb
  | succ k =>
    -- the brace is that of the `try`
    rw [List.replicate_succ, List.flatten_cons, List.append_assoc]
    refine breaks_fixed (by decide) ?_ _
    rfl

theorem piece_enter (hview : ViewNames env doc) {fn : Bytes} (hfn : IsName fn) :
    Piece env ((BodyPart.enter fn).text doc) .word [] .apart inExec := by
  have hfragment : Fragment env _ _ _ := (fixed_enter hview.names hfn).fragment
  have htext : (BodyPart.enter fn).text doc = bytes "private" ++ 58 :: (32 :: execHead doc fn) := rfl
  rw [htext] at hfragment ⊢
  refine hfragment.behind_word (by decide) (by decide) (by decide) (forall_mem_of_all (by decide)) (fun w heq => ?_)
    (by decide)
  have hlength := congrArg List.length heq
  rw [List.length_append] at hlength
  have hlong : (bytes "private").length = 7 := by decide
  have hshort : (bytes "try").length = 3 := by decide
  omega

/-- What is left behind a node, or the end behind the last one. -/
theorem closesBody_run (hview : ViewNames env doc) (ns : List Node) (hpage : TemplateNodes env doc ns)
    (pending : Option Bytes) {next : Bytes} (hnext : IsName next) (st : GenState) (e : Edge)
    (hstarts : e = .word → pending = none → startsCode ns = false) (hne : ns = [] → pending.isSome = true) :
    ClosesBody env doc e st.scopeLevel (FunsClear st.scopeLevel ns) (bodyParts env doc pending next ns st) := by
  induction ns generalizing pending next st e with
  | nil =>
    cases pending with
    | none => exact absurd (hne rfl) Bool.false_ne_true
    | some text =>
      have hfinish := (closesBody_finish hview st .apart).congr (Iff.rfl : True ↔ FunsClear st.scopeLevel [])
      exact hfinish.with [.write (writeRaw env doc text)] rfl
        (piece_pending hview (some text) e (head_inExec st.scopeLevel))
  | cons n ns ih =>
    -- what comes behind the node
    have hrest (next : Bytes) (hnext : IsName next) (st : GenState) (e : Edge)
        (hstarts : e = .word → startsCode ns = false) :
        ClosesBody env doc e st.scopeLevel (FunsClear st.scopeLevel ns)
          (if ns.isEmpty then finishPart st else bodyParts env doc none next ns st) := by
      cases ns with
      | nil => exact closesBody_finish hview st e
      | cons x ns => exact ih hpage.2.2 none hnext st e (fun he _ => hstarts he) (fun h => (by cases h))
    have hpending := piece_pending hview pending e (head_inExec st.scopeLevel)
    match n, hpage with
    | .token ts, hpage =>
      rw [bodyParts_token]
      exact ih hpage.2.2 _ hnext st e (fun _ hnone => (by cases hnone)) fun _ => rfl
    | .node kind line col childs, hpage =>
      have hcount (part : BodyPart) (hpart : part.isFinish = false) :
          (pendingParts env doc pending ++ [part]).countP BodyPart.isFinish = 0 := by
        rw [List.countP_append, countP_pending, List.countP_singleton, hpart]
        rfl
      by_cases hinline : kind.isInline = true
      · have hn : (Node.node kind line col childs).isGenerated = true := by
          cases kind with
          | directive => cases hinline
          | _ => rfl
        have hinpage : Node.IsPage env doc (.node kind line col childs) := by
          rcases hpage.1 with h | h
          · exact h
          · cases kind with
            | codeFun => cases hinline
            | _ => exact h.elim
        have hclear : FunsClear st.scopeLevel (.node kind line col childs :: ns)
            ↔ FunsClear (st.scopeLevel + (Node.node kind line col childs).renders) ns := by
          cases kind with
          | codeFun => cases hinline
          | _ => exact Iff.rfl
        obtain ⟨e', hstarts', hnode⟩ := renders_inline hinpage hn hpage.2.1 (startsCode_written hstarts)
          (Node.renders_gen hview _ hinpage hn)
        obtain ⟨b, st', hgen, hlevel, hpiece⟩ := hnode st
        rw [bodyParts_inline hinline, hgen]
        refine ((hrest next hnext st' e' hstarts').congr ?_).with _ (hcount _ rfl) ?_
        · rw [hclear, hlevel]
        · rw [List.flatMap_append, List.flatMap_singleton, hlevel, Nat.add_comm, renderings_add,
            List.append_assoc]
          exact hpending.append (hpiece _ (head_inExec st.scopeLevel))
      · cases kind with
        | directive sec done =>
          rw [bodyParts_directive]
          refine (hrest next hnext st (writtenEdge pending e) (startsCode_written hstarts)).with _
            (hcount _ rfl) ?_
          rw [List.flatMap_append, List.flatMap_singleton]
          exact hpending.append (piece_nil _ _)
        | codeFun sec done =>
          have hfun : Node.IsFunBlock env doc (.node (.codeFun sec done) line col childs) :=
            hpage.1.resolve_left id
          obtain ⟨b, st', hgen, -, hpiece⟩ := renders_fun hfun st
          obtain ⟨next', st'', hexec⟩ : ∃ next' st'', execName env doc { st' with scopeLevel := 0 }
              = .ok (next', st'') := ⟨_, _, rfl⟩
          obtain ⟨hnext', hlevel⟩ := isName_exec hview.digits hview.names hexec
          have hclear : FunsClear st.scopeLevel (.node (.codeFun sec done) line col childs :: ns)
              ↔ st.scopeLevel = 0 ∧ FunsClear st.scopeLevel ns := Iff.rfl
          have hfinish : (pendingParts env doc pending
              ++ [BodyPart.leave next st.scopeLevel, BodyPart.node b, BodyPart.enter next]).countP
                BodyPart.isFinish = 0 := by
            rw [List.countP_append, countP_pending]
            rfl
          have hrest' := hrest next' hnext' st'' .apart fun he => (by cases he)
          rw [bodyParts_fun, hgen]
          simp only [hexec]
          cases hk : st.scopeLevel with
          | zero =>
            rw [hk] at hclear hfinish hpending
            refine (hrest'.congr ?_).with _ hfinish ?_
            · rw [hclear, hlevel, and_iff_right rfl]
            · rw [List.flatMap_append, hlevel]
              refine hpending.append ?_
              simp only [List.flatMap_cons, List.flatMap_nil, List.append_nil]
              have hfragment : Fragment env _ _ _ := (fixed_leave hview.names hnext).fragment
              have hleave := hfragment.behind hview.names (beginsSelf_leave doc next 0) (by decide)
              exact (hleave.of_word _).append (hpiece.append (piece_enter hview hnext))
          | succ k =>
            rw [hk] at hclear hfinish hpending
            refine hrest'.broken _ hfinish ?_ fun rest => ?_
            · rw [hclear]
              exact fun h => absurd h.1 (Nat.succ_ne_zero k)
            · rw [List.flatMap_append, List.append_assoc]
              refine hpending.word.breaks ?_
              simp only [List.flatMap_cons, List.flatMap_nil, List.append_nil, List.append_assoc]
              refine breaks_leave hview hnext k ?_
              have henter : (BodyPart.enter next).text doc = bytes "private: " ++ execHead doc next := rfl
              rw [henter, List.append_assoc]
              exact breaks_fun hfun hgen _
        | _ => exact absurd rfl hinline

/-- What the loop over a template writes behind the beginning of the function. -/
theorem closesBody_childs (hview : ViewNames env doc) {childs : List Node}
    (hpage : TemplateNodes env doc childs) {next : Bytes} (hnext : IsName next) {st : GenState}
    (hst : st.scopeLevel = 0) (hne : childs ≠ []) :
    ClosesBody env doc .apart 0 (FunsClear 0 childs) (bodyParts env doc none next childs st) := by
  have hrun := closesBody_run hview childs hpage none hnext st .apart (fun he => (by cases he))
    fun h => absurd h hne
  rw [hst] at hrun
  exact hrun

end Body

/-! ## The class -/

section Class

variable {env : GenEnv} {docs : List Document} {doc doc' : Document}

theorem isIdentChar_of_alphanum {c : UInt8} (h : isAlphanum c = true) : isIdentChar c = true := by
  unfold isAlphanum at h
  unfold isIdentChar
  simp only [Bool.or_eq_true] at h ⊢
  tauto

theorem Vname.scopeChar {s : Bytes} (h : Vname (bytes ":") s) : ∀ c ∈ s, isIdentChar c = true ∨ c = 58 := by
  obtain ⟨c, cs, rfl, hc, hcs⟩ := h
  rw [List.forall_mem_cons]
  refine ⟨.inl (isIdentChar_of_alphanum (isAlphanum_of_start hc)), fun d hd => ?_⟩
  rcases hcs d hd with halnum | hcolon
  · exact .inl (isIdentChar_of_alphanum halnum)
  · exact .inr (List.mem_singleton.1 hcolon)

/-- The class of a document that is accepted. -/
theorem Document.Accepted.qualified (h : doc.Accepted) : Qualified doc.nsclsName := by
  refine ⟨doc.ns, doc.clsName, ?_, h.named.ns.scopeChar, h.named.classNames.cls⟩
  rw [h.named.nsclsName, List.append_assoc]

/-- The names in the class of a document, and in those it inherits from. -/
theorem classNames_inherit (hdocs : ∀ d ∈ docs, d.Accepted) (hdoc : doc.Accepted)
    (hinherit : doc.inherit docs = .ok doc') :
    ClassNames doc' ∧ Qualified doc'.nsclsName ∧ ∀ ii ∈ doc'.inheritsItems, Qualified ii.nsclsName := by
  unfold Document.inherit at hinherit
  cases hfind : findInherits docs doc doc.inheritsItems with
  | error err =>
    rw [hfind] at hinherit
    cases hinherit
  | ok items =>
    rw [hfind] at hinherit
    cases hinherit
    have hnames := hdoc.named.classNames
    refine ⟨⟨hnames.cls, hnames.self, hnames.selfLow, hnames.cb⟩, hdoc.qualified, fun ii hii => ?_⟩
    obtain ⟨d, hd, heq⟩ := findInherits_mem hfind ii hii
    rw [heq]
    exact (hdocs d hd).qualified

theorem ViewNames.of_inherit (hnum : ∀ n, ∀ c ∈ env.numToStr n, isAlphanum c = true)
    (hdocs : ∀ d ∈ docs, d.Accepted) (hdoc : doc.Accepted) (hinherit : doc.inherit docs = .ok doc') :
    ViewNames env doc' := by
  obtain ⟨hnames, -, hitems⟩ := classNames_inherit hdocs hdoc hinherit
  exact ⟨hnames, hitems, hnum⟩

/-- No function block comes behind a partial rendering. -/
theorem funsClear_iff (k : Nat) (ns : List Node) :
    FunsClear k ns ↔ ∀ pre f post, ns = pre ++ f :: post → f.isFun = true →
      k = 0 ∧ ∀ n ∈ pre, n.renders = 0 := by
  induction ns generalizing k with
  | nil =>
    refine ⟨fun _ pre f post heq => ?_, fun _ => trivial⟩
    exact absurd heq.symm (List.append_ne_nil_of_right_ne_nil pre (List.cons_ne_nil f post))
  | cons n ns ih =>
    -- a function block is the first node, or one behind it
    have hcons : (∀ pre f post, n :: ns = pre ++ f :: post → f.isFun = true →
          k = 0 ∧ ∀ m ∈ pre, m.renders = 0) ↔
        (n.isFun = true → k = 0) ∧ ∀ pre f post, ns = pre ++ f :: post → f.isFun = true →
          k + n.renders = 0 ∧ ∀ m ∈ pre, m.renders = 0 := by
      constructor
      · refine fun h => ⟨fun hfun => (h [] n ns rfl hfun).1, fun pre f post heq hfun => ?_⟩
        obtain ⟨hk, hpre⟩ := h (n :: pre) f post (by rw [heq]; rfl) hfun
        rw [List.forall_mem_cons] at hpre
        exact ⟨by omega, hpre.2⟩
      · rintro ⟨hfirst, hrest⟩ pre f post heq hfun
        cases pre with
        | nil =>
          cases heq
          exact ⟨hfirst hfun, fun m hm => absurd hm List.not_mem_nil⟩
        | cons m pre =>
          cases heq
          obtain ⟨hk, hpre⟩ := hrest pre f post rfl hfun
          rw [List.forall_mem_cons]
          exact ⟨by omega, by omega, hpre⟩
    rw [hcons, FunsClear]
    split
    · next hfun =>
      have hzero : n.renders = 0 := by
        match n, hfun with
        | .node (.codeFun ..) _ _ _, _ => rfl
      rw [hzero, Nat.add_zero, ← ih, imp_iff_right hfun]
    · next hfun =>
      rw [← ih]
      exact ⟨fun h => ⟨fun h' => absurd h' hfun, h⟩, fun h => h.2⟩

/-- The body of the class of a page. -/
theorem closed_clsParts (hview : ViewNames env doc) {childs : List Node} (hpage : TemplateNodes env doc childs)
    (idents : Nat) : ∃ execFn parts st', clsParts env doc childs ⟨0, idents⟩ = .ok ((execFn, parts), st') ∧
      ((Closed (replaceEscapes env (bodyText doc execFn parts)) ∧ parts.countP BodyPart.isFinish = 1) ↔
        childs ≠ [] ∧ FunsClear 0 childs) := by
  obtain ⟨execFn, st₁, hfirst⟩ : ∃ execFn st', execName env doc ⟨0, idents⟩ = .ok (execFn, st') := ⟨_, _, rfl⟩
  obtain ⟨hexecFn, hlevel⟩ := isName_exec hview.digits hview.names hfirst
  obtain ⟨next, st₂, hsecond⟩ : ∃ next st', execName env doc st₁ = .ok (next, st') := ⟨_, _, rfl⟩
  obtain ⟨hnext, hlevel'⟩ := isName_exec hview.digits hview.names hsecond
  have hspace : Fixed (bytes " ") inExec inExec := by decide
  have hbegin : Fragment env (execHead doc execFn ++ bytes " " ++ beginWrite doc (bytes "html")) [] inExec :=
    (fixed_text inExec (fixed_text inExec (fixed_execHead hview.names hexecFn) hspace)
      ((fixed_beginWrite hview.names).frame inExec (by decide))).fragment
  cases childs with
  | nil =>
    refine ⟨execFn, [], st₂, by simp only [clsParts, hfirst, hsecond, bodyParts], ?_⟩
    exact ⟨fun h => absurd h.2 Nat.zero_ne_one, fun h => absurd rfl h.1⟩
  | cons n ns =>
    obtain ⟨parts, st', hparts, hfinish, hclosed, hbroken⟩ :=
      closesBody_childs hview hpage hnext (hlevel'.trans hlevel) (List.cons_ne_nil n ns)
    refine ⟨execFn, parts, st', by simp only [clsParts, hfirst, hsecond, hparts], ?_⟩
    rw [bodyText]
    constructor
    · rintro ⟨hbody, -⟩
      refine ⟨List.cons_ne_nil n ns, ?_⟩
      by_contra hclear
      exact (breaksAt_apart.1 (hbegin.piece.breaks (hbroken hclear))).not_nests hbody
    · rintro ⟨-, hclear⟩
      exact ⟨nests_iff_runs.2 (hbegin.piece.append (hclosed hclear)).runs, hfinish⟩

/-- **The body of the class is closed, and commits once, exactly if the template is not empty and no
function block comes behind a partial rendering.** -/
theorem viewBody_closed_iff (hnum : ∀ n, ∀ c ∈ env.numToStr n, isAlphanum c = true) (dbg : Bool)
    (hdocs : ∀ d ∈ docs, d.Accepted) (hdoc : doc.Accepted) (hinherit : doc.inherit docs = .ok doc')
    (langs : List Bytes) (kind : NodeKind) (line col : Nat) {childs : List Node}
    (hpage : TemplateNodes env doc' childs) (idents : Nat) :
    ∃ execFn parts st', clsParts env doc' childs ⟨0, idents⟩ = .ok ((execFn, parts), st') ∧
      RootNode.gen env dbg docs doc ⟨langs, .node kind line col childs⟩ ⟨0, idents⟩
        = .ok (clsHead doc' ++ replaceEscapes env (bodyText doc' execFn parts) ++ clsFoot dbg doc' execFn, st') ∧
      ((Closed (replaceEscapes env (bodyText doc' execFn parts)) ∧ parts.countP BodyPart.isFinish = 1) ↔
        childs ≠ [] ∧ ∀ pre f post, childs = pre ++ f :: post → f.isFun = true →
          ∀ n ∈ pre, n.renders = 0) := by
  have hview := ViewNames.of_inherit hnum hdocs hdoc hinherit
  obtain ⟨execFn, parts, st', hparts, hiff⟩ := closed_clsParts hview hpage idents
  refine ⟨execFn, parts, st', hparts, ?_, ?_⟩
  · simp only [RootNode.gen, hinherit, hparts]
  · rw [hiff, funsClear_iff]
    simp only [true_and]

end Class

theorem plainGenEnv_digits : ∀ n, ∀ c ∈ plainGenEnv.numToStr n, isAlphanum c = true := by
  intro n c hc
  obtain ⟨d, hd, rfl⟩ := List.mem_map.1 hc
  have hdigit := Nat.isDigit_of_mem_toDigits (by decide) (by decide) hd
  simp only [Char.isDigit, Bool.and_eq_true, decide_eq_true_eq, UInt32.le_iff_toNat_le] at hdigit
  have hlow : 48 ≤ d.toNat := hdigit.1
  have hhigh : d.toNat ≤ 57 := hdigit.2
  have hbyte : (UInt8.ofNat d.toNat).toNat = d.toNat := by
    rw [UInt8.toNat_ofNat']
    omega
  unfold isAlphanum
  simp only [Bool.or_eq_true, Bool.and_eq_true, decide_eq_true_eq, UInt8.le_iff_toNat_le, hbyte]
  exact .inl (.inr ⟨hlow, hhigh⟩)

/-- A view with a function block, text, a code block, an output and a partial rendering. -/
def sampleTemplate : List Node :=
  [.node (.codeFun .codeFuni true) 1 1
      [tokenNode "@funi", .node .codeBlock 1 1 [tokenNode "\x7b", tokenNode "int a;", tokenNode "\x7d"]],
    tokenNode " b ", .node .codeBlock 1 1 [tokenNode "@\x7b", tokenNode "if(a)\x7bc();\x7d", tokenNode "\x7d"],
    .node (.output .outputEnc true) 1 1
      [tokenNode "@:", .node (.expr .semicol) 1 1 [tokenNode "a", tokenNode ";"]],
    .node (.fanFn .render true) 1 1
      [tokenNode "@>", .node (.expr .semicol) 1 1 [tokenNode " ", tokenNode "v", tokenNode ";"]]]

theorem sampleTemplate_nodes : TemplateNodes plainGenEnv (sampleDoc "/" "x") sampleTemplate := by
  have hno : ∀ {n : Node} {p : Prop}, n.isBlock = false → n.isBlock = true → p := by
    intro n p hfalse htrue
    rw [hfalse] at htrue
    cases htrue
  have hname : Node.IsPage plainGenEnv (sampleDoc "/" "x") (.node (.fanFn .render true) 1 1
      [tokenNode "@>", .node (.expr .semicol) 1 1 [tokenNode " ", tokenNode "v", tokenNode ";"]]) :=
    ⟨rfl, (by decide : IsViewName _)⟩
  refine ⟨.inr fun st => ⟨_, st, rfl, rfl, ?_, runs_of_nest ?_⟩, hno rfl, .inl trivial, hno rfl,
    .inl ⟨rfl, fun st => ⟨_, st, rfl, rfl, ?_, runs_of_nest ?_⟩⟩, fun _ h => (by cases h),
    .inl fun st => ⟨_, st, rfl, rfl, ?_, runs_of_nest ?_⟩, hno rfl, .inl hname, hno rfl, trivial⟩
  all_goals decide

theorem sampleDoc_inherit : (sampleDoc "/" "x").inherit [] = .ok (sampleDoc "/" "x") := by decide

/-- The body of the view. -/
theorem viewBody_closed_sample :
    ∃ execFn parts st', clsParts plainGenEnv (sampleDoc "/" "x") sampleTemplate ⟨0, 0⟩
        = .ok ((execFn, parts), st') ∧
      RootNode.gen plainGenEnv false [] (sampleDoc "/" "x")
          ⟨[], .node (.literal .literal (bytes "html") 0) 0 0 sampleTemplate⟩ ⟨0, 0⟩
        = .ok (clsHead (sampleDoc "/" "x")
          ++ replaceEscapes plainGenEnv (bodyText (sampleDoc "/" "x") execFn parts)
          ++ clsFoot false (sampleDoc "/" "x") execFn, st') ∧
      ((Closed (replaceEscapes plainGenEnv (bodyText (sampleDoc "/" "x") execFn parts)) ∧
          parts.countP BodyPart.isFinish = 1) ↔
        sampleTemplate ≠ [] ∧ ∀ pre f post, sampleTemplate = pre ++ f :: post → f.isFun = true →
          ∀ n ∈ pre, n.renders = 0) :=
  viewBody_closed_iff plainGenEnv_digits false (fun d hd => absurd hd List.not_mem_nil)
    (sampleDoc_accepted (by decide)) sampleDoc_inherit [] _ 0 0 sampleTemplate_nodes 0

/-- A partial rendering, and a function block behind it. -/
def isRenderThenFun (doc : Document) : List Node → Bool
  | [.node (.fanFn .render _) _ _ (fn :: .node _ _ _ nds :: _), .node (.codeFun .codeFunc _) _ _ _] =>
    decide (fn.tokenText = bytes "@>") && nds.dropLast.all Node.isText
      && decide (IsViewName (plainGenEnv.trim (replaceFanKeys doc (tokenTexts nds.dropLast))))
  | _ => false

theorem isRenderThenFun_nodes {doc : Document} {childs : List Node} (h : isRenderThenFun doc childs = true) :
    TemplateNodes plainGenEnv doc childs ∧ ¬ FunsClear 0 childs := by
  match childs, h with
  | [.node (.fanFn .render _) _ _ (fn :: .node _ _ _ nds :: _), .node (.codeFun .codeFunc _) _ _ _], h =>
    rw [isRenderThenFun, Bool.and_eq_true, Bool.and_eq_true, decide_eq_true_eq, decide_eq_true_eq] at h
    obtain ⟨⟨hfn, htext⟩, hname⟩ := h
    refine ⟨⟨.inl ⟨hfn, ?_⟩, fun hblock => (by cases hblock), .inr trivial, fun hblock => (by cases hblock),
      trivial⟩, fun hclear => ?_⟩
    · rw [if_pos htext]
      exact hname
    · have hzero : 0 + 1 = 0 := hclear.1
      cases hzero

/-- The tokens of `@> 1;@func\x7b\x7d`. -/
def renderThenFunTokens : List Token :=
  [rootToken, ⟨bytes "@>", 1, 1, 0⟩, ⟨bytes " ", 1, 3, 2⟩, ⟨bytes "1", 1, 0, 2⟩, ⟨bytes ";", 1, 5, 4⟩,
    ⟨bytes "@func", 1, 6, 5⟩, ⟨bytes "\x7b", 1, 11, 10⟩, ⟨bytes "\x7d", 1, 0, 10⟩]

set_option maxRecDepth 20000 in
/-- `@> 1;@func\x7b\x7d` has a function block behind a partial rendering: the body of its class is not
closed. -/
theorem viewBody_unclosed :
    ¬ ∀ (env : GenEnv) (docs : List Document) (doc doc' : Document),
      (∀ n, ∀ c ∈ env.numToStr n, isAlphanum c = true) → (∀ d ∈ docs, d.Accepted) → doc.Accepted →
      doc.inherit docs = .ok doc' →
      ∀ (text : Bytes) (r : RootNode), parse env.toFanEnv [] text = some (.ok r) →
      ∀ kind line col childs, r.child = .node kind line col childs → TemplateNodes env doc' childs →
      ∀ idents execFn parts st', clsParts env doc' childs ⟨0, idents⟩ = .ok ((execFn, parts), st') →
        Closed (replaceEscapes env (bodyText doc' execFn parts)) ∧ parts.countP BodyPart.isFinish = 1 := by
  intro hall
  have hdoc : (sampleDoc "/" "x").Accepted := sampleDoc_accepted (by decide)
  have hdocs : ∀ d ∈ ([] : List Document), d.Accepted := fun d hd => absurd hd List.not_mem_nil
  have htokens : tokenize (bytes "@> 1;@func\x7b\x7d") = renderThenFunTokens := by
    rw [tokenize_heads isNoLetter (by decide)]
    decide
  have htree : (parse plainGenEnv.toFanEnv [] (bytes "@> 1;@func\x7b\x7d")).any (·.isTree fun r =>
      match r.child with
      | .node _ _ _ childs => isRenderThenFun (sampleDoc "/" "x") childs
      | .token _ => false) = true := by
    rw [parse, htokens]
    decide +kernel
  obtain ⟨r, hparse, hr⟩ := exists_of_isTree htree
  split at hr
  · next kind line col childs hchild =>
    obtain ⟨hnodes, hclear⟩ := isRenderThenFun_nodes hr
    have hview := ViewNames.of_inherit plainGenEnv_digits hdocs hdoc sampleDoc_inherit
    obtain ⟨execFn, parts, st', hparts, hiff⟩ := closed_clsParts hview hnodes 0
    have hclosed := hall plainGenEnv [] _ _ plainGenEnv_digits hdocs hdoc sampleDoc_inherit _ r hparse
      kind line col childs hchild hnodes 0 execFn parts st' hparts
    exact hclear (hiff.1 hclosed).2
  · cases hr

end Fanjet

end LibEvmvc
