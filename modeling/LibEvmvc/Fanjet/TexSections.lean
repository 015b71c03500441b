import LibEvmvc.Fanjet.NodeEnds

set_option autoImplicit false

/-! # The end of a TeX section

In a section of TeX the braces nest, and a backslash escapes a brace or a backslash behind it. The parser
counts the braces among the tokens. As these are cut at every brace and backslash, it counts those of the
text: what is escaped is what has an unpaired backslash in front. -/

namespace LibEvmvc

namespace Fanjet

/-! ## Braces in TeX -/

/-- A backslash, or a brace. -/
def texEscaped (c : UInt8) : Bool := c == 92 || c == 123 || c == 125

/-- The text without the braces and backslashes that are escaped, and without what escapes them. -/
def texPlain : Bytes → Bytes
  | c :: d :: s => if c = 92 ∧ texEscaped d then texPlain s else c :: texPlain (d :: s)
  | s => s

/-- How deep the braces are behind a text, if it closes none that is not open. -/
def braceDepth : Nat → Bytes → Option Nat
  | d, [] => some d
  | d, c :: s =>
    if c = 123 then braceDepth (d + 1) s
    else if c = 125 then if d = 0 then none else braceDepth (d - 1) s
    else braceDepth d s

section Text

variable {c : UInt8} {s a : Bytes}

theorem texPlain_cons (h : c = 92 → ∀ d ∈ s.head?, texEscaped d = false) :
    texPlain (c :: s) = c :: texPlain s := by
  cases s with
  | nil => rfl
  | cons d s =>
    rw [texPlain, if_neg]
    rintro ⟨rfl, hd⟩
    rw [h rfl d rfl] at hd
    cases hd

theorem texPlain_escape {d : UInt8} (hd : texEscaped d = true) : texPlain (92 :: d :: s) = texPlain s := by
  rw [texPlain, if_pos ⟨rfl, hd⟩]

theorem texPlain_append (ha : 92 ∉ a) : texPlain (a ++ s) = a ++ texPlain s := by
  induction a with
  | nil => rfl
  | cons c a ih =>
    rw [List.mem_cons, not_or] at ha
    rw [List.cons_append, texPlain_cons fun hc => absurd hc.symm ha.1, ih ha.2]
    rfl

theorem braceDepth_append {d : Nat} (ha : 123 ∉ a ∧ 125 ∉ a) : braceDepth d (a ++ s) = braceDepth d s := by
  induction a with
  | nil => rfl
  | cons c a ih =>
    simp only [List.mem_cons, not_or] at ha
    rw [List.cons_append, braceDepth, if_neg (Ne.symm ha.1.1), if_neg (Ne.symm ha.2.1), ih ⟨ha.1.2, ha.2.2⟩]

/-- The end of a text behind another one that does not end with a backslash. -/
theorem slash_suffix_append (ha : 92 ∉ a) : [92] <:+ a ++ s ↔ [92] <:+ s := by
  constructor
  · rintro ⟨x, hx⟩
    rcases List.append_eq_append_iff.1 hx with ⟨y, hy, hslash⟩ | ⟨y, -, hs⟩
    · rcases y with _ | ⟨d, y⟩
      · exact ⟨[], hslash⟩
      · obtain ⟨rfl, -⟩ := List.cons.inj hslash
        exact absurd (hy ▸ List.mem_append_right x List.mem_cons_self) ha
    · exact ⟨y, hs.symm⟩
  · exact fun h => h.trans (List.suffix_append a s)

end Text

/-! ## The rounds of the section -/

/-- `is_tex() || is_latex()` -/
def IsTex (lang : Bytes) : Prop := lang = bytes "tex" ∨ lang = bytes "latex"

/-- What a section of TeX does with a token that opens nothing. -/
def texRound (lang : Bytes) (braces : Nat) (t : Token) (rest : List Token) : Action :=
  if t.isAny ["\"", "'"] then .next .loop
  else if t.is "\\" then
    match rest with
    | [] => .next .loop
    | nt :: _ => if nt.isAny ["\x7d", "\x7b", "\\"] then .next (.next .loop) else .next .loop
  else if t.is "\x7b" then .set (.literal .markupOther lang (braces + 1)) (.next .loop)
  else if t.is "\x7d" then
    if braces = 0 then closeScope else .set (.literal .markupOther lang (braces - 1)) (.next .loop)
  else .next .loop

section Rounds

variable {env : FanEnv} {p : Parsing} {X : OpenNode} {below : List OpenNode} {lang : Bytes} {d : Nat}
  {u t : Token} {l r : List Token}

/-- A token without an `@` is none of fanjet's own. -/
theorem Token.not_isAny (h : 64 ∉ u.text) {ss : List String}
    (hss : (ss.all fun s => (bytes s).contains 64) = true) : u.isAny ss = false := by
  rw [Token.isAny, List.any_eq_false]
  intro s hs hus
  refine h ?_
  rw [of_decide_eq_true hus]
  exact List.contains_iff_mem.1 (List.all_eq_true.1 hss s hs)

theorem literalOpens_none (h : 64 ∉ u.text) (env : FanEnv) (k : NodeKind) (rest : List Token) (a : Action) :
    orOpen (literalOpens env k u rest) a = a := by
  have hfan := Token.fan_none (@Token.not_isAny _ h fanWords (by decide))
  obtain ⟨hcomment, hdirective, houtput, -, hmarkup, hkey, hfn⟩ := hfan
  have hopens : u.isAny ["@\x7b", "@if", "@switch", "@while", "@for", "@do", "@try", "@funi", "@func"]
      = false := Token.not_isAny h (by decide)
  simp only [Token.isAny, List.any_cons, List.any_nil, Bool.or_false, Bool.or_eq_false_iff] at hopens
  simp [orOpen, literalOpens, hcomment, hdirective, houtput, hmarkup, hkey, hfn, openFanCodeBlock,
    openFanControl, openFanTry, openFanFuniFunc, Token.isAny, hopens]

/-- The round of a section of TeX at a token without an `@`. -/
theorem parseAction_tex (hlang : IsTex lang)
    (hp : p.At (.literal .markupOther lang d) (X :: below) (u :: r)) (hat : 64 ∉ u.text) :
    parseAction env p = texRound lang d u r := by
  have hsemicol : (bytes "$$").isPrefixOf lang = false := by
    rcases hlang with rfl | rfl <;> decide
  have hsection : ((bytes "<$").isPrefixOf lang || (bytes "$>").isPrefixOf lang) = false := by
    rcases hlang with rfl | rfl <;> decide
  have hmarkdown : ¬ (lang = bytes "markdown" ∨ lang = bytes "md") := by
    rcases hlang with rfl | rfl <;> decide
  have htex : lang = bytes "tex" ∨ lang = bytes "latex" := hlang
  unfold parseAction
  simp only [hp.kind, hp.cur]
  unfold literalParse texRound
  simp only [literalOpens_none hat, hsemicol, hsection, if_neg hmarkdown, if_pos htex]
  by_cases hslash : u.is "\\" = true
  · have hbrace : u.is "\x7d" = false := (Token.is_of_is hslash _).trans (by decide)
    cases r with
    | nil => simp [hslash, hbrace]
    | cons v r => simp [hslash, hbrace]
  · by_cases hopen : u.is "\x7b" = true
    · simp [hslash, hopen]
    · by_cases hclose : u.is "\x7d" = true
      · simp [hslash, hopen, hclose]
      · simp [hslash, hopen, hclose]

theorem goesTo_set {k k' : NodeKind} {below : List OpenNode} (hp : p.At k below (t :: r)) :
    (act p (.set k' (.next .loop))).GoesTo fun q => q.At k' below r := by
  rw [act]
  exact goesTo_next ⟨rfl, hp.below, hp.cur⟩

theorem Token.is_mark {c : UInt8} (h : u.text = [c]) (s : String) : u.is s = decide ([c] = bytes s) := by
  rw [Token.is, h]

/-- A token without an `@` has no mark, or is one. -/
theorem mark_cases (hcut : u.MarkCut) (hat : 64 ∉ u.text) :
    (∀ c ∈ u.text, isMark c = false) ∨ ∃ c, isMark c = true ∧ u.text = [c] := by
  by_cases hmark : ∃ c ∈ u.text, isMark c = true
  · obtain ⟨c, hc, hmark⟩ := hmark
    rcases hcut c hc hmark with htext | ⟨htext, -⟩
    · exact .inr ⟨c, hmark, htext⟩
    · exact absurd (htext ▸ List.mem_cons_self) hat
  · refine .inl fun c hc => ?_
    by_contra hno
    exact hmark ⟨c, hc, by simpa using hno⟩

/-- A token that begins with a brace or a backslash is one. -/
theorem token_of_head (hcut : u.MarkCut) (hat : 64 ∉ u.text) {e : UInt8} (he : e ∈ u.text.head?)
    (hescaped : texEscaped e = true) : u.text = [e] := by
  have hmem : e ∈ u.text := List.mem_of_head? he
  have hmark : isMark e = true := by
    simp only [texEscaped, Bool.or_eq_true, beq_iff_eq] at hescaped
    rcases hescaped with (rfl | rfl) | rfl <;> rfl
  rcases mark_cases hcut hat with hplain | ⟨c, -, hc⟩
  · rw [hplain e hmem] at hmark
    cases hmark
  · rw [hc] at hmem ⊢
    rw [List.mem_singleton.1 hmem]

end Rounds

/-! ## Up to the brace of the section -/

/-- Inside a section of TeX, in front of the brace `t`: the braces of `l` are closed in it, and whether it
ends with an unpaired backslash is `e`. -/
structure InTex (lang : Bytes) (X : OpenNode) (below : List OpenNode) (t : Token) (r : List Token) (e : Prop)
    (d : Nat) (l : List Token) (q : Parsing) : Prop where
  at_cur : q.At (.literal .markupOther lang d) (X :: below) (l ++ t :: r)
  cut : ∀ u ∈ l, u.MarkCut
  ne : ∀ u ∈ l, u.text ≠ []
  noAt : ∀ u ∈ l, 64 ∉ u.text
  depth : braceDepth d (texPlain (listText l)) = some 0
  slash : [92] <:+ texPlain (listText l) ↔ e

section Section

variable {env : FanEnv} {p : Parsing} {X : OpenNode} {below : List OpenNode} {lang : Bytes} {d d' : Nat}
  {u v t : Token} {l l' r : List Token} {e : Prop}

/-- The round is that of `texRound`. -/
theorem InTex.action (hlang : IsTex lang) (hp : InTex lang X below t r e d (v :: l) p) :
    parseStep env p = act p (texRound lang d v (l ++ t :: r)) :=
  congrArg (act p) (parseAction_tex hlang hp.at_cur (hp.noAt v List.mem_cons_self))

/-- Further on in the section. -/
theorem InTex.further (hp : InTex lang X below t r e d l p) (hl : l' <:+ l)
    (hdepth : braceDepth d' (texPlain (listText l')) = some 0)
    (hslash : [92] <:+ texPlain (listText l') ↔ e)
    (hgo : (parseStep env p).GoesTo fun q => q.At (.literal .markupOther lang d') (X :: below) (l' ++ t :: r)) :
    (parseStep env p).GoesTo (InTex lang X below t r e d' l') := by
  obtain ⟨q, hgo, hq⟩ := hgo
  exact ⟨q, hgo, hq, fun u hu => hp.cut u (hl.subset hu), fun u hu => hp.ne u (hl.subset hu),
    fun u hu => hp.noAt u (hl.subset hu), hdepth, hslash⟩

/-- A token without a brace or a backslash. -/
theorem InTex.pass (hlang : IsTex lang) (hp : InTex lang X below t r e d (v :: l) p)
    (hround : texRound lang d v (l ++ t :: r) = .next .loop) (hslash : 92 ∉ v.text)
    (hbrace : 123 ∉ v.text ∧ 125 ∉ v.text) : (parseStep env p).GoesTo (InTex lang X below t r e d l) := by
  have hdepth := hp.depth
  have he := hp.slash
  rw [listText_cons, texPlain_append hslash] at hdepth he
  rw [braceDepth_append hbrace] at hdepth
  rw [slash_suffix_append hslash] at he
  refine hp.further (List.suffix_cons v l) hdepth he ?_
  rw [hp.action hlang, hround]
  exact goesTo_next hp.at_cur

theorem InTex.plain (hlang : IsTex lang) (hp : InTex lang X below t r e d (v :: l) p)
    (hplain : ∀ c ∈ v.text, isMark c = false) : (parseStep env p).GoesTo (InTex lang X below t r e d l) := by
  have hnot (c : UInt8) (hmark : isMark c = true) : c ∉ v.text := by
    intro hc
    rw [hplain c hc] at hmark
    cases hmark
  have hnone (s : String) (hs : (bytes s).any isMark = true) : v.is s = false := by
    obtain ⟨c, hc, hmark⟩ := List.any_eq_true.1 hs
    refine decide_eq_false fun h => hnot c hmark ?_
    rw [h]
    exact hc
  refine hp.pass hlang ?_ (hnot 92 rfl) ⟨hnot 123 rfl, hnot 125 rfl⟩
  simp [texRound, Token.isAny, hnone "\"" (by decide), hnone "'" (by decide), hnone "\\" (by decide),
    hnone "\x7b" (by decide), hnone "\x7d" (by decide)]

theorem InTex.quote (hlang : IsTex lang) (hp : InTex lang X below t r e d (v :: l) p)
    (hv : v.text = [34] ∨ v.text = [39]) : (parseStep env p).GoesTo (InTex lang X below t r e d l) := by
  have hquote : v.isAny ["\"", "'"] = true := by
    rcases hv with hv | hv
    · simp [Token.isAny, Token.is_mark hv]
      decide
    · simp [Token.isAny, Token.is_mark hv]
      decide
  have hround : texRound lang d v (l ++ t :: r) = .next .loop := if_pos hquote
  rcases hv with hv | hv
  · exact hp.pass hlang hround (by rw [hv]; decide) (by rw [hv]; decide)
  · exact hp.pass hlang hround (by rw [hv]; decide) (by rw [hv]; decide)

theorem texRound_slash (hv : v.text = [92]) (rest : List Token) : texRound lang d v (u :: rest)
    = if u.isAny ["\x7d", "\x7b", "\\"] then .next (.next .loop) else .next .loop := by
  have hquote : v.isAny ["\"", "'"] = false := by
    simp [Token.isAny, Token.is_mark hv]
    decide
  have hslash : v.is "\\" = true := by
    rw [Token.is_mark hv]
    decide
  unfold texRound
  rw [if_neg (by rw [hquote]; exact Bool.false_ne_true), if_pos hslash]

theorem isAny_escaped {c : UInt8} (hu : u.text = [c]) (hc : texEscaped c = true) :
    u.isAny ["\x7d", "\x7b", "\\"] = true := by
  simp only [texEscaped, Bool.or_eq_true, beq_iff_eq] at hc
  rcases hc with (rfl | rfl) | rfl
  · simp [Token.isAny, Token.is_mark hu]
    decide
  · simp [Token.isAny, Token.is_mark hu]
    decide
  · simp [Token.isAny, Token.is_mark hu]
    decide

/-- A backslash and what it escapes. -/
theorem InTex.escape (hlang : IsTex lang) (hp : InTex lang X below t r e d (v :: u :: l) p)
    (hv : v.text = [92]) {c : UInt8} (hu : u.text = [c]) (hc : texEscaped c = true) :
    (parseStep env p).GoesTo (InTex lang X below t r e d l) := by
  have hdepth := hp.depth
  have he := hp.slash
  have hplain : texPlain ([92] ++ ([c] ++ listText l)) = texPlain (listText l) := texPlain_escape hc
  rw [listText_cons, listText_cons, hv, hu, hplain] at hdepth he
  refine hp.further ((List.suffix_cons u l).trans (List.suffix_cons v _)) hdepth he ?_
  have hround : texRound lang d v (u :: l ++ t :: r) = .next (.next .loop) :=
    (texRound_slash hv (l ++ t :: r)).trans (if_pos (isAny_escaped hu hc))
  rw [hp.action hlang, hround]
  exact goesTo_next_next hp.at_cur

/-- A backslash that escapes nothing. -/
theorem InTex.lone (hlang : IsTex lang) (hp : InTex lang X below t r e d (v :: u :: l) p)
    (hv : v.text = [92]) (hu : ∀ c, u.text = [c] → texEscaped c = false) :
    (parseStep env p).GoesTo (InTex lang X below t r e d (u :: l)) := by
  have hmem : u ∈ v :: u :: l := List.mem_cons_of_mem v List.mem_cons_self
  obtain ⟨c, w, hw⟩ := List.exists_cons_of_ne_nil (hp.ne u hmem)
  have hc : texEscaped c = false := by
    by_contra hno
    rw [Bool.not_eq_false] at hno
    have htext := token_of_head (hp.cut u hmem) (hp.noAt u hmem) (by rw [hw]; exact rfl) hno
    rw [hu c htext] at hno
    cases hno
  have hdepth := hp.depth
  have he := hp.slash
  have hslash : texPlain ([92] ++ listText (u :: l)) = 92 :: texPlain (listText (u :: l)) := by
    refine texPlain_cons fun _ c' hc' => ?_
    rw [listText_cons, hw] at hc'
    cases hc'
    exact hc
  have hplain : texPlain (listText (u :: l)) = c :: texPlain (w ++ listText l) := by
    rw [listText_cons, hw, List.cons_append]
    refine texPlain_cons ?_
    rintro rfl
    cases hc
  rw [listText_cons, hv, hslash] at hdepth he
  rw [braceDepth, if_neg (by decide), if_neg (by decide)] at hdepth
  rw [hplain, List.suffix_cons_iff] at he
  have hshort : ¬ [92] = 92 :: c :: texPlain (w ++ listText l) := by simp
  refine hp.further (List.suffix_cons v _) hdepth ?_ ?_
  · rw [hplain, ← he]
    exact (or_iff_right hshort).symm
  · have hround : texRound lang d v (u :: l ++ t :: r) = .next .loop := by
      refine (texRound_slash hv (l ++ t :: r)).trans (if_neg ?_)
      intro hany
      simp only [Token.isAny, List.any_cons, List.any_nil, Bool.or_false, Bool.or_eq_true] at hany
      rcases hany with hany | hany | hany
      · exact absurd (hu 125 (of_decide_eq_true hany)) (by decide)
      · exact absurd (hu 123 (of_decide_eq_true hany)) (by decide)
      · exact absurd (hu 92 (of_decide_eq_true hany)) (by decide)
    rw [hp.action hlang, hround]
    exact goesTo_next hp.at_cur

/-- A backslash in front of the brace of the section. -/
theorem InTex.last (hlang : IsTex lang) (ht : t.text = [125]) (hp : InTex lang X below t r e d [v] p)
    (hv : v.text = [92]) :
    e ∧ (parseStep env p).GoesTo fun q => q.At (.literal .markupOther lang d) (X :: below) r := by
  refine ⟨hp.slash.1 ?_, ?_⟩
  · rw [listText_cons, hv]
    exact List.suffix_refl _
  · have hround : texRound lang d v ([] ++ t :: r) = .next (.next .loop) :=
      (texRound_slash hv r).trans (if_pos (isAny_escaped ht rfl))
    rw [hp.action hlang, hround]
    exact goesTo_next_next hp.at_cur

/-- A brace that is not that of the section. -/
theorem InTex.brace (hlang : IsTex lang) (hp : InTex lang X below t r e d (v :: l) p)
    (hv : v.text = [123] ∨ v.text = [125]) :
    ∃ d', (parseStep env p).GoesTo (InTex lang X below t r e d' l) := by
  have hdepth := hp.depth
  have he := hp.slash
  have hslash : 92 ∉ v.text := by
    rcases hv with hv | hv <;> rw [hv] <;> decide
  rw [listText_cons, texPlain_append hslash] at hdepth he
  rw [slash_suffix_append hslash] at he
  have hnone (s : String) (hs : bytes s ≠ [123] ∧ bytes s ≠ [125]) : v.is s = false := by
    rcases hv with hv | hv
    · exact decide_eq_false fun h => hs.1 (h.symm.trans hv)
    · exact decide_eq_false fun h => hs.2 (h.symm.trans hv)
  have hround : texRound lang d v (l ++ t :: r) = if v.is "\x7b" then
      .set (.literal .markupOther lang (d + 1)) (.next .loop) else if v.is "\x7d" then
        if d = 0 then closeScope else .set (.literal .markupOther lang (d - 1)) (.next .loop)
      else .next .loop := by
    simp [texRound, Token.isAny, hnone "\"" (by decide), hnone "'" (by decide), hnone "\\" (by decide)]
  rw [Token.is, Token.is] at hround
  rcases hv with hv | hv
  · rw [hv] at hdepth hround
    refine ⟨d + 1, hp.further (List.suffix_cons v l) hdepth he ?_⟩
    rw [hp.action hlang, hround, if_pos (by decide)]
    exact goesTo_set hp.at_cur
  · rw [hv] at hdepth hround
    rw [List.singleton_append, braceDepth, if_neg (by decide), if_pos rfl] at hdepth
    have hd : d ≠ 0 := by
      rintro rfl
      cases hdepth
    rw [if_neg hd] at hdepth
    refine ⟨d - 1, hp.further (List.suffix_cons v l) hdepth he ?_⟩
    rw [hp.action hlang, hround, if_neg (by decide), if_pos (by decide), if_neg hd]
    exact goesTo_set hp.at_cur

/-- A round goes on by a token, or by a backslash and what it escapes; if the backslash is the last token in
front of `t`, that is passed over. -/
theorem InTex.step (hlang : IsTex lang) (ht : t.text = [125])
    (hp : InTex lang X below t r e d (v :: l) p) :
    (∃ d' l', l' <:+ l ∧ (parseStep env p).GoesTo (InTex lang X below t r e d' l')) ∨
    (e ∧ (parseStep env p).GoesTo fun q => q.At (.literal .markupOther lang d) (X :: below) r) := by
  have hv : v ∈ v :: l := List.mem_cons_self
  rcases mark_cases (hp.cut v hv) (hp.noAt v hv) with hplain | ⟨c, hmark, hc⟩
  · exact .inl ⟨d, l, List.suffix_refl l, hp.plain hlang hplain⟩
  · have hcases : c = 34 ∨ c = 39 ∨ c = 92 ∨ c = 123 ∨ c = 125 := by
      simpa [isMark, or_assoc] using hmark
    rcases hcases with rfl | rfl | rfl | rfl | rfl
    · exact .inl ⟨d, l, List.suffix_refl l, hp.quote hlang (.inl hc)⟩
    · exact .inl ⟨d, l, List.suffix_refl l, hp.quote hlang (.inr hc)⟩
    · rcases l with _ | ⟨u, l⟩
      · exact .inr (hp.last hlang ht hc)
      · by_cases hescaped : ∃ c, u.text = [c] ∧ texEscaped c = true
        · obtain ⟨c, hu, hc'⟩ := hescaped
          exact .inl ⟨d, l, List.suffix_cons u l, hp.escape hlang hc hu hc'⟩
        · refine .inl ⟨d, u :: l, List.suffix_refl _, hp.lone hlang hc fun c hu => ?_⟩
          by_contra hno
          exact hescaped ⟨c, hu, by simpa using hno⟩
    · obtain ⟨d', hgo⟩ := hp.brace hlang (.inl hc)
      exact .inl ⟨d', l, List.suffix_refl l, hgo⟩
    · obtain ⟨d', hgo⟩ := hp.brace hlang (.inr hc)
      exact .inl ⟨d', l, List.suffix_refl l, hgo⟩

/-- Without an unpaired backslash at the end, the parser comes to the brace of the section. -/
theorem InTex.leadsTo (hlang : IsTex lang) (ht : t.text = [125]) (he : ¬ e)
    (hp : InTex lang X below t r e d l p) : LeadsTo env p (InTex lang X below t r e 0 []) := by
  induction hlen : l.length using Nat.strong_induction_on generalizing d l p with
  | _ n ih =>
    subst hlen
    rcases l with _ | ⟨v, l⟩
    · obtain rfl : d = 0 := Option.some.inj hp.depth
      exact .refl hp
    · rcases hp.step hlang ht with ⟨d', l', hl, hgo⟩ | ⟨hends, -⟩
      · have hlen := hl.length_le
        exact .step hgo fun q hq => ih l'.length (by rw [List.length_cons]; omega) hq rfl
      · exact absurd hends he

/-- With one, the parser never is at the brace. -/
theorem InTex.misses {q : Parsing} (hlang : IsTex lang) (ht : t.text = [125]) (he : e)
    (hp : InTex lang X below t r e d l p) (hrun : Relation.ReflTransGen (Steps env) p q) :
    q.cur <:+ r ∨ ∃ d' l', l' ≠ [] ∧ InTex lang X below t r e d' l' q := by
  have hnil {d' : Nat} {l' : List Token} {q : Parsing} (hq : InTex lang X below t r e d' l' q) : l' ≠ [] := by
    rintro rfl
    exact absurd (hq.slash.2 he) (by decide)
  induction hrun with
  | refl => exact .inr ⟨d, l, hnil hp, hp⟩
  | @tail q q' _ hstep ih =>
    rcases ih with hcur | ⟨d', l', hl', hq⟩
    · exact .inl (hstep.cur.trans hcur)
    · have hgo : parseStep env q = .go q' := hstep
      obtain ⟨v, l', rfl⟩ := List.exists_cons_of_ne_nil hl'
      rcases hq.step hlang ht with ⟨d'', l'', -, q'', hgo', hq''⟩ | ⟨-, q'', hgo', hq''⟩
      · cases hgo.symm.trans hgo'
        exact .inr ⟨d'', l'', hnil hq'', hq''⟩
      · cases hgo.symm.trans hgo'
        exact .inl (hq''.cur ▸ List.suffix_refl r)

end Section

/-! ## Sections in a template -/

/-- The parser of a section of TeX, with no brace open, has `B`, a closing brace and `R` to come. There is no
`@` in `B`, and its braces are balanced but for those that are escaped. -/
structure AtTex (env : FanEnv) (text lang : Bytes) (X : OpenNode) (below : List OpenNode) (B R : Bytes)
    (p : Parsing) : Prop where
  reached : Reached env text p
  tex : IsTex lang
  at_cur : p.At (.literal .markupOther lang 0) (X :: below) p.cur
  noAt : 64 ∉ B
  balanced : braceDepth 0 (texPlain B) = some 0
  text_eq : listText p.cur = B ++ 125 :: R

section Template

variable {env : FanEnv} {text lang : Bytes} {X : OpenNode} {below : List OpenNode} {B R : Bytes} {p : Parsing}

theorem AtTex.cut (h : AtTex env text lang X below B R p) :
    Tokenized sTokens p.cur ∧ ∀ t ∈ p.cur, t.text ≠ [] :=
  h.reached.cut (by rw [h.at_cur.below]; exact List.cons_ne_nil X below)

/-- The brace is a token, or what is in front of it is in the last token as well. -/
theorem AtTex.brace_cases (h : AtTex env text lang X below B R p) :
    (∃ l t r, p.cur = l ++ t :: r ∧ t.text = [125] ∧ listText r = R ∧
      InTex lang X below t r ([92] <:+ texPlain B) 0 l p) ∨
    R = [] ∧ ∃ l t, p.cur = l ++ [t] ∧ t.text ≠ [125] := by
  obtain ⟨hcut, hne⟩ := h.cut
  rcases hcut.cuts hne rfl (fun _ => h.noAt) h.text_eq with ⟨l, t, r, hcur, ht, rfl, hr⟩ | hlast
  · rw [hcur] at hcut hne
    refine .inl ⟨l, t, r, hcur, ht, hr, hcur ▸ h.at_cur, hcut.markCut hne,
      fun u hu => hne u (List.mem_append_left _ hu), fun u hu hat => h.noAt ?_, h.balanced, Iff.rfl⟩
    exact List.mem_flatMap.2 ⟨u, hu, hat⟩
  · exact .inr hlast

/-- The brace of the section is passed over if it has an unpaired backslash in front. -/
theorem AtTex.misses (h : AtTex env text lang X below B R p) (hB : [92] <:+ texPlain B) :
    ¬ EndsAt env (.literal .markupOther lang 0) 125 X below R p := by
  intro hends
  obtain ⟨-, hne⟩ := h.cut
  rcases h.brace_cases with ⟨l, t, r, hcur, ht, hr, hin⟩ | ⟨hnil, l, t, hcur, ht⟩
  · obtain ⟨q, hrun, hthere⟩ := hends.at_token hne hcur ht hr
    have hlen := congrArg List.length hthere
    rcases hin.misses h.tex ht hB hrun with hshort | ⟨d', l', hl', hin'⟩
    · have hle := hshort.length_le
      rw [hthere, List.length_cons] at hle
      omega
    · have hpos := List.length_pos_iff.2 hl'
      rw [hin'.at_cur.cur] at hlen
      simp only [List.length_append, List.length_cons] at hlen
      omega
  · exact ht (hends.last_token hne hcur hnil)

/-- The brace of the section is passed over if it is no token of its own. -/
theorem AtTex.misses_last (h : AtTex env text lang X below B [] p)
    (hlast : ∀ l t, p.cur = l ++ [t] → t.text ≠ [125]) :
    ¬ EndsAt env (.literal .markupOther lang 0) 125 X below [] p := by
  intro hends
  obtain ⟨l, t, hcur, ht⟩ := hends.own_token h.cut.2 h.text_eq rfl
  exact hlast l t hcur ht

/-- **A section of TeX ends at its brace exactly if there is no unpaired backslash in front of the brace**,
and the brace is a token of its own if the template ends there. -/
theorem AtTex.section_ends_iff (h : AtTex env text lang X below B R p) :
    EndsAt env (.literal .markupOther lang 0) 125 X below R p ↔
      ¬ [92] <:+ texPlain B ∧ (R = [] → ∃ l t, p.cur = l ++ [t] ∧ t.text = [125]) := by
  constructor
  · exact fun hends => ⟨fun hB => h.misses hB hends, hends.own_token h.cut.2 h.text_eq⟩
  · rintro ⟨hB, hlast⟩
    rcases h.brace_cases with ⟨l, t, r, hcur, ht, hr, hin⟩ | ⟨hnil, l, t, hcur, ht⟩
    · obtain ⟨q, hrun, hq⟩ := hin.leadsTo h.tex ht hB
      have hround : parseStep env q = act q closeScope := by
        refine congrArg (act q) ((parseAction_tex h.tex hq.at_cur (by rw [ht]; decide)).trans ?_)
        obtain ⟨text, line, col, pos⟩ := t
        obtain rfl : text = [125] := ht
        rfl
      obtain ⟨e, hstep, he, -, -, hchild⟩ := goesTo_close_child hq.at_cur
      have hcur' := he.cur
      exact ⟨q, e, t, hrun, hcur' ▸ hq.at_cur, ht, hround.trans hstep, hcur' ▸ he, hchild, hcur' ▸ hr⟩
    · obtain ⟨l', t', hcur', ht'⟩ := hlast hnil
      obtain ⟨-, heq⟩ := List.append_inj' (hcur.symm.trans hcur') rfl
      exact absurd ht' ((List.cons.inj heq).1 ▸ ht)

/-- The characters of the samples. -/
def isTexChar (c : UInt8) : Bool := (asciiBytes "@(tex)\x7b12\x7d").contains c

/-- `@(tex)` and a brace. -/
def texTokens : List Token :=
  [⟨bytes "@(", 1, 1, 0⟩, ⟨bytes "tex", 1, 0, 1⟩, ⟨bytes ")", 1, 6, 5⟩, ⟨bytes "\x7b", 1, 7, 6⟩]

/-- Behind the first token. -/
def texStart (ts : List Token) : Parsing :=
  { parseStart (texTokens ++ ts) with pre := [rootToken], entry := false }

/-- A section of TeX at the beginning of a template. -/
theorem opens_tex {ts : List Token} (hmore : ts ≠ []) (htext : tokenize text = rootToken :: (texTokens ++ ts)) :
    ∃ X below p, Reached blankTrim text p ∧
      p.At (.literal .markupOther (bytes "tex") 0) (X :: below) ts := by
  have hroot : parseStep blankTrim (parseStart (rootToken :: (texTokens ++ ts))) = .go (texStart ts) := rfl
  have hlen : 4 < (texTokens ++ ts).length := by
    have hpos := List.length_pos_iff.2 hmore
    simp only [texTokens, List.length_append, List.length_cons, List.length_nil]
    omega
  have hopen : parseStep blankTrim (texStart ts)
      = .go ((texStart ts).open (.literal .markupOther (bytes "tex") 0) 4) := if_pos hlen
  refine ⟨_, _, (texStart ts).open (.literal .markupOther (bytes "tex") 0) 4, ?_, ?_, rfl, rfl⟩
  · rw [Reached, htext]
    exact .head hroot (.single hopen)
  · rw [Parsing.open, OpenNode.kind_addToken]

/-- `@(tex)\x7b\x7b1\x7d\x7d2` -/
theorem section_ends_nested : ∃ X below p,
    AtTex blankTrim (bytes "@(tex)\x7b\x7b1\x7d\x7d2") (bytes "tex") X below (bytes "\x7b1\x7d") (bytes "2") p ∧
      (EndsAt blankTrim (.literal .markupOther (bytes "tex") 0) 125 X below (bytes "2") p ↔
        ¬ [92] <:+ texPlain (bytes "\x7b1\x7d") ∧
          (bytes "2" = [] → ∃ l t, p.cur = l ++ [t] ∧ t.text = [125])) := by
  have htokens : tokenize (bytes "@(tex)\x7b\x7b1\x7d\x7d2") = rootToken :: (texTokens ++
      [⟨bytes "\x7b", 1, 8, 7⟩, ⟨bytes "1", 1, 0, 7⟩, ⟨bytes "\x7d", 1, 10, 9⟩, ⟨bytes "\x7d", 1, 11, 10⟩,
        ⟨bytes "2", 1, 0, 10⟩]) := by
    rw [tokenize_heads isTexChar (by decide +kernel)]
    decide +kernel
  obtain ⟨X, below, p, hreached, hp⟩ := opens_tex (List.cons_ne_nil _ _) htokens
  have hat : AtTex blankTrim (bytes "@(tex)\x7b\x7b1\x7d\x7d2") (bytes "tex") X below (bytes "\x7b1\x7d")
      (bytes "2") p :=
    ⟨hreached, .inl rfl, ⟨hp.kind, hp.below, rfl⟩, by decide, by decide, by rw [hp.cur]; decide⟩
  exact ⟨X, below, p, hat, hat.section_ends_iff⟩

/-- `@(tex)\x7b1\x7d`: the last character is left to the text in front of it. -/
theorem section_not_ended : ∃ X below p,
    AtTex blankTrim (bytes "@(tex)\x7b1\x7d") (bytes "tex") X below (bytes "1") [] p ∧
      ¬ EndsAt blankTrim (.literal .markupOther (bytes "tex") 0) 125 X below [] p := by
  have htokens : tokenize (bytes "@(tex)\x7b1\x7d")
      = rootToken :: (texTokens ++ [⟨bytes "1\x7d", 1, 0, 6⟩]) := by
    rw [tokenize_heads isTexChar (by decide +kernel)]
    decide +kernel
  obtain ⟨X, below, p, hreached, hp⟩ := opens_tex (List.cons_ne_nil _ _) htokens
  have hat : AtTex blankTrim (bytes "@(tex)\x7b1\x7d") (bytes "tex") X below (bytes "1") [] p :=
    ⟨hreached, .inl rfl, ⟨hp.kind, hp.below, rfl⟩, by decide, by decide, by rw [hp.cur]; decide⟩
  refine ⟨X, below, p, hat, hat.misses_last fun l t hcur => ?_⟩
  rw [hp.cur] at hcur
  obtain ⟨-, heq⟩ := List.append_inj' (hcur.symm.trans (List.nil_append _).symm) rfl
  rw [(List.cons.inj heq).1]
  decide

end Template

end Fanjet

end LibEvmvc
