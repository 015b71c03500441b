import LibEvmvc.Fanjet.Positions

set_option autoImplicit false

/-! # Where a template is cut

A token is the entry that is found where it begins, or a text in which none begins (`Tokenized`). So a
quote, a backslash or a brace is a token of its own, or it is in an entry that has an `@`, or it is the
last character of the template, which is left to the text in front of it (`Tokenized.cuts`). -/

namespace LibEvmvc

namespace Fanjet

/-! ## Tokens and entries -/

/-- Each token is found where it begins, or no entry begins in it. -/
def Tokenized (toks : List Bytes) : List Token → Prop
  | [] => True
  | t :: ts =>
    (findToken toks (t.text ++ listText ts) = some t.text ∨
      ∀ x y, t.text = x ++ y → y ≠ [] → findToken toks (y ++ listText ts) = none) ∧ Tokenized toks ts

section Table

variable {toks : List Bytes} {ts : List Token}

theorem Tokenized.suffix {ts' : List Token} (h : Tokenized toks ts) (hsuffix : ts' <:+ ts) :
    Tokenized toks ts' := by
  obtain ⟨l, rfl⟩ := hsuffix
  induction l with
  | nil => exact h
  | cons t l ih => exact ih h.2

/-- No shorter entry is found than one that stands there. -/
theorem findToken_longest {rest tok : Bytes} (hmem : tok ∈ toks) (hne : tok ≠ [])
    (htok : isToken tok rest = true) : ∃ tok', findToken toks rest = some tok' ∧ tok.length ≤ tok'.length := by
  have hgrows (toks : List Bytes) (tval : Bytes) : tval.length ≤ (toks.foldl (pickToken rest) tval).length := by
    induction toks generalizing tval with
    | nil => exact Nat.le_refl _
    | cons t toks ih =>
      refine Nat.le_trans ?_ (ih _)
      unfold pickToken
      split
      · next hlonger =>
        rw [Bool.and_eq_true, decide_eq_true_eq] at hlonger
        exact Nat.le_of_lt hlonger.1
      · exact Nat.le_refl _
  have hfold (tval : Bytes) : tok.length ≤ (toks.foldl (pickToken rest) tval).length := by
    induction toks generalizing tval with
    | nil => cases hmem
    | cons t toks ih =>
      rcases List.mem_cons.1 hmem with rfl | hmem
      · have hpick : tok.length ≤ (pickToken rest tval tok).length := by
          unfold pickToken
          split
          · exact Nat.le_refl _
          · next hlonger => simpa [htok] using hlonger
        exact Nat.le_trans hpick (hgrows toks _)
      · exact ih hmem _
  refine ⟨toks.foldl (pickToken rest) [], ?_, hfold []⟩
  have hpos := List.length_pos_iff.2 hne
  have hsome : toks.foldl (pickToken rest) [] ≠ [] :=
    List.length_pos_iff.1 (Nat.lt_of_lt_of_le hpos (hfold []))
  unfold findToken
  exact if_neg hsome

/-- What ends a text with one more character ends with this one. -/
theorem concat_eq_append {l x y : Bytes} {c : UInt8} (h : l ++ [c] = x ++ y) (hy : y ≠ []) :
    ∃ y', y = y' ++ [c] ∧ l = x ++ y' := by
  obtain ⟨y, d, rfl⟩ := (List.eq_nil_or_concat' y).resolve_left hy
  obtain ⟨hl, hc⟩ := List.append_inj' (h.trans (List.append_assoc x y [d]).symm) rfl
  obtain rfl := List.singleton_inj.1 hc
  exact ⟨y, rfl, hl⟩

/-- The text since the last entry, if none begins in it. -/
theorem Lexer.flush_tokenized {s : Lexer} (hnone : ∀ x y, s.tmpText = x ++ y → y ≠ [] →
    findToken toks (y ++ listText ts) = none) (hts : Tokenized toks ts) : Tokenized toks (s.flush ++ ts) := by
  unfold Lexer.flush
  split
  · exact hts
  · exact ⟨.inr hnone, hts⟩

theorem tokenizeLoop_tokenized (fuel : Nat) (s : Lexer) (rest : Bytes) (hfuel : rest.length ≤ fuel)
    (hnone : ∀ x y, s.tmpText = x ++ y → y ≠ [] → findToken toks (y ++ rest) = none) :
    Tokenized toks (tokenizeLoop toks fuel s rest) := by
  have hend {s : Lexer} (hnone : ∀ x y, s.tmpText = x ++ y → y ≠ [] → findToken toks (y ++ []) = none) :
      Tokenized toks s.flush := by
    rw [← List.append_nil s.flush]
    exact Lexer.flush_tokenized hnone trivial
  induction fuel generalizing s rest with
  | zero =>
    rw [List.length_eq_zero_iff.1 (Nat.le_zero.1 hfuel)] at hnone
    exact hend hnone
  | succ fuel ih =>
    cases rest with
    | nil => exact hend hnone
    | cons ch rest =>
      rw [tokenizeLoop]
      cases hfind : findToken toks (ch :: rest) with
      | none =>
        refine ih _ rest (Nat.le_of_succ_le_succ hfuel) fun x y hxy hy => ?_
        obtain ⟨y, rfl, hbefore⟩ := concat_eq_append hxy hy
        rw [List.append_assoc]
        by_cases hnil : y = []
        · rw [hnil]
          exact hfind
        · exact hnone x y hbefore hnil
      | some tok =>
        obtain ⟨r, hr, hdrop, hlen⟩ := findToken_split hfind hfuel
        have hbehind : listText (tokenizeLoop toks fuel (s.skip tok) r) = r := text_tokenizeLoop _ _ _ hlen
        have hrest : Tokenized toks (tokenizeLoop toks fuel (s.skip tok) r) := by
          refine ih (s.skip tok) r hlen fun x y hxy hy => ?_
          exact absurd (List.append_eq_nil_iff.1 hxy.symm).2 hy
        show Tokenized toks (s.flush ++ ⟨tok, s.l, s.c, s.i⟩ :: tokenizeLoop toks fuel _ _)
        rw [hdrop]
        refine Lexer.flush_tokenized ?_ ⟨.inl ?_, hrest⟩
        · rw [listText_cons, hbehind, hr]
          exact hnone
        · rw [hbehind, hr]
          exact hfind

theorem tokenize_tokenized (text : Bytes) : Tokenized sTokens (tokenize text) := by
  refine ⟨.inr fun x y hxy hy => absurd (List.append_eq_nil_iff.1 hxy.symm).2 hy, ?_⟩
  refine tokenizeLoop_tokenized _ _ _ (Nat.le_refl _) fun x y hxy hy => ?_
  exact absurd (List.append_eq_nil_iff.1 hxy.symm).2 hy

end Table

/-! ## Quotes, backslashes and braces -/

/-- A quote, a backslash or a brace. -/
def isMark (c : UInt8) : Bool := c == 34 || c == 39 || c == 92 || c == 123 || c == 125

/-- A mark in the token is the token, or it is a brace behind an `@`. -/
def Token.MarkCut (t : Token) : Prop :=
  ∀ c ∈ t.text, isMark c = true → t.text = [c] ∨ t.text = [64, c] ∧ (c = 123 ∨ c = 125)

section Marks

variable {ts : List Token} {c : UInt8}

set_option maxRecDepth 20000 in
theorem sTokens_marks : (sTokens.filter fun tok => tok.any isMark)
    = [[123], [125], [64, 123], [64, 125], [34], [39], [92]] := by
  rw [sTokens_ascii]
  decide

/-- A mark in an entry. -/
theorem sTokens_mark {tok : Bytes} (htok : tok ∈ sTokens) (hc : c ∈ tok) (hmark : isMark c = true) :
    tok = [c] ∨ tok = [64, c] ∧ (c = 123 ∨ c = 125) := by
  have hmem : tok ∈ sTokens.filter fun tok => tok.any isMark :=
    List.mem_filter.2 ⟨htok, List.any_eq_true.2 ⟨c, hc, hmark⟩⟩
  have hat : isMark 64 = false := rfl
  rw [sTokens_marks] at hmem
  simp only [List.mem_cons, List.not_mem_nil, or_false] at hmem
  rcases hmem with rfl | rfl | rfl | rfl | rfl | rfl | rfl
  · exact .inl (by rw [List.mem_singleton.1 hc])
  · exact .inl (by rw [List.mem_singleton.1 hc])
  · rcases List.mem_cons.1 hc with rfl | hc
    · cases hat.symm.trans hmark
    · rw [List.mem_singleton.1 hc]
      exact .inr ⟨rfl, .inl rfl⟩
  · rcases List.mem_cons.1 hc with rfl | hc
    · cases hat.symm.trans hmark
    · rw [List.mem_singleton.1 hc]
      exact .inr ⟨rfl, .inr rfl⟩
  · exact .inl (by rw [List.mem_singleton.1 hc])
  · exact .inl (by rw [List.mem_singleton.1 hc])
  · exact .inl (by rw [List.mem_singleton.1 hc])

/-- An entry begins at a mark that is not the last character. -/
theorem findToken_mark {rest : Bytes} (hmark : isMark c = true) (hrest : rest ≠ []) :
    findToken sTokens (c :: rest) ≠ none := by
  have hcases : c = 34 ∨ c = 39 ∨ c = 92 ∨ c = 123 ∨ c = 125 := by
    simpa [isMark, or_assoc] using hmark
  have hmem : [c] ∈ sTokens := by
    have hfilter : [c] ∈ sTokens.filter fun tok => tok.any isMark := by
      rw [sTokens_marks]
      rcases hcases with rfl | rfl | rfl | rfl | rfl <;> decide
    exact (List.mem_filter.1 hfilter).1
  have htok : isToken [c] (c :: rest) = true := by
    have hword : isAlphanum c = false := by
      rcases hcases with rfl | rfl | rfl | rfl | rfl <;> decide
    have hstar : [c] ≠ bytes "*@" := by
      have htwo : bytes "*@" = [42, 64] := by decide
      simp [htwo]
    have hlen : 1 < rest.length + 1 := Nat.lt_add_of_pos_left (List.length_pos_iff.2 hrest)
    simp [isToken, hword, hstar, hlen]
  obtain ⟨tok, hfind, -⟩ := findToken_longest hmem (List.cons_ne_nil c []) htok
  rw [hfind]
  exact fun h => nomatch h

/-- Where no entry begins, a mark is the last character of the template. -/
theorem mark_last {t : Token} {x y : Bytes} (hnone : ∀ x y, t.text = x ++ y → y ≠ [] →
    findToken sTokens (y ++ listText ts) = none) (hxy : t.text = x ++ c :: y) (hmark : isMark c = true) :
    y ++ listText ts = [] := by
  by_contra hrest
  exact findToken_mark hmark hrest (hnone x (c :: y) hxy (List.cons_ne_nil c y))

/-- In front of another token, a mark is cut off. -/
theorem Tokenized.head_markCut {t : Token} (h : Tokenized sTokens (t :: ts)) (hts : ts ≠ [])
    (hne : ∀ u ∈ ts, u.text ≠ []) : t.MarkCut := by
  intro c hc hmark
  rcases h.1 with hfind | hnone
  · exact sTokens_mark (findToken_mem hfind) hc hmark
  · obtain ⟨x, y, hxy⟩ := List.append_of_mem hc
    obtain ⟨u, us, rfl⟩ := List.exists_cons_of_ne_nil hts
    have hnil := (List.append_eq_nil_iff.1 (mark_last hnone hxy hmark)).2
    rw [listText_cons] at hnil
    exact absurd (List.append_eq_nil_iff.1 hnil).1 (hne u List.mem_cons_self)

/-- A mark is the last character of a token. -/
theorem Tokenized.head_mark {t : Token} {x y : Bytes} (h : Tokenized sTokens (t :: ts))
    (hxy : t.text = x ++ c :: y) (hmark : isMark c = true) : y = [] := by
  rcases h.1 with hfind | hnone
  · have hc : c ∈ t.text := hxy ▸ List.mem_append_right x List.mem_cons_self
    have hcut := sTokens_mark (findToken_mem hfind) hc hmark
    rw [hxy] at hcut
    rcases hcut with htext | ⟨htext, -⟩
    · have hlen := congrArg List.length htext
      simp only [List.length_append, List.length_cons, List.length_nil] at hlen
      exact List.length_eq_zero_iff.1 (by omega)
    · -- the `@` is in front of the mark
      rcases x with _ | ⟨d, x⟩
      · obtain ⟨rfl, -⟩ := List.cons.inj htext
        cases hmark
      · have hlen := congrArg List.length htext
        simp only [List.length_append, List.length_cons, List.length_nil] at hlen
        exact List.length_eq_zero_iff.1 (by omega)
  · exact (List.append_eq_nil_iff.1 (mark_last hnone hxy hmark)).1

/-- The tokens in front of another one. -/
theorem Tokenized.markCut {t : Token} {l r : List Token} (h : Tokenized sTokens (l ++ t :: r))
    (hne : ∀ u ∈ l ++ t :: r, u.text ≠ []) : ∀ u ∈ l, u.MarkCut := by
  induction l with
  | nil => exact fun u hu => by cases hu
  | cons v l ih =>
    intro u hu
    have hne' : ∀ u ∈ l ++ t :: r, u.text ≠ [] := fun u hu => hne u (List.mem_cons_of_mem v hu)
    rcases List.mem_cons.1 hu with rfl | hu
    · exact h.head_markCut (by simp) hne'
    · exact ih h.2 hne' u hu

/-- **A mark in the text of the tokens is a token**, if no `@` in front makes a brace another entry, or it
is the last character of the last token. -/
theorem Tokenized.cuts {A B : Bytes} (h : Tokenized sTokens ts) (hne : ∀ t ∈ ts, t.text ≠ [])
    (hmark : isMark c = true) (hat : (c = 123 ∨ c = 125) → 64 ∉ A) (htext : listText ts = A ++ c :: B) :
    (∃ l t r, ts = l ++ t :: r ∧ t.text = [c] ∧ listText l = A ∧ listText r = B) ∨
      B = [] ∧ ∃ l t, ts = l ++ [t] ∧ t.text ≠ [c] := by
  induction ts generalizing A with
  | nil => exact absurd (congrArg List.length htext) (by simp [listText])
  | cons t ts ih =>
    have hne' : ∀ u ∈ ts, u.text ≠ [] := fun u hu => hne u (List.mem_cons_of_mem t hu)
    rw [listText_cons] at htext
    -- the mark is behind the token
    have hbehind (a : Bytes) (hA : A = t.text ++ a) (hts : listText ts = a ++ c :: B) :
        (∃ l t' r, t :: ts = l ++ t' :: r ∧ t'.text = [c] ∧ listText l = A ∧ listText r = B) ∨
          B = [] ∧ ∃ l t', t :: ts = l ++ [t'] ∧ t'.text ≠ [c] := by
      have hat' : (c = 123 ∨ c = 125) → 64 ∉ a := by
        intro hc hmem
        exact hat hc (hA ▸ List.mem_append_right _ hmem)
      rcases ih h.2 hne' hat' hts with ⟨l, t', r, rfl, ht', hl, hr⟩ | ⟨hB, l, t', rfl, ht'⟩
      · exact .inl ⟨t :: l, t', r, rfl, ht', by rw [listText_cons, hl, hA], hr⟩
      · exact .inr ⟨hB, t :: l, t', rfl, ht'⟩
    rcases List.append_eq_append_iff.1 htext with ⟨a, hA, hts⟩ | ⟨a, ht, hB⟩
    · exact hbehind a hA hts
    · rcases a with _ | ⟨d, a⟩
      · exact hbehind [] (by rw [List.append_nil] at ht ⊢; exact ht.symm) hB.symm
      · obtain ⟨rfl, rfl⟩ := List.cons.inj hB
        obtain rfl : a = [] := h.head_mark ht hmark
        by_cases hts : ts = []
        · by_cases hA : A = []
          · exact .inl ⟨[], t, ts, rfl, by rw [ht, hA]; rfl, hA.symm, rfl⟩
          · refine .inr ⟨by rw [hts]; rfl, [], t, by rw [hts]; rfl, ?_⟩
            rw [ht]
            exact fun hone => hA (List.append_left_eq_self.1 hone)
        · have hc : c ∈ t.text := ht ▸ List.mem_append_right A List.mem_cons_self
          rcases h.head_markCut hts hne' c hc hmark with hone | ⟨htwo, hbrace⟩
          · rw [ht] at hone
            obtain rfl : A = [] := List.append_left_eq_self.1 hone
            exact .inl ⟨[], t, ts, rfl, ht, rfl, rfl⟩
          · rw [ht] at htwo
            obtain ⟨rfl, -⟩ := List.append_inj' (htwo.trans (show [64, c] = [64] ++ [c] from rfl)) rfl
            exact absurd List.mem_cons_self (hat hbrace)

end Marks

end Fanjet

end LibEvmvc
