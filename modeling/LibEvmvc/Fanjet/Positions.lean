import LibEvmvc.Fanjet.Tokenizer

set_option autoImplicit false

/-! # Where the tokens say they are

The loop of the tokenizer counts the position, the line and the column it is at (`i`, `l`, `c`), and
keeps others for the text since the last entry (`tl`, `tc`, `ti`). An entry is given the former, and
those are right (`Lexer.At`). A text between entries is given the latter: `ti` and `tl` are set at the
end of the entry before it, and `tc` is never set at all, so its column is always zero. -/

namespace LibEvmvc

namespace Fanjet

/-- The position of a token that stands behind `before`: lines and columns count from one. -/
structure Token.PlacedAfter (t : Token) (before : Bytes) : Prop where
  pos : t.pos = before.length
  line : t.line = 1 + before.count 10
  col : t.col = 1 + (before.reverse.takeWhile (· ≠ 10)).length

/-- Each token of a list that begins behind `before` has the property, with what is before it. -/
def EachPlaced (P : Bytes → Token → Prop) : Bytes → List Token → Prop
  | _, [] => True
  | before, t :: ts => P before t ∧ EachPlaced P (before ++ t.text) ts

section Placed

variable {P : Bytes → Token → Prop}

theorem eachPlaced_append {before : Bytes} {ts ts' : List Token} :
    EachPlaced P before (ts ++ ts') ↔
      EachPlaced P before ts ∧ EachPlaced P (before ++ listText ts) ts' := by
  induction ts generalizing before with
  | nil => simp [EachPlaced, listText]
  | cons t ts ih => simp only [List.cons_append, EachPlaced, ih, listText_cons, List.append_assoc, and_assoc]

/-- The property of one token of the list. -/
theorem EachPlaced.at {before : Bytes} {pre post : List Token} {t : Token}
    (h : EachPlaced P before (pre ++ t :: post)) : P (before ++ listText pre) t :=
  (eachPlaced_append.1 h).2.1

end Placed

/-! ## The table and the ends of lines -/

set_option maxRecDepth 20000 in
/-- The end of a line is in no entry but the one of its own. -/
theorem sTokens_lf : (sTokens.filter fun tok => tok.contains 10) = [[10]] := by
  rw [sTokens_ascii]
  decide

theorem findToken_mem {toks : List Bytes} {rest tok : Bytes} (h : findToken toks rest = some tok) :
    tok ∈ toks := by
  have hfold (toks : List Bytes) (tval : Bytes) :
      toks.foldl (pickToken rest) tval ∈ tval :: toks := by
    induction toks generalizing tval with
    | nil => exact List.mem_cons_self
    | cons t toks ih =>
      rcases List.mem_cons.1 (ih (pickToken rest tval t)) with heq | hmem
      · rw [List.foldl_cons, heq]
        unfold pickToken
        split
        · exact List.mem_cons_of_mem _ List.mem_cons_self
        · exact List.mem_cons_self
      · exact List.mem_cons_of_mem _ (List.mem_cons_of_mem _ hmem)
  obtain ⟨hne, -⟩ := findToken_some h
  unfold findToken at h
  simp only at h
  split at h
  · cases h
  · cases h
    exact (List.mem_cons.1 (hfold toks [])).resolve_left hne

/-- The end of a line is found unless it is the last character. -/
theorem findToken_lf (c : UInt8) (rest : Bytes) : findToken sTokens (10 :: c :: rest) = some [10] := by
  have hhead : (sTokens.filter fun tok => tok.head? = some 10) = [[10]] := by
    have hsub : ∀ tok ∈ sTokens, (tok.head? = some 10 : Bool)
        = ((tok.head? = some 10 : Bool) && (tok.contains 10 : Bool)) := by
      intro tok _
      cases tok with
      | nil => rfl
      | cons d tok =>
        by_cases hd : d = 10
        · rw [hd, List.contains_cons]
          rfl
        · simp [hd]
    rw [List.filter_congr hsub, ← List.filter_filter, sTokens_lf]
    rfl
  rw [findToken_head, hhead]
  rfl

/-- An entry ends a line, or there is no end of a line in it. -/
theorem findToken_noLf {rest tok : Bytes} (h : findToken sTokens rest = some tok) (hlf : tok ≠ [10]) :
    10 ∉ tok := by
  intro hmem
  have hfilter : tok ∈ sTokens.filter fun tok => tok.contains 10 :=
    List.mem_filter.2 ⟨findToken_mem h, List.contains_iff_mem.2 hmem⟩
  rw [sTokens_lf] at hfilter
  exact hlf (List.mem_singleton.1 hfilter)

/-! ## The loop -/

/-- The tokenizer is behind `before`. -/
structure Lexer.At (s : Lexer) (before : Bytes) : Prop where
  i : s.i = before.length
  l : s.l = 1 + before.count 10
  c : s.c = 1 + (before.reverse.takeWhile (· ≠ 10)).length

theorem column_append {tok : Bytes} (before : Bytes) (hlf : 10 ∉ tok) :
    ((before ++ tok).reverse.takeWhile (· ≠ 10)).length
      = (before.reverse.takeWhile (· ≠ 10)).length + tok.length := by
  have hall : ∀ c ∈ tok.reverse, decide (c ≠ 10) = true := by
    intro c hc
    rw [decide_eq_true_iff]
    rintro rfl
    exact hlf (List.mem_reverse.1 hc)
  rw [List.reverse_append, List.takeWhile_append_of_pos hall, List.length_append, List.length_reverse,
    Nat.add_comm]

/-- A character that ends no line. -/
theorem Lexer.At.char {s : Lexer} {before : Bytes} (h : s.At before) {ch : UInt8} (hch : ch ≠ 10) :
    Lexer.At { s with i := s.i + 1, c := s.c + 1, tmpText := s.tmpText ++ [ch] } (before ++ [ch]) where
  i := by rw [h.i, List.length_append, List.length_singleton]
  l := by rw [h.l, List.count_append, List.count_singleton, if_neg (by simpa using hch), Nat.add_zero]
  c := by
    have hlf : 10 ∉ [ch] := fun hmem => hch (List.mem_singleton.1 hmem).symm
    rw [h.c, column_append before hlf]
    rfl

/-- An entry. -/
theorem Lexer.At.skip {s : Lexer} {before rest tok : Bytes} (h : s.At before)
    (hfind : findToken sTokens rest = some tok) : (s.skip tok).At (before ++ tok) := by
  have hpos : 0 < tok.length := List.length_pos_iff.2 (findToken_some hfind).1
  have hlf : bytes "\n" = [10] := by decide
  refine ⟨?_, ?_, ?_⟩
  · show s.i + tok.length - 1 + 1 = _
    rw [h.i, List.length_append]
    omega
  · show (if tok = bytes "\n" then s.l + 1 else s.l) = _
    rw [hlf, List.count_append, h.l]
    split
    · next heq => rw [heq, List.count_singleton_self, Nat.add_assoc]
    · next hne => rw [List.count_eq_zero.2 (findToken_noLf hfind hne), Nat.add_zero]
  · show (if tok = bytes "\n" then 1 else s.c + tok.length) = _
    rw [hlf]
    split
    · next heq =>
      rw [heq, List.reverse_append]
      rfl
    · next hne => rw [h.c, column_append before (findToken_noLf hfind hne), Nat.add_assoc]

/-- A token of a template is placed right exactly if it is an entry. -/
def PlacedIfEntry (text : Bytes) (before : Bytes) (t : Token) : Prop :=
  t.PlacedAfter before ↔ findToken sTokens (text.drop before.length) = some t.text

/-- A text that no entry begins with is given the column zero. -/
theorem Lexer.flush_placed {s : Lexer} {text before rest : Bytes} (htext : text = before ++ (s.tmpText ++ rest))
    (htc : s.tc = 0) (hnone : s.tmpText ≠ [] → findToken sTokens (s.tmpText ++ rest) = none) :
    EachPlaced (PlacedIfEntry text) before s.flush := by
  unfold Lexer.flush
  split
  · trivial
  · next hne =>
    refine ⟨⟨fun hplaced => ?_, fun hfind => ?_⟩, trivial⟩
    · have hcol : s.tc = 1 + _ := hplaced.col
      omega
    · rw [htext, List.drop_left, hnone hne] at hfind
      cases hfind

/-- The tokens of the loop, from `before` on. The text since the last entry is not an entry's, and the
    counters are right as long as something follows. -/
theorem tokenizeLoop_placed {text : Bytes} (fuel : Nat) (s : Lexer) (before rest : Bytes)
    (htext : text = before ++ (s.tmpText ++ rest)) (hfuel : rest.length ≤ fuel) (htc : s.tc = 0)
    (hat : rest ≠ [] → s.At (before ++ s.tmpText))
    (hnone : s.tmpText ≠ [] → findToken sTokens (s.tmpText ++ rest) = none) :
    EachPlaced (PlacedIfEntry text) before (tokenizeLoop sTokens fuel s rest) := by
  induction fuel generalizing s before rest with
  | zero => exact s.flush_placed htext htc hnone
  | succ fuel ih =>
    cases rest with
    | nil => exact s.flush_placed htext htc hnone
    | cons ch rest =>
      have hhere := hat (List.cons_ne_nil ch rest)
      rw [tokenizeLoop]
      cases hfind : findToken sTokens (ch :: rest) with
      | none =>
        refine ih _ before rest ?_ (Nat.le_of_succ_le_succ hfuel) htc ?_ ?_
        · rw [htext]
          show _ = before ++ (s.tmpText ++ [ch] ++ rest)
          rw [List.append_assoc]
          rfl
        · intro hrest
          obtain ⟨d, rest, rfl⟩ := List.exists_cons_of_ne_nil hrest
          have hch : ch ≠ 10 := by
            rintro rfl
            rw [findToken_lf] at hfind
            cases hfind
          rw [← List.append_assoc]
          exact hhere.char hch
        · intro _
          show findToken sTokens (s.tmpText ++ [ch] ++ rest) = none
          rw [List.append_assoc]
          by_cases htmp : s.tmpText = []
          · rw [htmp]
            exact hfind
          · exact hnone htmp
      | some tok =>
        obtain ⟨r, hr, hdrop, hlen⟩ := findToken_split hfind hfuel
        have htext' : text = before ++ s.tmpText ++ (ch :: rest) := by rw [htext, List.append_assoc]
        show EachPlaced _ before (s.flush ++ ⟨tok, s.l, s.c, s.i⟩ :: tokenizeLoop sTokens fuel _ _)
        rw [eachPlaced_append, s.text_flush, hdrop]
        refine ⟨s.flush_placed htext htc hnone, ⟨fun _ => ?_, fun _ => ⟨hhere.i, hhere.l, hhere.c⟩⟩, ?_⟩
        · rw [htext', List.drop_left]
          exact hfind
        · refine ih (s.skip tok) _ r ?_ hlen htc ?_ ?_
          · rw [htext', ← hr, List.append_assoc (before ++ s.tmpText)]
            rfl
          · intro _
            rw [show (s.skip tok).tmpText = [] from rfl, List.append_nil]
            exact hhere.skip hfind
          · exact fun hnil => absurd rfl hnil

/-- The tokens of a template behind the first one. -/
theorem tokenize_placed (text : Bytes) :
    EachPlaced (PlacedIfEntry text) [] (tokenizeLoop sTokens text.length ⟨0, 1, 1, [], 0, 0, 0⟩ text) :=
  tokenizeLoop_placed _ _ [] text rfl (Nat.le_refl _) rfl (fun _ => ⟨rfl, rfl, rfl⟩)
    fun hnil => absurd rfl hnil

/-! ## Results -/

/-- **The tokenizer loses nothing: the texts of the tokens are the template, and only the first token has
no text.** -/
theorem tokenize_lossless (text : Bytes) :
    listText (tokenize text) = text ∧ ∃ ts, tokenize text = rootToken :: ts ∧ ∀ t ∈ ts, t.text ≠ [] :=
  ⟨text_tokenize text, _, rfl, tokenize_ne text⟩

/-- **A token is placed where it stands in the template exactly if it is an entry of the table. So all
tokens are only in an empty template: any other one ends with a text that is not an entry.** -/
theorem tokenize_placed_iff (text : Bytes) :
    ((∀ pre t post, tokenize text = rootToken :: (pre ++ t :: post) → t.PlacedAfter (listText pre))
      ↔ text = []) ∧
    ∀ pre t post, tokenize text = rootToken :: (pre ++ t :: post) →
      (t.PlacedAfter (listText pre) ↔
        findToken sTokens (text.drop (listText pre).length) = some t.text) := by
  have hplaced (pre : List Token) (t : Token) (post : List Token)
      (h : tokenize text = rootToken :: (pre ++ t :: post)) :
      t.PlacedAfter (listText pre) ↔
        findToken sTokens (text.drop (listText pre).length) = some t.text := by
    have heach := tokenize_placed text
    rw [(List.cons.inj h).2] at heach
    exact heach.at
  refine ⟨⟨fun hall => ?_, ?_⟩, hplaced⟩
  · by_contra hne
    -- the last token goes up to the end of the template, where there is no entry
    obtain ⟨ts, hts⟩ : ∃ ts, tokenize text = rootToken :: ts := ⟨_, rfl⟩
    have htext := text_tokenize text
    rw [hts, listText_cons] at htext
    have hnil : ts ≠ [] := by
      rintro rfl
      exact hne htext.symm
    obtain ⟨pre, t, rfl⟩ : ∃ pre t, ts = pre ++ [t] :=
      ⟨ts.dropLast, ts.getLast hnil, (List.dropLast_concat_getLast hnil).symm⟩
    have hlast : text = listText pre ++ t.text := by
      rw [← htext, listText_append, listText_cons]
      exact congrArg (listText pre ++ ·) (List.append_nil _)
    have hfind := (hplaced pre t [] hts).1 (hall pre t [] hts)
    rw [hlast, List.drop_left] at hfind
    exact absurd (isToken_shorter (findToken_some hfind).2) (Nat.lt_irrefl _)
  · rintro rfl pre t post h
    cases pre with
    | nil => cases (List.cons.inj h).2
    | cons => cases (List.cons.inj h).2

/-- The template `z` is one token, in line 0 and column 0. -/
theorem tokenize_misplaced :
    ¬ ∀ text pre t post, tokenize text = rootToken :: (pre ++ t :: post) → t.PlacedAfter (listText pre) := by
  intro hall
  have htok : tokenize (bytes "z") = rootToken :: ([] ++ ⟨bytes "z", 0, 0, 0⟩ :: []) := by
    have hbytes : bytes "z" = [122] := by decide
    rw [hbytes, tokenize, List.length_singleton, tokenizeLoop, findToken_last]
    rfl
  have hline : 0 = 1 := (hall (bytes "z") [] ⟨bytes "z", 0, 0, 0⟩ [] htok).line
  cases hline

end Fanjet

end LibEvmvc
