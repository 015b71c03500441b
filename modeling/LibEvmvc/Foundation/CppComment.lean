import LibEvmvc.Foundation.Brackets
import LibEvmvc.Foundation.Replace

set_option autoImplicit false

/-! # Comments of C++

A text that is only white space and comments has no words and no signs, and ends outside of a comment. Lines
are spliced before comments are recognised: a backslash at the end of a line lets a line comment go on. A text
in a block comment may end it and open the next one, as long as it ends in one. -/

namespace LibEvmvc

namespace Brackets

/-! ## Texts of comments -/

/-- The text with its lines spliced: a backslash at the end of a line goes away with the end. -/
def spliced (w : Bytes) : Bytes := replaceAll [92, 10] [] w

/-- As C++, the text is white space and complete comments. -/
def CommentsOnly (w : Bytes) : Prop := Lex.read (.code []) (spliced w) = ([], .code [])

instance (w : Bytes) : Decidable (CommentsOnly w) :=
  inferInstanceAs (Decidable (Lex.read (.code []) (spliced w) = ([], .code [])))

/-- Read from inside a block comment, the text is white space outside of comments, and it ends inside a block
comment. -/
def StaysInComment (w : Bytes) : Prop :=
  Lex.read .block (spliced w) = ([], .block) ∨ Lex.read .block (spliced w) = ([], .blockStar)

section Cpp

variable {w : Bytes}

/-- A text of C++ that begins with a character of code. -/
theorem not_commentsOnly_cons {c : UInt8} (hslash : c ≠ 92) (hc : ((Lex.code []).step c).1 ≠ []) (w : Bytes) :
    ¬ CommentsOnly (c :: w) := by
  intro h
  have hkept : spliced (c :: w) = c :: spliced w := by
    refine replaceAll_cons fun hpre => hslash ?_
    exact (List.cons_prefix_cons.1 hpre).1.symm
  unfold CommentsOnly at h
  rw [hkept, Lex.read, Prod.mk.injEq] at h
  exact hc (List.append_eq_nil_iff.1 h.1).1

/-- Inside a literal. -/
def Lex.inLiteral : Lex → Bool
  | .literal _ => true
  | .escape _ => true
  | _ => false

/-- A literal begins with a sign. -/
theorem read_noLiteral {s s' : Lex} (hs : s.inLiteral = false) (h : s.read w = ([], s')) :
    s'.inLiteral = false := by
  induction w generalizing s with
  | nil =>
    cases h
    exact hs
  | cons c w ih =>
    rw [Lex.read, Prod.mk.injEq, List.append_eq_nil_iff] at h
    obtain ⟨⟨hitems, hitems'⟩, hend⟩ := h
    refine ih ?_ (Prod.ext hitems' hend)
    have hcode (v : Bytes) (hv : (codeStep v c).1 = []) : (codeStep v c).2.inLiteral = false := by
      unfold codeStep at hv ⊢
      split
      · rfl
      · next hident =>
        rw [if_neg hident] at hv
        split
        · rfl
        · next hspace =>
          rw [if_neg hspace] at hv
          split
          · rfl
          · next hslash =>
            rw [if_neg hslash] at hv
            split
            · next hquote =>
              rw [if_pos hquote] at hv
              exact absurd (List.append_eq_nil_iff.1 hv).2 (List.cons_ne_nil _ _)
            · rfl
    cases s with
    | code v => exact hcode v hitems
    | slash =>
      simp only [Lex.step] at hitems ⊢
      split
      · rfl
      · next hc =>
        rw [if_neg hc] at hitems
        split
        · rfl
        · next hc' =>
          rw [if_neg hc'] at hitems
          exact absurd hitems (List.cons_ne_nil _ _)
    | literal quote => cases hs
    | escape quote => cases hs
    | line =>
      simp only [Lex.step]
      split <;> rfl
    | block =>
      simp only [Lex.step]
      split <;> rfl
    | blockStar =>
      simp only [Lex.step]
      split
      · rfl
      · split <;> rfl

/-- A text of C++ that ends with a character no comment ends with. -/
theorem not_commentsOnly_concat {c : UInt8} (hline : c ≠ 10)
    (hc : ∀ s : Lex, s.inLiteral = false → s.step c ≠ ([], .code [])) (w : Bytes) :
    ¬ CommentsOnly (w ++ [c]) := by
  intro h
  have hkept : spliced (w ++ [c]) = spliced w ++ [c] := by
    have hsingle : replaceAll [92, 10] [] [c] = [c] := replaceAll_missing (a := 10) (by decide) (by simp [hline.symm])
    have hcut : w.getLast? = some 92 → [c].head? ≠ some 10 := fun _ hhead => hline (Option.some.inj hhead)
    rw [spliced, replaceAll_pair_append hcut, hsingle]
    rfl
  unfold CommentsOnly at h
  rw [hkept, Lex.read_append] at h
  obtain ⟨items, s, hread⟩ : ∃ items s, Lex.read (.code []) (spliced w) = (items, s) := ⟨_, _, rfl⟩
  rw [hread] at h
  obtain ⟨hitems, hend⟩ := Prod.mk.inj h
  rw [List.append_eq_nil_iff, Lex.read, Lex.read, List.append_nil] at hitems
  obtain ⟨rfl, hstep⟩ := hitems
  rw [Lex.read, Lex.read] at hend
  exact hc s (read_noLiteral rfl hread) (Prod.ext hstep hend)

/-- A block comment. -/
theorem commentsOnly_block (y : Bytes) :
    CommentsOnly ([47, 42] ++ (y ++ [42, 47])) ↔ StaysInComment y := by
  have hopen : replaceAll [92, 10] [] [47, 42] = ([47, 42] : Bytes) := by decide
  have hclose : replaceAll [92, 10] [] [42, 47] = ([42, 47] : Bytes) := by decide
  have hkept : spliced ([47, 42] ++ (y ++ [42, 47])) = [47, 42] ++ (spliced y ++ [42, 47]) := by
    unfold spliced
    rw [replaceAll_pair_append fun hlast => absurd hlast (by decide),
      replaceAll_pair_append fun _ => by decide, hopen, hclose]
  have hbegin : Lex.read (.code []) [47, 42] = ([], .block) := by decide
  unfold CommentsOnly StaysInComment
  rw [hkept, Lex.read_append, hbegin, Lex.read_append]
  obtain ⟨items, s, hread⟩ : ∃ items s, Lex.read .block (spliced y) = (items, s) := ⟨_, _, rfl⟩
  rw [hread]
  constructor
  · intro h
    rw [Prod.mk.injEq, List.nil_append, List.append_eq_nil_iff] at h
    obtain ⟨⟨rfl, hitems⟩, hend⟩ := h
    have hs := read_noLiteral rfl hread
    cases s with
    | code v =>
      have hstep : Lex.step 42 (.code v) = (wordItem v ++ [.sign 42], .code []) := rfl
      rw [Lex.read, hstep] at hitems
      exact absurd (List.append_eq_nil_iff.1 (List.append_eq_nil_iff.1 hitems).1).2 (List.cons_ne_nil _ _)
    | slash => exact absurd hend (by decide)
    | literal quote => cases hs
    | escape quote => cases hs
    | line => exact absurd hend (by decide)
    | block => exact .inl rfl
    | blockStar => exact .inr rfl
  · rintro (h | h)
    · cases h
      decide
    · cases h
      decide

/-- A line comment. -/
theorem commentsOnly_line {x : Bytes} (hx : 10 ∉ x) :
    CommentsOnly ([47, 47] ++ (x ++ [10])) ↔ x.getLast? ≠ some 92 := by
  have hbegin : Lex.read (.code []) [47, 47] = ([], .line) := by decide
  have hkept {u : Bytes} (hu : 10 ∉ u) : replaceAll [92, 10] [] ([47, 47] ++ u) = [47, 47] ++ u := by
    refine replaceAll_missing (a := 10) (by decide) ?_
    rw [List.mem_append, not_or]
    exact ⟨by decide, hu⟩
  unfold CommentsOnly spliced
  constructor
  · -- the end of the line is spliced away
    intro h hlast
    obtain ⟨u, rfl⟩ := List.getLast?_eq_some_iff.1 hlast
    have hu : 10 ∉ u := fun hmem => hx (List.mem_append_left _ hmem)
    have hend : replaceAll [92, 10] [] [92, 10] = ([] : Bytes) := by decide
    have hsplit : [47, 47] ++ (u ++ [92] ++ [10]) = ([47, 47] ++ u) ++ ([92, 10] : Bytes) := by simp
    rw [hsplit, replaceAll_pair_append fun _ hhead => (by cases hhead), hend, List.append_nil, hkept hu,
      Lex.read_append, hbegin, read_line hu] at h
    cases h
  · intro hlast
    have hend : replaceAll [92, 10] [] [10] = ([10] : Bytes) := by decide
    have hcut : ([47, 47] ++ x).getLast? = some 92 → ([10] : Bytes).head? ≠ some 10 := by
      intro hlast'
      rw [List.getLast?_append, Option.or_eq_some_iff] at hlast'
      rcases hlast' with hlast' | ⟨-, hlast'⟩
      · exact absurd hlast' hlast
      · exact absurd hlast' (by decide)
    rw [← List.append_assoc, replaceAll_pair_append hcut, hend, hkept hx, Lex.read_append, Lex.read_append,
      hbegin, read_line hx]
    rfl

end Cpp

end Brackets

end LibEvmvc
