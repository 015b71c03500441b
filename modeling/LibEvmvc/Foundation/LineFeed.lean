import LibEvmvc.Foundation.Lines

set_option autoImplicit false

/-! # Feeding a line reader

A reader that works on whole lines is given its input in pieces. `feed` takes the lines out of the
buffer one by one, until none is left or the reader has halted; what is left over stays in the
buffer. How the input is cut does not matter (`feed_feed`). -/

namespace LibEvmvc

/-- Cutting a text into lines loses nothing. -/
theorem unsplit_splitCrlf (b : Bytes) : unsplit (splitCrlf b).1 (splitCrlf b).2 = b := by
  induction b using splitCrlf.induct with
  | case1 => rfl
  | case2 rest ih =>
    rw [splitCrlf_crlf]
    simpa [unsplit, crlf] using ih
  | case3 c rest hne t hsplit ih =>
    rw [splitCrlf, hsplit]
    · rw [hsplit] at ih
      simpa [unsplit] using ih
    · exact hne
  | case4 c rest hne l ls t hsplit ih =>
    rw [splitCrlf, hsplit]
    · rw [hsplit] at ih
      simpa [unsplit] using ih
    · exact hne

/-- What follows the last line end holds none. -/
theorem noCrlf_splitCrlf (b : Bytes) : NoCrlf (splitCrlf b).2 := by
  by_contra hno
  obtain ⟨l, ls, hl⟩ := splitCrlf_first hno
  have hlines := splitCrlf_lines (noCrlf_of_mem_splitCrlf b) (splitCrlf b).2
  have hb : splitCrlf b = splitCrlf ((splitCrlf b).1.flatMap (· ++ crlf) ++ (splitCrlf b).2) :=
    congrArg splitCrlf (unsplit_splitCrlf b).symm
  have hlen := congrArg (fun x => x.1.length) (hb.trans hlines)
  simp only [List.length_append, hl, List.length_cons] at hlen
  omega

/-- More text continues what follows the last line. -/
theorem splitCrlf_append (b d : Bytes) :
    splitCrlf (b ++ d) = ((splitCrlf b).1 ++ (splitCrlf ((splitCrlf b).2 ++ d)).1,
      (splitCrlf ((splitCrlf b).2 ++ d)).2) := by
  have hlines := splitCrlf_lines (noCrlf_of_mem_splitCrlf b) ((splitCrlf b).2 ++ d)
  have hb : b ++ d = (splitCrlf b).1.flatMap (· ++ crlf) ++ ((splitCrlf b).2 ++ d) := by
    rw [← List.append_assoc]
    exact congrArg (· ++ d) (unsplit_splitCrlf b).symm
  rw [hb, hlines]

/-- A reader of lines: what a line does to its state, and when it stops reading. -/
structure LineReader (S : Type) where
  line : S → Bytes → S
  halted : S → Bool

namespace LineReader

variable {S : Type} (r : LineReader S)

/-- Read the given lines; what is left over is put together again. -/
def runLines : S → List Bytes → Bytes → S × Bytes
  | s, [], tail => (s, tail)
  | s, l :: ls, tail =>
    if r.halted s then (s, unsplit (l :: ls) tail) else runLines (r.line s l) ls tail

/-- Read the lines of a buffer. -/
def feed (s : S) (buf : Bytes) : S × Bytes := r.runLines s (splitCrlf buf).1 (splitCrlf buf).2

theorem runLines_halted {s : S} (h : r.halted s = true) (ls : List Bytes) (tail : Bytes) :
    r.runLines s ls tail = (s, unsplit ls tail) := by
  cases ls with
  | nil => rfl
  | cons l ls => rw [runLines, if_pos h]

theorem feed_halted {s : S} (h : r.halted s = true) (buf : Bytes) : r.feed s buf = (s, buf) := by
  unfold feed
  rw [r.runLines_halted h, unsplit_splitCrlf]

/-- A buffer without a line end is left alone. -/
theorem feed_noCrlf (s : S) {buf : Bytes} (h : NoCrlf buf) : r.feed s buf = (s, buf) := by
  unfold feed
  rw [splitCrlf_noCrlf h]
  rfl

/-- The first line of a buffer is read before the rest. -/
theorem feed_line {s : S} (hs : r.halted s = false) {l : Bytes} (hl : NoCrlf l) (rest : Bytes) :
    r.feed s (l ++ 13 :: 10 :: rest) = r.feed (r.line s l) rest := by
  unfold feed
  rw [splitCrlf_line hl, runLines, if_neg (by simp [hs])]

theorem runLines_append (d : Bytes) (s : S) (ls : List Bytes) (t : Bytes) :
    r.runLines s (ls ++ (splitCrlf (t ++ d)).1) (splitCrlf (t ++ d)).2
      = r.feed (r.runLines s ls t).1 ((r.runLines s ls t).2 ++ d) := by
  induction ls generalizing s with
  | nil => rfl
  | cons l ls ih =>
    by_cases hs : r.halted s = true
    · have hjoin : unsplit (l :: ls ++ (splitCrlf (t ++ d)).1) (splitCrlf (t ++ d)).2
          = unsplit (l :: ls) t ++ d := by
        rw [unsplit_append, unsplit_splitCrlf, unsplit_tail _ (t ++ d), unsplit_tail _ t,
          List.append_assoc]
      rw [r.runLines_halted hs, r.runLines_halted hs, r.feed_halted hs, hjoin]
    · rw [List.cons_append, runLines, if_neg hs, runLines, if_neg hs, ih]

/-- **Feeding a text in two pieces is feeding it in one.** -/
theorem feed_feed (s : S) (b d : Bytes) :
    r.feed (r.feed s b).1 ((r.feed s b).2 ++ d) = r.feed s (b ++ d) := by
  have hcut : r.feed s (b ++ d)
      = r.runLines s ((splitCrlf b).1 ++ (splitCrlf ((splitCrlf b).2 ++ d)).1)
        (splitCrlf ((splitCrlf b).2 ++ d)).2 := by
    unfold feed
    rw [splitCrlf_append b d]
  rw [hcut, r.runLines_append d s (splitCrlf b).1 (splitCrlf b).2]
  rfl

/-- Reading stops when the reader has halted or no line is left. -/
theorem feed_rest (s : S) (buf : Bytes) :
    r.halted (r.feed s buf).1 = true ∨ NoCrlf (r.feed s buf).2 := by
  have htail := noCrlf_splitCrlf buf
  unfold feed
  generalize (splitCrlf buf).1 = ls
  generalize (splitCrlf buf).2 = tail at htail
  induction ls generalizing s with
  | nil => exact .inr htail
  | cons l ls ih =>
    rw [runLines]
    split
    · next h => exact .inl h
    · exact ih _

/-- Nothing is left to be read after reading. -/
theorem feed_again (s : S) (buf : Bytes) :
    r.feed (r.feed s buf).1 (r.feed s buf).2 = r.feed s buf := by
  have hagain := r.feed_feed s buf []
  rw [List.append_nil, List.append_nil] at hagain
  exact hagain

/-- An invariant of the lines is one of the reader. -/
theorem feed_invariant {I : S → Prop} (hline : ∀ s l, I s → r.halted s = false → I (r.line s l))
    {s : S} (hs : I s) (buf : Bytes) : I (r.feed s buf).1 := by
  unfold feed
  generalize (splitCrlf buf).1 = ls
  generalize (splitCrlf buf).2 = tail
  induction ls generalizing s with
  | nil => exact hs
  | cons l ls ih =>
    rw [runLines]
    split
    · exact hs
    · next h => exact ih (hline s l hs (by simpa using h))

end LineReader

end LibEvmvc
