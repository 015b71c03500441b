import Mathlib.Data.List.Basic

set_option autoImplicit false

/-! # Replacing the words of a text

A text is cut into words, the longest runs of characters of a kind, and the characters between them. A
replacement of words goes over the text with the word so far in hand (`replaceWords`). It is the same to
replace the pieces of the text one by one (`replaceWords_eq_flatMap`), and a text can be cut at each
character that is in no word (`replaceWords_sep`). -/

namespace LibEvmvc

variable {A : Type} (isWord : A → Bool)

/-- A piece of a text: a word, or a character between words. -/
structure Piece (A : Type) where
  text : List A
  isWord : Bool

/-- The word in hand as a piece. -/
def wordPiece (wrd : List A) : List (Piece A) := if wrd.isEmpty then [] else [⟨wrd, true⟩]

/-- The pieces of a text behind the word in hand. -/
def piecesLoop : List A → List A → List (Piece A)
  | wrd, [] => wordPiece wrd
  | wrd, c :: cs =>
    if isWord c then piecesLoop (wrd ++ [c]) cs
    else wordPiece wrd ++ ⟨[c], false⟩ :: piecesLoop [] cs

/-- The pieces of a text. -/
def pieces (s : List A) : List (Piece A) := piecesLoop isWord [] s

/-- The words of a text. -/
def words (s : List A) : List (List A) := ((pieces isWord s).filter Piece.isWord).map Piece.text

/-- The loop over the characters: a word is replaced when the character behind it is seen. -/
def replaceWordsLoop (r : List A → List A) : List A → List A → List A
  | wrd, [] => if wrd.isEmpty then [] else r wrd
  | wrd, c :: cs =>
    if isWord c then replaceWordsLoop r (wrd ++ [c]) cs
    else (if wrd.isEmpty then [] else r wrd) ++ c :: replaceWordsLoop r [] cs

/-- The text with each word replaced. -/
def replaceWords (r : List A → List A) (s : List A) : List A := replaceWordsLoop isWord r [] s

/-- A piece with its word replaced. -/
def Piece.replace (r : List A → List A) (p : Piece A) : List A := if p.isWord then r p.text else p.text

variable {isWord} {r : List A → List A}

section Pieces

theorem replaceWordsLoop_eq (wrd s : List A) :
    replaceWordsLoop isWord r wrd s = (piecesLoop isWord wrd s).flatMap (Piece.replace r) := by
  have hword (wrd : List A) :
      (if wrd.isEmpty then [] else r wrd) = (wordPiece wrd).flatMap (Piece.replace r) := by
    unfold wordPiece
    cases wrd with
    | nil => rfl
    | cons c wrd => exact (List.append_nil _).symm
  induction s generalizing wrd with
  | nil => exact hword wrd
  | cons c s ih =>
    rw [replaceWordsLoop, piecesLoop]
    split
    · exact ih _
    · rw [List.flatMap_append, List.flatMap_cons, hword, ih]
      rfl

/-- **The pieces are replaced one by one.** -/
theorem replaceWords_eq_flatMap (s : List A) :
    replaceWords isWord r s = (pieces isWord s).flatMap (Piece.replace r) :=
  replaceWordsLoop_eq [] s

theorem flatMap_piecesLoop (wrd s : List A) : (piecesLoop isWord wrd s).flatMap Piece.text = wrd ++ s := by
  have hword (wrd : List A) : (wordPiece wrd).flatMap Piece.text = wrd := by
    unfold wordPiece
    cases wrd with
    | nil => rfl
    | cons c wrd => exact List.append_nil _
  induction s generalizing wrd with
  | nil => rw [piecesLoop, hword, List.append_nil]
  | cons c s ih =>
    rw [piecesLoop]
    split
    · rw [ih, List.append_assoc]
      rfl
    · rw [List.flatMap_append, List.flatMap_cons, hword, ih]
      rfl

variable (isWord) in
/-- The pieces are the text. -/
theorem flatMap_pieces (s : List A) : (pieces isWord s).flatMap Piece.text = s := flatMap_piecesLoop [] s

theorem piecesLoop_sep (wrd x y : List A) {c : A} (hc : isWord c = false) :
    piecesLoop isWord wrd (x ++ c :: y) = piecesLoop isWord wrd x ++ ⟨[c], false⟩ :: piecesLoop isWord [] y := by
  induction x generalizing wrd with
  | nil =>
    have hnot : ¬ isWord c = true := by rw [hc]; exact Bool.false_ne_true
    rw [List.nil_append]
    conv_lhs => rw [piecesLoop, if_neg hnot]
    rfl
  | cons d x ih =>
    rw [List.cons_append, piecesLoop, piecesLoop]
    split
    · exact ih _
    · rw [ih, List.append_assoc]
      rfl

/-- A text can be cut at a character between words. -/
theorem pieces_sep (x y : List A) {c : A} (hc : isWord c = false) :
    pieces isWord (x ++ c :: y) = pieces isWord x ++ ⟨[c], false⟩ :: pieces isWord y :=
  piecesLoop_sep [] x y hc

theorem replaceWords_sep (x y : List A) {c : A} (hc : isWord c = false) :
    replaceWords isWord r (x ++ c :: y) = replaceWords isWord r x ++ c :: replaceWords isWord r y := by
  simp only [replaceWords_eq_flatMap, pieces_sep x y hc, List.flatMap_append, List.flatMap_cons]
  rfl

theorem piecesLoop_word (wrd : List A) {w : List A} (hw : ∀ c ∈ w, isWord c = true) (s : List A) :
    piecesLoop isWord wrd (w ++ s) = piecesLoop isWord (wrd ++ w) s := by
  induction w generalizing wrd with
  | nil => rw [List.append_nil, List.nil_append]
  | cons c w ih =>
    rw [List.forall_mem_cons] at hw
    rw [List.cons_append, piecesLoop, if_pos hw.1, ih _ hw.2, List.append_assoc]
    rfl

/-- A text that is one word. -/
theorem pieces_word {w : List A} (hw : ∀ c ∈ w, isWord c = true) (hne : w ≠ []) :
    pieces isWord w = [⟨w, true⟩] := by
  have hone := piecesLoop_word [] hw []
  rw [List.append_nil, List.nil_append] at hone
  rw [pieces, hone, piecesLoop, wordPiece, if_neg]
  rw [List.isEmpty_iff]
  exact hne

theorem replaceWords_word {w : List A} (hw : ∀ c ∈ w, isWord c = true) (hne : w ≠ []) :
    replaceWords isWord r w = r w := by
  rw [replaceWords_eq_flatMap, pieces_word hw hne]
  exact List.append_nil _

@[simp] theorem replaceWords_nil : replaceWords isWord r [] = [] := rfl

/-- A word is not empty, and is made of the characters words are made of. -/
theorem mem_words {s w : List A} (h : w ∈ words isWord s) : w ≠ [] ∧ ∀ c ∈ w, isWord c = true := by
  have hloop (wrd s : List A) (hwrd : ∀ c ∈ wrd, isWord c = true) :
      ∀ p ∈ piecesLoop isWord wrd s, p.isWord = true → p.text ≠ [] ∧ ∀ c ∈ p.text, isWord c = true := by
    have hword {wrd : List A} (hwrd : ∀ c ∈ wrd, isWord c = true) :
        ∀ p ∈ wordPiece wrd, p.isWord = true → p.text ≠ [] ∧ ∀ c ∈ p.text, isWord c = true := by
      intro p hp _
      unfold wordPiece at hp
      split at hp
      · cases hp
      · next hne =>
        rw [List.mem_singleton.1 hp]
        exact ⟨fun hnil => hne (List.isEmpty_iff.2 hnil), hwrd⟩
    induction s generalizing wrd with
    | nil => exact hword hwrd
    | cons c s ih =>
      intro p hp hpw
      rw [piecesLoop] at hp
      split at hp
      · next hc =>
        refine ih _ ?_ p hp hpw
        intro d hd
        rcases List.mem_append.1 hd with hold | hnew
        · exact hwrd d hold
        · rw [List.mem_singleton.1 hnew]
          exact hc
      · rcases List.mem_append.1 hp with hold | hnew
        · exact hword hwrd p hold hpw
        · rcases List.mem_cons.1 hnew with rfl | hrest
          · cases hpw
          · exact ih [] (by simp) p hrest hpw
  obtain ⟨p, hp, rfl⟩ := List.mem_map.1 h
  obtain ⟨hp, hpw⟩ := List.mem_filter.1 hp
  exact hloop [] s (by simp) p hp hpw

theorem words_sep (x y : List A) {c : A} (hc : isWord c = false) :
    words isWord (x ++ c :: y) = words isWord x ++ words isWord y := by
  unfold words
  rw [pieces_sep x y hc, List.filter_append, List.filter_cons, List.map_append]
  rfl

theorem mem_of_mem_words {s w : List A} (h : w ∈ words isWord s) {c : A} (hc : c ∈ w) : c ∈ s := by
  obtain ⟨p, hp, rfl⟩ := List.mem_map.1 h
  rw [← flatMap_pieces isWord s]
  exact List.mem_flatMap.2 ⟨p, (List.mem_filter.1 hp).1, hc⟩

/-- Replacing words by themselves changes nothing. -/
theorem replaceWords_congr {r r' : List A → List A} {s : List A} (h : ∀ w ∈ words isWord s, r w = r' w) :
    replaceWords isWord r s = replaceWords isWord r' s := by
  rw [replaceWords_eq_flatMap, replaceWords_eq_flatMap]
  refine List.flatMap_congr fun p hp => ?_
  unfold Piece.replace
  split
  · next hw => exact h p.text (List.mem_map.2 ⟨p, List.mem_filter.2 ⟨hp, hw⟩, rfl⟩)
  · rfl

theorem replaceWords_id {s : List A} (h : ∀ w ∈ words isWord s, r w = w) : replaceWords isWord r s = s := by
  have hself : replaceWords isWord r s = replaceWords isWord id s := replaceWords_congr h
  rw [hself, replaceWords_eq_flatMap]
  have hid : Piece.replace (id : List A → List A) = Piece.text := by
    funext p
    unfold Piece.replace
    split <;> rfl
  rw [hid, flatMap_pieces]

/-- The words of the text with each word replaced. -/
theorem words_replaceWords (s : List A) :
    words isWord (replaceWords isWord r s) = (words isWord s).flatMap fun w => words isWord (r w) := by
  have hword (wrd : List A) : words isWord (if wrd.isEmpty then [] else r wrd)
      = (((wordPiece wrd).filter Piece.isWord).map Piece.text).flatMap fun w => words isWord (r w) := by
    unfold wordPiece
    cases wrd with
    | nil => rfl
    | cons c wrd => exact (List.append_nil _).symm
  have hloop (wrd s : List A) : words isWord (replaceWordsLoop isWord r wrd s)
      = (((piecesLoop isWord wrd s).filter Piece.isWord).map Piece.text).flatMap fun w => words isWord (r w) := by
    induction s generalizing wrd with
    | nil => exact hword wrd
    | cons c s ih =>
      rw [replaceWordsLoop, piecesLoop]
      split
      · exact ih _
      · next hc =>
        rw [words_sep _ _ (Bool.eq_false_iff.2 hc), hword, ih, List.filter_append, List.map_append,
          List.flatMap_append, List.filter_cons]
        rfl
  exact hloop [] s

end Pieces

/-! ## Seams -/

variable (isWord) in
/-- No word goes on from one text into the other. -/
def Seam (a b : List A) : Prop := a.getLast?.any isWord = false ∨ b.head?.any isWord = false

section Seams

variable {a b c : List A}

/-- Two texts with a seam between them are replaced one by one. -/
theorem replaceWords_append (h : Seam isWord a b) :
    replaceWords isWord r (a ++ b) = replaceWords isWord r a ++ replaceWords isWord r b := by
  rcases h with h | h
  · rcases List.eq_nil_or_concat a with rfl | ⟨a, d, rfl⟩
    · rfl
    · rw [List.concat_eq_append] at h ⊢
      rw [List.getLast?_concat] at h
      rw [List.append_assoc, List.singleton_append, replaceWords_sep a b h, replaceWords_sep a [] h,
        replaceWords_nil, List.append_assoc]
      rfl
  · cases b with
    | nil => rw [List.append_nil, replaceWords_nil, List.append_nil]
    | cons d b =>
      have hcons : replaceWords isWord r (d :: b) = d :: replaceWords isWord r b := replaceWords_sep [] b h
      rw [replaceWords_sep a b h, hcons]

/-- A seam is still one behind less text. -/
theorem Seam.of_append (h : Seam isWord (a ++ b) c) : Seam isWord b c := by
  rcases h with h | h
  · refine .inl ?_
    cases hlast : b.getLast? with
    | none => rfl
    | some d =>
      rw [List.getLast?_append, hlast] at h
      exact h
  · exact .inr h

end Seams

/-! ## Counting a character -/

section Count

variable [DecidableEq A] {a : A}

theorem count_flatMap_le (ps : List (Piece A))
    (h : ∀ p ∈ ps, p.isWord = true → p.text.count a ≤ (r p.text).count a) :
    (ps.flatMap Piece.text).count a ≤ (ps.flatMap (Piece.replace r)).count a := by
  induction ps with
  | nil => exact Nat.le_refl _
  | cons p ps ih =>
    rw [List.forall_mem_cons] at h
    rw [List.flatMap_cons, List.flatMap_cons, List.count_append, List.count_append]
    have hrest := ih h.2
    unfold Piece.replace at hrest ⊢
    split
    · next hw =>
      have hhead := h.1 hw
      omega
    · omega

/-- A character does not get rarer where no word has it less often once it is replaced. -/
theorem count_replaceWords_le {s : List A} (h : ∀ w ∈ words isWord s, w.count a ≤ (r w).count a) :
    s.count a ≤ (replaceWords isWord r s).count a := by
  have hle := count_flatMap_le (r := r) (pieces isWord s)
    fun p hp hw => h p.text (List.mem_map.2 ⟨p, List.mem_filter.2 ⟨hp, hw⟩, rfl⟩)
  rw [flatMap_pieces] at hle
  rw [replaceWords_eq_flatMap]
  exact hle

/-- And it gets more frequent where some word has it more often. -/
theorem count_replaceWords_lt {s w : List A} (h : ∀ w ∈ words isWord s, w.count a ≤ (r w).count a)
    (hw : w ∈ words isWord s) (hlt : w.count a < (r w).count a) :
    s.count a < (replaceWords isWord r s).count a := by
  obtain ⟨p, hp, rfl⟩ := List.mem_map.1 hw
  obtain ⟨hmem, hpw⟩ := List.mem_filter.1 hp
  obtain ⟨front, back, hps⟩ := List.append_of_mem hmem
  have hall : ∀ p ∈ pieces isWord s, p.isWord = true → p.text.count a ≤ (r p.text).count a :=
    fun p hp hw => h p.text (List.mem_map.2 ⟨p, List.mem_filter.2 ⟨hp, hw⟩, rfl⟩)
  rw [hps, List.forall_mem_append, List.forall_mem_cons] at hall
  have hfront := count_flatMap_le (r := r) (a := a) front hall.1
  have hback := count_flatMap_le (r := r) (a := a) back hall.2.2
  have htext : s.count a = (front.flatMap Piece.text).count a + (p.text.count a
      + (back.flatMap Piece.text).count a) := by
    conv_lhs => rw [← flatMap_pieces isWord s, hps]
    rw [List.flatMap_append, List.flatMap_cons, List.count_append, List.count_append]
  rw [replaceWords_eq_flatMap, hps, List.flatMap_append, List.flatMap_cons, List.count_append,
    List.count_append, htext]
  have hpiece : p.replace r = r p.text := if_pos hpw
  rw [hpiece]
  omega

/-- A character is as frequent where each word has it as often once it is replaced. -/
theorem count_replaceWords_eq {s : List A} (h : ∀ w ∈ words isWord s, (r w).count a = w.count a) :
    (replaceWords isWord r s).count a = s.count a := by
  have hall : ∀ p ∈ pieces isWord s, (p.replace r).count a = p.text.count a := by
    intro p hp
    unfold Piece.replace
    split
    · next hw => exact h p.text (List.mem_map.2 ⟨p, List.mem_filter.2 ⟨hp, hw⟩, rfl⟩)
    · rfl
  rw [replaceWords_eq_flatMap]
  conv_rhs => rw [← flatMap_pieces isWord s]
  rw [List.count_flatMap, List.count_flatMap]
  exact congrArg List.sum (List.map_congr_left hall)

end Count

end LibEvmvc
