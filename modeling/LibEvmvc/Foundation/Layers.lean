import LibEvmvc.Foundation.Words

set_option autoImplicit false

/-! # Replacing the words of a text layer by layer

A text with inner texts in it, at any depth. The words of an inner text are replaced first, and again with
those of the text around it, so a word is replaced once for each layer it is in. That makes no difference
to replacing all words once exactly if in no inner text a second replacement changes anything
(`replaceWords_outAll`, `count_outAll_lt`). -/

namespace LibEvmvc

/-- A part of a text in layers. -/
inductive Layered (A : Type) where
  | text (b : List A)
  /-- an inner text -/
  | inner (ps : List (Layered A))
  /-- a text that is left out -/
  | lost (b : List A)

variable {A : Type}

mutual

/-- The part as it is written. -/
def Layered.raw : Layered A → List A
  | .text b => b
  | .inner ps => rawAll ps
  | .lost b => b

/-- The text as it is written. -/
def rawAll : List (Layered A) → List A
  | [] => []
  | p :: ps => p.raw ++ rawAll ps

end

section Replaced

variable (isWord : A → Bool) (r : List A → List A)

mutual

/-- The part with the words of its inner texts replaced. -/
def Layered.out : Layered A → List A
  | .text b => b
  | .inner ps => replaceWords isWord r (outAll ps)
  | .lost _ => []

/-- The text with the words of its inner texts replaced. -/
def outAll : List (Layered A) → List A
  | [] => []
  | p :: ps => p.out ++ outAll ps

end

mutual

/-- Where the words of an inner text are replaced, a second replacement changes nothing. -/
def Layered.Stable : Layered A → Prop
  | .text _ => True
  | .inner ps =>
    replaceWords isWord r (replaceWords isWord r (rawAll ps)) = replaceWords isWord r (rawAll ps) ∧
      StableAll ps
  | .lost _ => True

def StableAll : List (Layered A) → Prop
  | [] => True
  | p :: ps => p.Stable ∧ StableAll ps

end

/-- An inner text between two texts does not begin or end in a word. -/
def Layered.SeamsWith (pre post : List A) : Layered A → Prop
  | .text _ => True
  | .inner ps => Seam isWord pre (rawAll ps) ∧ Seam isWord (pre ++ rawAll ps) post
  | .lost _ => True

mutual

/-- No inner text begins or ends in a word. -/
def Layered.Seams : Layered A → Prop
  | .text _ => True
  | .inner ps => SeamsAll [] ps
  | .lost _ => True

/-- The same behind a text. -/
def SeamsAll : List A → List (Layered A) → Prop
  | _, [] => True
  | pre, p :: ps => p.Seams ∧ p.SeamsWith isWord pre (rawAll ps) ∧ SeamsAll (pre ++ p.raw) ps

end

instance (a b : List A) : Decidable (Seam isWord a b) := inferInstanceAs (Decidable (_ ∨ _))

instance (pre post : List A) : (p : Layered A) → Decidable (p.SeamsWith isWord pre post)
  | .text _ => isTrue trivial
  | .inner _ => inferInstanceAs (Decidable (_ ∧ _))
  | .lost _ => isTrue trivial

mutual

def Layered.decSeams : (p : Layered A) → Decidable (p.Seams isWord)
  | .text _ => isTrue trivial
  | .inner ps => decSeamsAll [] ps
  | .lost _ => isTrue trivial

def decSeamsAll : (pre : List A) → (ps : List (Layered A)) → Decidable (SeamsAll isWord pre ps)
  | _, [] => isTrue trivial
  | pre, p :: ps =>
    have := p.decSeams
    have := decSeamsAll (pre ++ p.raw) ps
    decidable_of_iff (p.Seams isWord ∧ p.SeamsWith isWord pre (rawAll ps) ∧ SeamsAll isWord (pre ++ p.raw) ps)
      Iff.rfl

end

instance (pre : List A) (ps : List (Layered A)) : Decidable (SeamsAll isWord pre ps) :=
  decSeamsAll isWord pre ps

end Replaced

mutual

/-- Nothing is left out. -/
def Layered.Whole : Layered A → Prop
  | .text _ => True
  | .inner ps => WholeAll ps
  | .lost _ => False

def WholeAll : List (Layered A) → Prop
  | [] => True
  | p :: ps => p.Whole ∧ WholeAll ps

end

mutual

/-- Whether a character is left out. -/
def Layered.Loses (a : A) : Layered A → Prop
  | .text _ => False
  | .inner ps => LosesAny a ps
  | .lost b => a ∈ b

def LosesAny (a : A) : List (Layered A) → Prop
  | [] => False
  | p :: ps => p.Loses a ∨ LosesAny a ps

end

variable {isWord : A → Bool} {r : List A → List A} {pre a b a' b' : List A} {ps qs : List (Layered A)}

theorem rawAll_append (ps qs : List (Layered A)) : rawAll (ps ++ qs) = rawAll ps ++ rawAll qs := by
  induction ps with
  | nil => rfl
  | cons p ps ih => rw [List.cons_append, rawAll, rawAll, ih, List.append_assoc]

theorem outAll_append (ps qs : List (Layered A)) :
    outAll isWord r (ps ++ qs) = outAll isWord r ps ++ outAll isWord r qs := by
  induction ps with
  | nil => rfl
  | cons p ps ih => rw [List.cons_append, outAll, outAll, ih, List.append_assoc]

theorem wholeAll_append : WholeAll (ps ++ qs) ↔ WholeAll ps ∧ WholeAll qs := by
  induction ps with
  | nil => exact (true_and _).symm.to_iff
  | cons p ps ih => rw [List.cons_append, WholeAll, WholeAll, ih, and_assoc]

theorem losesAny_append {a : A} : LosesAny a (ps ++ qs) ↔ LosesAny a ps ∨ LosesAny a qs := by
  induction ps with
  | nil => exact (false_or _).symm.to_iff
  | cons p ps ih => rw [List.cons_append, LosesAny, LosesAny, ih, or_assoc]

/-! ## The edges of a text -/

variable (isWord) in
/-- The second text is empty where the first one is, and begins and ends with the characters between words
    the first one begins and ends with. -/
structure SameEdges (a b : List A) : Prop where
  empty : a = [] → b = []
  head : ∀ c s, a = c :: s → isWord c = false → ∃ s', b = c :: s'
  last : ∀ s c, a = s ++ [c] → isWord c = false → ∃ s', b = s' ++ [c]

theorem SameEdges.refl (a : List A) : SameEdges isWord a a :=
  ⟨id, fun _ s h _ => ⟨s, h⟩, fun s _ h _ => ⟨s, h⟩⟩

theorem SameEdges.append (h : SameEdges isWord a b) (h' : SameEdges isWord a' b') :
    SameEdges isWord (a ++ a') (b ++ b') where
  empty hnil := by
    obtain ⟨hleft, hright⟩ := List.append_eq_nil_iff.1 hnil
    rw [h.empty hleft, h'.empty hright]
    rfl
  head c s heq hc := by
    cases a with
    | nil =>
      rw [h.empty rfl]
      exact h'.head c s heq hc
    | cons d a =>
      obtain ⟨rfl, -⟩ := List.cons.inj heq
      obtain ⟨s', rfl⟩ := h.head d a rfl hc
      exact ⟨s' ++ b', rfl⟩
  last s c heq hc := by
    rcases List.eq_nil_or_concat a' with rfl | ⟨t, d, rfl⟩
    · rw [h'.empty rfl, List.append_nil]
      rw [List.append_nil] at heq
      exact h.last s c heq hc
    · rw [List.concat_eq_append] at h' heq
      rw [← List.append_assoc] at heq
      obtain ⟨-, hd⟩ := List.append_inj' heq rfl
      cases hd
      obtain ⟨s', rfl⟩ := h'.last t c rfl hc
      exact ⟨b ++ s', (List.append_assoc b s' [c]).symm⟩

/-- The characters between words stay. -/
theorem SameEdges.replace (h : SameEdges isWord a b) : SameEdges isWord a (replaceWords isWord r b) where
  empty hnil := by rw [h.empty hnil, replaceWords_nil]
  head c s heq hc := by
    obtain ⟨s', rfl⟩ := h.head c s heq hc
    exact ⟨replaceWords isWord r s', replaceWords_sep [] s' hc⟩
  last s c heq hc := by
    obtain ⟨s', rfl⟩ := h.last s c heq hc
    exact ⟨replaceWords isWord r s', replaceWords_sep s' [] hc⟩

theorem Seam.right (h : Seam isWord a b) (hb : SameEdges isWord b b') : Seam isWord a b' := by
  rcases h with h | h
  · exact .inl h
  · refine .inr ?_
    cases b with
    | nil =>
      rw [hb.empty rfl]
      rfl
    | cons c s =>
      obtain ⟨s', rfl⟩ := hb.head c s rfl h
      exact h

theorem Seam.left (h : Seam isWord a b) (ha : SameEdges isWord a a') : Seam isWord a' b := by
  rcases h with h | h
  · refine .inl ?_
    rcases List.eq_nil_or_concat a with rfl | ⟨s, c, rfl⟩
    · rw [ha.empty rfl]
      rfl
    · rw [List.concat_eq_append] at h ha
      rw [List.getLast?_concat] at h
      obtain ⟨s', rfl⟩ := ha.last s c rfl h
      rw [List.getLast?_concat]
      exact h
  · exact .inr h

/-- The edges stay where nothing is left out. -/
theorem sameEdges_outAll : (ps : List (Layered A)) → WholeAll ps →
    SameEdges isWord (rawAll ps) (outAll isWord r ps)
  | [], _ => .refl []
  | .text b :: ps, h => (SameEdges.refl b).append (sameEdges_outAll ps h.2)
  | .inner qs :: ps, h => (sameEdges_outAll qs h.1).replace.append (sameEdges_outAll ps h.2)
  | .lost _ :: _, h => h.1.elim
termination_by ps => sizeOf ps

/-- The seams are still there behind less text. -/
theorem SeamsAll.of_append (h : SeamsAll isWord (a ++ pre) ps) : SeamsAll isWord pre ps := by
  induction ps generalizing pre with
  | nil => trivial
  | cons p ps ih =>
    obtain ⟨hinner, hseams, hrest⟩ := h
    rw [List.append_assoc] at hrest
    cases p with
    | text b => exact ⟨trivial, trivial, ih hrest⟩
    | lost b => exact ⟨trivial, trivial, ih hrest⟩
    | inner qs =>
      have hright := hseams.2
      rw [List.append_assoc] at hright
      exact ⟨hinner, ⟨hseams.1.of_append, hright.of_append⟩, ih hrest⟩

theorem SeamsAll.drop (h : SeamsAll isWord pre ps) : SeamsAll isWord [] ps := by
  refine SeamsAll.of_append (a := pre) ?_
  rw [List.append_nil]
  exact h

/-! ## Replacing all words once -/

theorem replaceWords_between (hleft : Seam isWord pre a) (hright : Seam isWord (pre ++ a) b) :
    replaceWords isWord r (pre ++ (a ++ b))
      = replaceWords isWord r pre ++ (replaceWords isWord r a ++ replaceWords isWord r b) := by
  rw [← List.append_assoc, replaceWords_append hright, replaceWords_append hleft, List.append_assoc]

/-- The words of an inner text are replaced apart from those around it, as it is written and with the words
    of its own inner texts replaced. -/
theorem replaceWords_inner (hseams : SeamsAll isWord pre (.inner qs :: ps)) (hwhole : WholeAll (.inner qs :: ps)) :
    replaceWords isWord r (pre ++ rawAll (.inner qs :: ps))
        = replaceWords isWord r pre ++ (replaceWords isWord r (rawAll qs) ++ replaceWords isWord r (rawAll ps)) ∧
      replaceWords isWord r (pre ++ outAll isWord r (.inner qs :: ps))
        = replaceWords isWord r pre ++ (replaceWords isWord r (replaceWords isWord r (outAll isWord r qs))
          ++ replaceWords isWord r (outAll isWord r ps)) := by
  obtain ⟨-, ⟨hleft, hright⟩, -⟩ := hseams
  have hinner : SameEdges isWord (rawAll qs) (replaceWords isWord r (outAll isWord r qs)) :=
    (sameEdges_outAll qs hwhole.1).replace
  exact ⟨replaceWords_between hleft hright, replaceWords_between (hleft.right hinner)
    ((hright.left ((SameEdges.refl pre).append hinner)).right (sameEdges_outAll ps hwhole.2))⟩

/-- **Where a second replacement changes nothing, it makes no difference that inner texts are replaced
first.** -/
theorem replaceWords_outAll : (ps : List (Layered A)) → (pre : List A) → SeamsAll isWord pre ps →
    WholeAll ps → StableAll isWord r ps →
    replaceWords isWord r (pre ++ outAll isWord r ps) = replaceWords isWord r (pre ++ rawAll ps)
  | [], _, _, _, _ => rfl
  | .text b :: ps, pre, hseams, hwhole, hstable => by
    have hrest := replaceWords_outAll ps (pre ++ b) hseams.2.2 hwhole.2 hstable.2
    rw [List.append_assoc, List.append_assoc] at hrest
    exact hrest
  | .inner qs :: ps, pre, hseams, hwhole, hstable => by
    have hinner := replaceWords_outAll qs [] hseams.1 hwhole.1 hstable.1.2
    have hrest := replaceWords_outAll ps [] hseams.2.2.drop hwhole.2 hstable.2
    rw [List.nil_append, List.nil_append] at hinner hrest
    obtain ⟨hraw, hout⟩ := replaceWords_inner (r := r) hseams hwhole
    rw [hraw, hout, hinner, hrest, hstable.1.1]
  | .lost _ :: _, _, _, hwhole, _ => hwhole.1.elim
termination_by ps => sizeOf ps

section Count

variable [DecidableEq A] {c : A}

/-- **Where a second replacement changes something, the result is another one**, if a character gets more
frequent then. -/
theorem count_outAll (hmono : ∀ s : List A, s.count c ≤ (replaceWords isWord r s).count c)
    (hstrict : ∀ s : List A, replaceWords isWord r (replaceWords isWord r s) ≠ replaceWords isWord r s →
      (replaceWords isWord r s).count c < (replaceWords isWord r (replaceWords isWord r s)).count c) :
    (ps : List (Layered A)) → (pre : List A) → SeamsAll isWord pre ps → WholeAll ps →
    (replaceWords isWord r (pre ++ rawAll ps)).count c
        ≤ (replaceWords isWord r (pre ++ outAll isWord r ps)).count c ∧
      (¬ StableAll isWord r ps → (replaceWords isWord r (pre ++ rawAll ps)).count c
        < (replaceWords isWord r (pre ++ outAll isWord r ps)).count c)
  | [], _, _, _ => ⟨Nat.le_refl _, fun h => absurd trivial h⟩
  | .text b :: ps, pre, hseams, hwhole => by
    obtain ⟨hle, hlt⟩ := count_outAll hmono hstrict ps (pre ++ b) hseams.2.2 hwhole.2
    rw [List.append_assoc, List.append_assoc] at hle hlt
    exact ⟨hle, fun h => hlt fun hrest => h ⟨trivial, hrest⟩⟩
  | .inner qs :: ps, pre, hseams, hwhole => by
    obtain ⟨hraw, hout⟩ := replaceWords_inner (r := r) hseams hwhole
    obtain ⟨hinner, hinner'⟩ := count_outAll hmono hstrict qs [] hseams.1 hwhole.1
    obtain ⟨hrest, hrest'⟩ := count_outAll hmono hstrict ps [] hseams.2.2.drop
      hwhole.2
    rw [List.nil_append, List.nil_append] at hinner hinner' hrest hrest'
    have hagain := hmono (replaceWords isWord r (outAll isWord r qs))
    rw [hraw, hout]
    simp only [List.count_append]
    refine ⟨by omega, fun hunstable => ?_⟩
    by_cases hps : StableAll isWord r ps
    · by_cases hqs : StableAll isWord r qs
      · -- it is the second replacement in this inner text that changes something
        have hsame := replaceWords_outAll qs [] hseams.1 hwhole.1 hqs
        rw [List.nil_append, List.nil_append] at hsame
        have hmore := hstrict (rawAll qs) fun heq => hunstable ⟨⟨heq, hqs⟩, hps⟩
        rw [hsame] at hagain ⊢
        omega
      · have hmore := hinner' hqs
        omega
    · have hmore := hrest' hps
      omega
  | .lost _ :: _, _, _, hwhole => hwhole.1.elim
termination_by ps => sizeOf ps

/-- Where a character is left out, there are fewer of it. -/
theorem count_outAll_lost (hkeep : ∀ s : List A, (replaceWords isWord r s).count c = s.count c) :
    (ps : List (Layered A)) → (outAll isWord r ps).count c ≤ (rawAll ps).count c ∧
      (LosesAny c ps → (outAll isWord r ps).count c < (rawAll ps).count c)
  | [] => ⟨Nat.le_refl _, fun h => h.elim⟩
  | p :: ps => by
    obtain ⟨hrest, hrest'⟩ := count_outAll_lost hkeep ps
    -- the same for the first part
    have hfirst : (p.out isWord r).count c ≤ p.raw.count c ∧
        (p.Loses c → (p.out isWord r).count c < p.raw.count c) := by
      cases p with
      | text b => exact ⟨Nat.le_refl _, fun h => h.elim⟩
      | inner qs =>
        have hinner := count_outAll_lost hkeep qs
        rw [Layered.out, hkeep]
        exact hinner
      | lost b => exact ⟨Nat.zero_le _, fun h => List.count_pos_iff.2 h⟩
    rw [outAll, rawAll, List.count_append, List.count_append]
    refine ⟨by omega, fun hlost => ?_⟩
    rcases hlost with h | h
    · have hless := hfirst.2 h
      omega
    · have hless := hrest' h
      omega
termination_by ps => sizeOf ps

end Count

end LibEvmvc
