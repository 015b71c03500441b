import Mathlib.Data.List.TakeWhile
import LibEvmvc.Foundation.Replace

set_option autoImplicit false

/-! # Words between separators

A text is a number of words with runs of a separator before, between and after them. Where the
separators are taken away in pairs, the words stay apart exactly if an odd number of separators is
between any two of them (`segments_dropPairs_iff`). -/

namespace LibEvmvc

variable {A : Type} [DecidableEq A]

/-- The words of a text: its pieces, without the empty ones. -/
def segments (sep : A) (s : List A) : List (List A) := (s.splitOn sep).filter (· ≠ [])

/-- The text is at its end or at a separator. -/
def AtSep (sep : A) (s : List A) : Prop := ∀ c, s.head? = some c → c = sep

/-- Between any two words there is an odd number of separators. The first argument is the number of
    separators since the last word, if there was one. -/
def oddRuns (sep : A) : Option Nat → List A → Bool
  | _, [] => true
  | none, c :: s => if c = sep then oddRuns sep none s else oddRuns sep (some 0) s
  | some k, c :: s =>
    if c = sep then oddRuns sep (some (k + 1)) s else (k = 0 || k % 2 = 1) && oddRuns sep (some 0) s

/-- The separators are taken away in pairs, from the left. -/
def dropPairs (sep : A) (s : List A) : List A := replaceAll [sep, sep] [] s

variable {sep : A}

/-! ## Words -/

@[simp] theorem segments_nil : segments sep [] = [] := by
  simp [segments]

/-- A separator in front or behind makes no word. -/
theorem segments_append_sep (s t : List A) :
    segments sep (s ++ sep :: t) = segments sep s ++ segments sep t := by
  rw [segments, List.splitOn_append_cons_self, List.filter_append]
  rfl

theorem segments_run (k : Nat) (s : List A) :
    segments sep (List.replicate k sep ++ s) = segments sep s := by
  induction k with
  | zero => rfl
  | succ k ih =>
    rw [List.replicate_succ, List.cons_append, ← ih]
    exact segments_append_sep [] _

theorem segments_of_not_mem {w : List A} (hne : w ≠ []) (hw : sep ∉ w) : segments sep w = [w] := by
  rw [segments, List.splitOn_eq_singleton hw]
  simp [hne]

/-- A word that a separator follows. -/
theorem segments_word {w s : List A} (hne : w ≠ []) (hw : sep ∉ w) (hs : AtSep sep s) :
    segments sep (w ++ s) = w :: segments sep s := by
  cases s with
  | nil => rw [List.append_nil, segments_of_not_mem hne hw, segments_nil]
  | cons c s =>
    obtain rfl : c = sep := hs c rfl
    have hback := @segments_append_sep A _ c [] s
    rw [List.nil_append, segments_nil, List.nil_append] at hback
    rw [segments_append_sep, segments_of_not_mem hne hw, hback]
    rfl

/-- A text begins with a word, which may be empty. -/
theorem exists_word (sep : A) (s : List A) : ∃ w t, s = w ++ t ∧ sep ∉ w ∧ AtSep sep t := by
  refine ⟨s.takeWhile (· ≠ sep), s.dropWhile (· ≠ sep), List.takeWhile_append_dropWhile.symm, ?_, ?_⟩
  · intro hmem
    simpa using List.mem_takeWhile_imp hmem
  · intro c hc
    have hstop := List.head?_dropWhile_not (fun c => decide (c ≠ sep)) s
    rw [hc] at hstop
    simpa using hstop

/-- A word that a word follows makes one with it. -/
theorem length_segments_merge {w s : List A} (hw : sep ∉ w) (hs : ¬ AtSep sep s) :
    (segments sep (w ++ s)).length = (segments sep s).length := by
  obtain ⟨v, t, rfl, hv, ht⟩ := exists_word sep s
  have hne : v ≠ [] := by
    rintro rfl
    exact hs ht
  have hwv : sep ∉ w ++ v := List.not_mem_append hw hv
  rw [← List.append_assoc, segments_word (by simp [hne]) hwv ht, segments_word hne hv ht,
    List.length_cons, List.length_cons]

variable (sep) in
/-- From the left to the right, a run of separators and a word at a time. -/
theorem words_induction {P : List A → Prop} (run : ∀ k, P (List.replicate k sep))
    (word : ∀ k w s, w ≠ [] → sep ∉ w → AtSep sep s → P s → P (List.replicate k sep ++ (w ++ s)))
    (s : List A) : P s := by
  induction hlen : s.length using Nat.strong_induction_on generalizing s with
  | _ n ih =>
    have hrun : s.takeWhile (· = sep) = List.replicate (s.takeWhile (· = sep)).length sep :=
      List.eq_replicate_of_mem fun c hc => by simpa using List.mem_takeWhile_imp hc
    obtain ⟨w, t, hsplit, hw, ht⟩ := exists_word sep (s.dropWhile (· = sep))
    have htext : s = List.replicate (s.takeWhile (· = sep)).length sep ++ (w ++ t) := by
      rw [← hrun, ← hsplit, List.takeWhile_append_dropWhile]
    by_cases hne : w = []
    · have hend : s.dropWhile (· = sep) = [] := by
        rw [hne, List.nil_append] at hsplit
        by_contra hmore
        obtain ⟨c, r, hcr⟩ := List.exists_cons_of_ne_nil hmore
        have hstop := List.head?_dropWhile_not (fun c => decide (c = sep)) s
        rw [hcr] at hstop
        rw [← hsplit, hcr] at ht
        simp [ht c rfl] at hstop
      rw [htext, ← hsplit, hend, List.append_nil]
      exact run _
    · rw [htext]
      refine word _ w t hne hw ht (ih t.length ?_ t rfl)
      have hpos := List.length_pos_iff.2 hne
      have hsum := congrArg List.length htext
      rw [List.length_append, List.length_append] at hsum
      omega

/-! ## Taking separators away in pairs -/

/-- Of a run one separator is left, or none. -/
theorem dropPairs_run (k : Nat) {s : List A} (hs : s.head? ≠ some sep) :
    dropPairs sep (List.replicate k sep ++ s) = List.replicate (k % 2) sep ++ dropPairs sep s := by
  induction k using Nat.twoStepInduction with
  | zero => rfl
  | one =>
    refine replaceAll_cons ?_
    rw [pair_prefix_iff]
    exact fun h => hs h.2
  | more k ih _ =>
    have hpair : List.replicate (k + 2) sep ++ s = [sep, sep] ++ (List.replicate k sep ++ s) := rfl
    rw [hpair, dropPairs, replaceAll_found (List.cons_ne_nil sep [sep]), Nat.add_mod_right]
    exact ih

theorem dropPairs_replicate (k : Nat) :
    dropPairs sep (List.replicate k sep) = List.replicate (k % 2) sep := by
  have h := @dropPairs_run A _ sep k [] (by simp)
  rwa [List.append_nil, show dropPairs sep [] = [] from rfl, List.append_nil] at h

omit [DecidableEq A] in
theorem head?_word {w : List A} (s : List A) (hne : w ≠ []) (hw : sep ∉ w) :
    (w ++ s).head? ≠ some sep := by
  obtain ⟨c, w, rfl⟩ := List.exists_cons_of_ne_nil hne
  rw [List.mem_cons, not_or] at hw
  exact fun h => hw.1 (Option.some.inj h).symm

/-- Words stay. -/
theorem dropPairs_word (k : Nat) {w : List A} (s : List A) (hne : w ≠ []) (hw : sep ∉ w) :
    dropPairs sep (List.replicate k sep ++ (w ++ s))
      = List.replicate (k % 2) sep ++ (w ++ dropPairs sep s) := by
  have hlast : w.getLast? = some sep → s.head? ≠ some sep := fun h =>
    absurd (List.mem_of_getLast? h) hw
  rw [dropPairs_run k (head?_word s hne hw), dropPairs, replaceAll_pair_append hlast,
    replaceAll_of_not_mem hw]
  rfl

theorem oddRuns_none_cons (c : A) (s : List A) :
    oddRuns sep none (c :: s) = if c = sep then oddRuns sep none s else oddRuns sep (some 0) s := rfl

theorem oddRuns_some_cons (k : Nat) (c : A) (s : List A) :
    oddRuns sep (some k) (c :: s) = if c = sep then oddRuns sep (some (k + 1)) s
      else (k = 0 || k % 2 = 1) && oddRuns sep (some 0) s := rfl

theorem oddRuns_none_run (k : Nat) (s : List A) :
    oddRuns sep none (List.replicate k sep ++ s) = oddRuns sep none s := by
  induction k with
  | zero => rfl
  | succ k ih => rw [List.replicate_succ, List.cons_append, oddRuns_none_cons, if_pos rfl, ih]

theorem oddRuns_some_run (j k : Nat) (s : List A) :
    oddRuns sep (some j) (List.replicate k sep ++ s) = oddRuns sep (some (j + k)) s := by
  induction k generalizing j with
  | zero => rfl
  | succ k ih =>
    rw [List.replicate_succ, List.cons_append, oddRuns_some_cons, if_pos rfl, ih, Nat.add_assoc,
      Nat.add_comm 1]

theorem oddRuns_inside {w : List A} (s : List A) (hw : sep ∉ w) :
    oddRuns sep (some 0) (w ++ s) = oddRuns sep (some 0) s := by
  induction w with
  | nil => rfl
  | cons c w ih =>
    rw [List.mem_cons, not_or] at hw
    rw [List.cons_append, oddRuns_some_cons, if_neg (Ne.symm hw.1), ih hw.2]
    rfl

theorem oddRuns_none_word {w : List A} (s : List A) (hne : w ≠ []) (hw : sep ∉ w) :
    oddRuns sep none (w ++ s) = oddRuns sep (some 0) s := by
  obtain ⟨c, w, rfl⟩ := List.exists_cons_of_ne_nil hne
  rw [List.mem_cons, not_or] at hw
  rw [List.cons_append, oddRuns_none_cons, if_neg (Ne.symm hw.1), oddRuns_inside s hw.2]

theorem oddRuns_some_word (k : Nat) {w : List A} (s : List A) (hne : w ≠ []) (hw : sep ∉ w) :
    oddRuns sep (some k) (w ++ s) = ((k = 0 || k % 2 = 1) && oddRuns sep (some 0) s) := by
  obtain ⟨c, w, rfl⟩ := List.exists_cons_of_ne_nil hne
  rw [List.mem_cons, not_or] at hw
  rw [List.cons_append, oddRuns_some_cons, if_neg (Ne.symm hw.1), oddRuns_inside s hw.2]

theorem segments_replicate (k : Nat) : segments sep (List.replicate k sep) = [] := by
  have h := @segments_run A _ sep k []
  rwa [List.append_nil, segments_nil] at h

theorem segments_run_word (k : Nat) {w s : List A} (hne : w ≠ []) (hw : sep ∉ w) (hs : AtSep sep s) :
    segments sep (List.replicate k sep ++ (w ++ s)) = w :: segments sep s := by
  rw [segments_run, segments_word hne hw hs]

/-- A text without words is a run of separators. -/
theorem segments_eq_nil_iff {s : List A} : segments sep s = [] ↔ s = List.replicate s.length sep := by
  constructor
  · intro h
    induction s using words_induction sep with
    | run k => rw [List.length_replicate]
    | word k w s hne hw hs _ =>
      rw [segments_run_word k hne hw hs] at h
      cases h
  · intro h
    rw [h]
    exact segments_replicate _

theorem mem_segments {w s : List A} (h : w ∈ segments sep s) : w ≠ [] ∧ sep ∉ w := by
  induction s using words_induction sep with
  | run k =>
    rw [segments_replicate] at h
    cases h
  | word k v s hne hv hs ih =>
    rw [segments_run_word k hne hv hs, List.mem_cons] at h
    rcases h with rfl | h
    · exact ⟨hne, hv⟩
    · exact ih h

/-- No piece has a separator. -/
theorem not_mem_of_mem_splitOn {x s : List A} (h : x ∈ s.splitOn sep) : sep ∉ x := by
  by_cases hx : x = []
  · rw [hx]
    exact List.not_mem_nil
  · exact (mem_segments (List.mem_filter.2 ⟨h, decide_eq_true hx⟩)).2

/-- Behind a word, the number of separators is odd if one is left when they are taken away in
    pairs. -/
theorem oddRuns_some_iff {s : List A} (hs : AtSep sep s) :
    oddRuns sep (some 0) s = true ↔ oddRuns sep none s = true ∧ AtSep sep (dropPairs sep s) := by
  induction s using words_induction sep with
  | run k =>
    have hsome := @oddRuns_some_run A _ sep 0 k []
    have hnone := @oddRuns_none_run A _ sep k []
    rw [List.append_nil] at hsome hnone
    rw [hsome, hnone, dropPairs_replicate]
    refine iff_of_true rfl ⟨rfl, ?_⟩
    rintro c hc
    exact List.eq_of_mem_replicate (List.mem_of_head? hc)
  | word k w s hne hw _ _ =>
    have hpos : k ≠ 0 := by
      rintro rfl
      obtain ⟨c, w, rfl⟩ := List.exists_cons_of_ne_nil hne
      rw [List.mem_cons, not_or] at hw
      exact hw.1 (hs c rfl).symm
    rw [oddRuns_some_run, Nat.zero_add, oddRuns_some_word k s hne hw, oddRuns_none_run,
      oddRuns_none_word s hne hw, dropPairs_word k s hne hw, Bool.and_eq_true, and_comm]
    refine and_congr_right fun _ => ?_
    rcases Nat.mod_two_eq_zero_or_one k with heven | hodd
    · obtain ⟨c, w, rfl⟩ := List.exists_cons_of_ne_nil hne
      rw [List.mem_cons, not_or] at hw
      rw [heven]
      refine iff_of_false (by simp [hpos]) fun h => hw.1 (h c rfl).symm
    · rw [hodd]
      refine iff_of_true (by simp) fun c hc => ?_
      exact (Option.some.inj hc).symm

/-- Words are never made more, and stay apart only where an odd number of separators is between
    them. -/
theorem segments_dropPairs (s : List A) :
    (segments sep (dropPairs sep s)).length ≤ (segments sep s).length ∧
      ((segments sep (dropPairs sep s)).length = (segments sep s).length → oddRuns sep none s = true) ∧
      (oddRuns sep none s = true → segments sep (dropPairs sep s) = segments sep s) := by
  induction s using words_induction sep with
  | run k =>
    have hnone := @oddRuns_none_run A _ sep k []
    rw [List.append_nil] at hnone
    rw [dropPairs_replicate, segments_replicate, segments_replicate, hnone]
    exact ⟨Nat.le_refl 0, fun _ => rfl, fun _ => rfl⟩
  | word k w s hne hw hs ih =>
    obtain ⟨hle, hlen, hsame⟩ := ih
    rw [dropPairs_word k s hne hw, segments_run_word k hne hw hs, segments_run, oddRuns_none_run,
      oddRuns_none_word s hne hw, oddRuns_some_iff hs]
    by_cases hat : AtSep sep (dropPairs sep s)
    · rw [segments_word hne hw hat]
      refine ⟨Nat.succ_le_succ hle, fun h => ⟨hlen (Nat.succ.inj h), hat⟩, fun h => ?_⟩
      rw [hsame h.1]
    · have hmerge := length_segments_merge hw hat
      rw [hmerge, List.length_cons]
      refine ⟨Nat.le_succ_of_le hle, fun h => ?_, fun h => absurd h.2 hat⟩
      omega

/-- **Where the separators are taken away in pairs, the words stay exactly if an odd number of
    separators is between any two.** -/
theorem segments_dropPairs_iff (s : List A) :
    segments sep (dropPairs sep s) = segments sep s ↔ oddRuns sep none s = true :=
  ⟨fun h => (segments_dropPairs s).2.1 (congrArg List.length h), (segments_dropPairs s).2.2⟩

/-! ## Words with one separator each -/

/-- A separator in front is taken away. -/
def stripSep (sep : A) (s : List A) : List A := if s.head? = some sep then s.drop 1 else s

/-- A separator is put at the end, if there is none. -/
def closeSep (sep : A) (s : List A) : List A := if s.getLast? = some sep then s else s ++ [sep]

/-- Each word with a separator behind it. -/
def joinSegments (sep : A) (ws : List (List A)) : List A := ws.flatMap (· ++ [sep])

theorem stripSep_word {w : List A} (s : List A) (hne : w ≠ []) (hw : sep ∉ w) :
    stripSep sep (w ++ s) = w ++ s := if_neg (head?_word s hne hw)

theorem stripSep_run_word {k : Nat} (hk : k ≤ 1) {w : List A} (s : List A) (hne : w ≠ []) (hw : sep ∉ w) :
    stripSep sep (List.replicate k sep ++ (w ++ s)) = w ++ s := by
  rcases Nat.le_one_iff_eq_zero_or_eq_one.1 hk with rfl | rfl
  · exact stripSep_word s hne hw
  · exact if_pos rfl

theorem segments_stripSep (s : List A) : segments sep (stripSep sep s) = segments sep s := by
  unfold stripSep
  split
  · next h =>
    cases s with
    | nil => rfl
    | cons c s =>
      obtain rfl : c = sep := Option.some.inj h
      exact (segments_run 1 s).symm
  · rfl

theorem segments_closeSep (s : List A) : segments sep (closeSep sep s) = segments sep s := by
  unfold closeSep
  split
  · rfl
  · rw [segments_append_sep, segments_nil, List.append_nil]

/-- What is left is empty only if there were no words. -/
theorem stripSep_dropPairs_eq_nil_iff {s : List A} :
    stripSep sep (dropPairs sep s) = [] ↔ segments sep s = [] := by
  induction s using words_induction sep with
  | run k =>
    refine iff_of_true ?_ (segments_replicate k)
    rw [dropPairs_replicate]
    rcases Nat.mod_two_eq_zero_or_one k with heven | hodd
    · rw [heven]
      rfl
    · rw [hodd]
      exact if_pos rfl
  | word k w s hne hw hs _ =>
    have hk : k % 2 ≤ 1 := Nat.le_of_lt_succ (Nat.mod_lt k Nat.two_pos)
    rw [dropPairs_word k s hne hw, stripSep_run_word hk _ hne hw, segments_run_word k hne hw hs]
    exact iff_of_false (by simp [hne]) (List.cons_ne_nil _ _)

/-- Behind a word and a separator, only the rest is closed. -/
theorem closeSep_append (w : List A) {s : List A} (hs : s ≠ []) :
    closeSep sep (w ++ s) = w ++ closeSep sep s := by
  have hlast : (w ++ s).getLast? = s.getLast? := by
    rw [List.getLast?_append]
    cases h : s.getLast? with
    | none => exact absurd (List.getLast?_eq_none_iff.1 h) hs
    | some c => rfl
  unfold closeSep
  rw [hlast]
  split
  · rfl
  · rw [List.append_assoc]

/-- The words of a text with an odd number of separators between them are joined by single ones. -/
theorem closeSep_dropPairs {s : List A} (hodd : oddRuns sep none s = true) (hwords : segments sep s ≠ []) :
    closeSep sep (stripSep sep (dropPairs sep s)) = joinSegments sep (segments sep s) := by
  induction s using words_induction sep with
  | run k => exact absurd (segments_replicate k) hwords
  | word k w s hne hw hs ih =>
    have hk : k % 2 ≤ 1 := Nat.le_of_lt_succ (Nat.mod_lt k Nat.two_pos)
    have hlast : w.getLast? ≠ some sep := fun h => hw (List.mem_of_getLast? h)
    rw [oddRuns_none_run, oddRuns_none_word s hne hw, oddRuns_some_iff hs] at hodd
    obtain ⟨hodd, hat⟩ := hodd
    rw [dropPairs_word k s hne hw, stripSep_run_word hk _ hne hw, segments_run_word k hne hw hs,
      joinSegments, List.flatMap_cons]
    by_cases hnil : segments sep s = []
    · -- nothing or a separator is left behind the last word
      rw [hnil, List.flatMap_nil, List.append_nil, segments_eq_nil_iff.1 hnil, dropPairs_replicate]
      rcases Nat.mod_two_eq_zero_or_one s.length with heven | hone
      · rw [heven, List.replicate_zero, List.append_nil]
        exact if_neg hlast
      · rw [hone]
        exact if_pos (by simp)
    · have hleft : segments sep (dropPairs sep s) ≠ [] := by
        rw [(segments_dropPairs s).2.2 hodd]
        exact hnil
      obtain ⟨c, r, hr⟩ : ∃ c r, dropPairs sep s = c :: r := by
        refine List.exists_cons_of_ne_nil fun h => hleft ?_
        rw [h, segments_nil]
      obtain rfl : c = sep := hat c (by rw [hr]; rfl)
      have hstrip : stripSep c (dropPairs c s) = r := by
        rw [hr]
        exact if_pos rfl
      have hne' : r ≠ [] := by
        rintro rfl
        rw [hr] at hleft
        exact hleft (segments_replicate 1)
      have hrest := ih hodd hnil
      rw [hstrip] at hrest
      rw [hr, show w ++ c :: r = (w ++ [c]) ++ r by simp, closeSep_append _ hne', hrest]
      rfl

section Joined

variable {ws : List (List A)}

omit [DecidableEq A] in
theorem joinSegments_cons (w : List A) (ws : List (List A)) :
    joinSegments sep (w :: ws) = w ++ (sep :: joinSegments sep ws) := by
  rw [joinSegments, List.flatMap_cons, List.append_assoc]
  rfl

omit [DecidableEq A] in
theorem head?_joinSegments (hws : ∀ w ∈ ws, w ≠ [] ∧ sep ∉ w) :
    (joinSegments sep ws).head? ≠ some sep := by
  cases ws with
  | nil => simp [joinSegments]
  | cons w ws =>
    obtain ⟨hne, hw⟩ := hws w List.mem_cons_self
    rw [joinSegments_cons]
    exact head?_word _ hne hw

/-- Between the words of a joined text there are no pairs of separators. -/
theorem dropPairs_joinSegments (hws : ∀ w ∈ ws, w ≠ [] ∧ sep ∉ w) :
    dropPairs sep (joinSegments sep ws) = joinSegments sep ws := by
  induction ws with
  | nil => rfl
  | cons w ws ih =>
    rw [List.forall_mem_cons] at hws
    have hrest := @dropPairs_run A _ sep 1 _ (head?_joinSegments hws.2)
    rw [ih hws.2] at hrest
    have hword := dropPairs_word 0 (sep :: joinSegments sep ws) hws.1.1 hws.1.2
    rw [joinSegments_cons]
    exact hword.trans (congrArg (w ++ ·) hrest)

theorem stripSep_joinSegments (hws : ∀ w ∈ ws, w ≠ [] ∧ sep ∉ w) :
    stripSep sep (joinSegments sep ws) = joinSegments sep ws := if_neg (head?_joinSegments hws)

omit [DecidableEq A] in
theorem joinSegments_eq (hne : ws ≠ []) :
    joinSegments sep ws = [sep].intercalate ws ++ [sep] := by
  induction ws with
  | nil => exact absurd rfl hne
  | cons w ws ih =>
    cases ws with
    | nil => simp [joinSegments]
    | cons v ws =>
      rw [joinSegments_cons, ih (List.cons_ne_nil v ws), List.intercalate_cons_cons]
      simp

theorem closeSep_joinSegments (hne : ws ≠ []) :
    closeSep sep (joinSegments sep ws) = joinSegments sep ws := by
  refine if_pos ?_
  rw [joinSegments_eq hne, List.getLast?_concat]

/-- The words of a joined text without its last separator. -/
theorem splitOn_intercalate_segments (s : List A) (hne : segments sep s ≠ []) :
    ([sep].intercalate (segments sep s)).splitOn sep = segments sep s :=
  List.splitOn_intercalate sep (fun _ hw => (mem_segments hw).2) hne

end Joined

end LibEvmvc
