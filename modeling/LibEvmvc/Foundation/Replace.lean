import Mathlib.Data.List.Basic
import Mathlib.Data.List.Infix

set_option autoImplicit false

/-! # Replacing a text in a text

All occurrences of a text `f`, from the left, are replaced by a text `r`. A text of one character is
replaced character by character (`replaceAll_single`). Where a text of two characters is replaced, a text
can be cut wherever the two do not stand at the cut (`replaceAll_pair_append`). -/

namespace LibEvmvc

variable {A : Type} [DecidableEq A]

/-- All occurrences of `f` from the left, `skip` being what is left of the last one. -/
def replaceAllLoop (f r : List A) : Nat → List A → List A
  | _, [] => []
  | skip + 1, _ :: cs => replaceAllLoop f r skip cs
  | 0, c :: cs =>
    if f.isPrefixOf (c :: cs) then r ++ replaceAllLoop f r (f.length - 1) cs
    else c :: replaceAllLoop f r 0 cs

/-- The text with all occurrences of `f` replaced by `r`. -/
def replaceAll (f r s : List A) : List A := replaceAllLoop f r 0 s

variable {f r : List A}

@[simp] theorem replaceAll_nil : replaceAll f r [] = [] := rfl

theorem replaceAllLoop_drop (skip : Nat) (s : List A) :
    replaceAllLoop f r skip s = replaceAll f r (s.drop skip) := by
  induction s generalizing skip with
  | nil =>
    rw [List.drop_nil]
    cases skip <;> rfl
  | cons c s ih =>
    cases skip with
    | zero => rfl
    | succ skip =>
      rw [replaceAllLoop, List.drop_succ_cons]
      exact ih skip

/-- Where `f` stands, it is replaced. -/
theorem replaceAll_found (hf : f ≠ []) (s : List A) : replaceAll f r (f ++ s) = r ++ replaceAll f r s := by
  cases f with
  | nil => exact absurd rfl hf
  | cons a f =>
    have hpre : (a :: f).isPrefixOf (a :: (f ++ s)) = true :=
      List.isPrefixOf_iff_prefix.2 (List.prefix_append (a :: f) s)
    rw [List.cons_append, replaceAll, replaceAllLoop, if_pos hpre, replaceAllLoop_drop, List.length_cons,
      Nat.add_sub_cancel, List.drop_left]

/-- Where it does not, the next character is kept. -/
theorem replaceAll_cons {c : A} {s : List A} (h : ¬ f <+: c :: s) :
    replaceAll f r (c :: s) = c :: replaceAll f r s := by
  rw [replaceAll, replaceAllLoop, if_neg fun hpre => h (List.isPrefixOf_iff_prefix.1 hpre)]
  rfl

/-- From the left to the right, an occurrence or a character at a time. -/
theorem replace_induction (hf : f ≠ []) {P : List A → Prop} (nil : P [])
    (found : ∀ s, P s → P (f ++ s)) (kept : ∀ c s, ¬ f <+: c :: s → P s → P (c :: s)) (s : List A) : P s := by
  induction hlen : s.length using Nat.strong_induction_on generalizing s with
  | _ n ih =>
    cases s with
    | nil => exact nil
    | cons c s =>
      by_cases hpre : f <+: c :: s
      · obtain ⟨t, ht⟩ := hpre
        have hpos := List.length_pos_iff.2 hf
        have hsum := congrArg List.length ht
        rw [List.length_append] at hsum
        rw [← ht]
        exact found t (ih t.length (by omega) t rfl)
      · exact kept c s hpre (ih s.length (by rw [← hlen]; exact Nat.lt_succ_self _) s rfl)

/-- A character that `r` has as often as `f` is as frequent as before. -/
theorem count_replaceAll (hf : f ≠ []) {a : A} (h : r.count a = f.count a) (s : List A) :
    (replaceAll f r s).count a = s.count a := by
  induction s using replace_induction hf with
  | nil => rfl
  | found s ih => rw [replaceAll_found hf, List.count_append, List.count_append, ih, h]
  | kept c s hno ih => rw [replaceAll_cons hno, List.count_cons, List.count_cons, ih]

/-- A text without one of the characters of `f` stays. -/
theorem replaceAll_missing {a : A} {s : List A} (ha : a ∈ f) (h : a ∉ s) : replaceAll f r s = s := by
  induction s using replace_induction (List.ne_nil_of_mem ha) with
  | nil => rfl
  | found s _ => exact absurd (List.mem_append_left s ha) h
  | kept c s hno ih => rw [replaceAll_cons hno, ih fun hs => h (List.mem_cons_of_mem c hs)]

/-- A text without the first character of `f` stays. -/
theorem replaceAll_of_not_mem {a : A} {f s : List A} (h : a ∉ s) : replaceAll (a :: f) r s = s :=
  replaceAll_missing List.mem_cons_self h

theorem replaceAll_ne_nil (hf : f ≠ []) (hr : r ≠ []) {s : List A} (h : s ≠ []) : replaceAll f r s ≠ [] := by
  induction s using replace_induction hf with
  | nil => exact absurd rfl h
  | found s _ =>
    rw [replaceAll_found hf]
    exact List.append_ne_nil_of_left_ne_nil hr _
  | kept c s hno _ =>
    rw [replaceAll_cons hno]
    exact List.cons_ne_nil c _

/-- The last character is one of `r`, or it was the last one before. -/
theorem getLast?_replaceAll (hf : f ≠ []) (hr : r ≠ []) {a : A} (ha : a ∉ r) {s : List A}
    (h : (replaceAll f r s).getLast? = some a) : s.getLast? = some a := by
  induction s using replace_induction hf with
  | nil => exact h
  | found s ih =>
    rw [replaceAll_found hf, List.getLast?_append, Option.or_eq_some_iff] at h
    rcases h with h | ⟨-, h⟩
    · rw [List.getLast?_append, ih h]
      rfl
    · exact absurd (List.mem_of_getLast? h) ha
  | kept c s hno ih =>
    rw [replaceAll_cons hno] at h
    by_cases hs : s = []
    · rw [hs] at h ⊢
      exact h
    · obtain ⟨d, u, hu⟩ := List.exists_cons_of_ne_nil (replaceAll_ne_nil (r := r) hf hr hs)
      rw [hu, List.getLast?_cons_cons, ← hu] at h
      obtain ⟨e, v, rfl⟩ := List.exists_cons_of_ne_nil hs
      rw [List.getLast?_cons_cons, ih h]

theorem mem_replaceAll (hf : f ≠ []) {c : A} {s : List A} (h : c ∈ replaceAll f r s) : c ∈ r ∨ c ∈ s := by
  induction s using replace_induction hf with
  | nil => cases h
  | found s ih =>
    rw [replaceAll_found hf, List.mem_append] at h
    rcases h with hr | hs
    · exact .inl hr
    · exact (ih hs).imp_right (List.mem_append_right f)
  | kept d s hno ih =>
    rw [replaceAll_cons hno, List.mem_cons] at h
    rcases h with rfl | hs
    · exact .inr List.mem_cons_self
    · exact (ih hs).imp_right (List.mem_cons_of_mem d)

theorem replaceAll_single (a : A) (s : List A) :
    replaceAll [a] r s = s.flatMap fun c => if c = a then r else [c] := by
  induction s with
  | nil => rfl
  | cons c s ih =>
    rw [List.flatMap_cons, ← ih]
    by_cases hca : c = a
    · rw [hca, if_pos rfl]
      exact replaceAll_found (List.cons_ne_nil a []) s
    · rw [if_neg hca, replaceAll_cons]
      · rfl
      · rw [List.cons_prefix_cons]
        exact fun heq => hca heq.1.symm

/-- A text can be cut wherever no occurrence goes over the cut. -/
theorem replaceAll_append (hf : f ≠ []) {u v : List A}
    (huv : ∀ f₁ f₂, f = f₁ ++ f₂ → f₁ ≠ [] → f₂ ≠ [] → f₁ <:+ u → ¬ f₂ <+: v) :
    replaceAll f r (u ++ v) = replaceAll f r u ++ replaceAll f r v := by
  induction u using replace_induction hf with
  | nil => rfl
  | found u ih =>
    rw [List.append_assoc, replaceAll_found hf, replaceAll_found hf, ih, List.append_assoc]
    exact fun f₁ f₂ hsplit h₁ h₂ hu => huv f₁ f₂ hsplit h₁ h₂ (hu.trans (List.suffix_append f u))
  | kept c u hno ih =>
    have hno' : ¬ f <+: c :: (u ++ v) := by
      rintro ⟨x, hx⟩
      rw [← List.cons_append] at hx
      rcases List.append_eq_append_iff.1 hx with ⟨y, hy, -⟩ | ⟨y, hy, hv⟩
      · exact hno ⟨y, hy.symm⟩
      · by_cases hnil : y = []
        · rw [hnil, List.append_nil] at hy
          exact hno (hy ▸ List.prefix_refl _)
        · exact huv (c :: u) y hy (List.cons_ne_nil c u) hnil (List.suffix_refl _) ⟨x, hv.symm⟩
    rw [List.cons_append, replaceAll_cons hno', replaceAll_cons hno, List.cons_append, ih]
    exact fun f₁ f₂ hsplit h₁ h₂ hu => huv f₁ f₂ hsplit h₁ h₂ (hu.trans (List.suffix_cons c u))

/-- A text can be cut at a character that `f` does not have. -/
theorem replaceAll_append_cons (hf : f ≠ []) {d : A} (hd : d ∉ f) (u v : List A) :
    replaceAll f r (u ++ d :: v) = replaceAll f r u ++ d :: replaceAll f r v := by
  have hkept : replaceAll f r (d :: v) = d :: replaceAll f r v := by
    refine replaceAll_cons fun hpre => ?_
    obtain ⟨e, f', rfl⟩ := List.exists_cons_of_ne_nil hf
    rw [(List.cons_prefix_cons.1 hpre).1] at hd
    exact hd List.mem_cons_self
  rw [replaceAll_append hf, hkept]
  intro f₁ f₂ hsplit _ h₂ _ hpre
  obtain ⟨e, f₂, rfl⟩ := List.exists_cons_of_ne_nil h₂
  rw [hsplit, ← (List.cons_prefix_cons.1 hpre).1] at hd
  exact hd (List.mem_append_right f₁ List.mem_cons_self)

/-! ## Two characters -/

section Pair

variable {a b : A}

omit [DecidableEq A] in
theorem pair_prefix_iff {c : A} {s : List A} : [a, b] <+: c :: s ↔ a = c ∧ s.head? = some b := by
  rw [List.cons_prefix_cons]
  cases s with
  | nil => simp
  | cons d s =>
    rw [List.cons_prefix_cons, List.head?_cons, Option.some.injEq]
    exact ⟨fun h => ⟨h.1, h.2.1.symm⟩, fun h => ⟨h.1, h.2.symm, List.nil_prefix⟩⟩

/-- A text can be cut wherever the two characters do not stand at the cut. -/
theorem replaceAll_pair_append {u v : List A} (huv : u.getLast? = some a → v.head? ≠ some b) :
    replaceAll [a, b] r (u ++ v) = replaceAll [a, b] r u ++ replaceAll [a, b] r v := by
  refine replaceAll_append (List.cons_ne_nil a [b]) fun f₁ f₂ hsplit h₁ h₂ hu hv => ?_
  have hlen := congrArg List.length hsplit
  have hpos := List.length_pos_iff.2 h₁
  have hpos' := List.length_pos_iff.2 h₂
  simp only [List.length_append, List.length_cons, List.length_nil] at hlen
  -- the occurrence is cut between its two characters
  obtain ⟨rfl, rfl⟩ := List.append_inj (hsplit.symm.trans (List.singleton_append (l := [b])).symm)
    (by rw [List.length_singleton]; omega)
  obtain ⟨x, rfl⟩ := hu
  obtain ⟨y, rfl⟩ := hv
  exact huv (by simp) rfl

/-- Where each character becomes a text of its own, and the two stay what they are and are nowhere else,
    they can be replaced before or after. -/
theorem replaceAll_pair_flatMap {g : A → List A} (ha : g a = [a]) (hb : g b = [b]) (hr : r.flatMap g = r)
    (hno : ∀ c, c ≠ a → a ∉ g c) (hhead : ∀ c, c ≠ b → ∃ d ds, g c = d :: ds ∧ d ≠ b) (s : List A) :
    replaceAll [a, b] r (s.flatMap g) = (replaceAll [a, b] r s).flatMap g := by
  have hne : [a, b] ≠ [] := List.cons_ne_nil a [b]
  induction s using replace_induction hne with
  | nil => rfl
  | found s ih =>
    have hpair : ([a, b] ++ s).flatMap g = [a, b] ++ s.flatMap g := by
      rw [List.flatMap_append, List.flatMap_cons, List.flatMap_singleton, ha, hb]
      rfl
    rw [hpair, replaceAll_found hne, replaceAll_found hne, List.flatMap_append, hr, ih]
  | kept c s hkept ih =>
    rw [replaceAll_cons hkept, List.flatMap_cons, List.flatMap_cons, ← ih]
    by_cases hca : c = a
    · have hnext : (s.flatMap g).head? ≠ some b := by
        cases s with
        | nil => exact fun h => (by cases h)
        | cons d s =>
          have hdb : d ≠ b := by
            rintro rfl
            exact hkept (pair_prefix_iff.2 ⟨hca.symm, rfl⟩)
          obtain ⟨e, es, hge, heb⟩ := hhead d hdb
          rw [List.flatMap_cons, hge]
          exact fun h => heb (Option.some.inj h)
      rw [hca, ha, List.singleton_append, List.singleton_append, replaceAll_cons]
      rw [pair_prefix_iff]
      exact fun h => hnext h.2
    · have hlast : (g c).getLast? = some a → (s.flatMap g).head? ≠ some b :=
        fun h => absurd (List.mem_of_getLast? h) (hno c hca)
      rw [replaceAll_pair_append hlast, replaceAll_of_not_mem (hno c hca)]

end Pair

end LibEvmvc
