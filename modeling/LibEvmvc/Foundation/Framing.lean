import Mathlib.Data.List.Basic
import Mathlib.Data.List.Infix

set_option autoImplicit false

/-! # Framed streams

Values are written one after the other, and the reader cuts the first one off what it has as long as
there is a whole one. `Framing` asks that a written value is cut off as it is and that nothing is
cut off a part of one; then what the reader has found and what it keeps depend on the bytes it got,
and not on the pieces they came in (`Fed.feed`). -/

namespace LibEvmvc

/-- Values of type `α`, written as `β`s, and what the reader makes of them. -/
structure Framing (α β γ : Type) where
  enc : α → List β
  out : α → γ
  cut : List β → Option (γ × List β)
  cut_shorter : ∀ b c r, cut b = some (c, r) → r.length < b.length
  cut_enc : ∀ a r, cut (enc a ++ r) = some (out a, r)
  cut_partial : ∀ a b, b <+: enc a → b ≠ enc a → cut b = none

variable {α β γ : Type}

/-- Cut off as much as there is, in `fuel` steps at most. -/
def cutAll (cut : List β → Option (γ × List β)) : Nat → List β → List γ × List β
  | 0, b => ([], b)
  | fuel + 1, b =>
    match cut b with
    | none => ([], b)
    | some (c, r) => (c :: (cutAll cut fuel r).1, (cutAll cut fuel r).2)

namespace Framing

variable (F : Framing α β γ)

/-- The values as they are written. -/
def encAll (l : List α) : List β := l.flatMap F.enc

/-- The values that end in the first `n` places. -/
def complete : Nat → List α → List α
  | _, [] => []
  | n, a :: l => if (F.enc a).length ≤ n then a :: complete (n - (F.enc a).length) l else []

variable {F}

theorem encAll_cons (a : α) (l : List α) : F.encAll (a :: l) = F.enc a ++ F.encAll l :=
  List.flatMap_cons ..

theorem encAll_append (l l' : List α) : F.encAll (l ++ l') = F.encAll l ++ F.encAll l' :=
  List.flatMap_append ..

theorem enc_length_pos (a : α) : 0 < (F.enc a).length := by
  have h := F.cut_shorter _ _ _ (F.cut_enc a [])
  rw [List.append_nil] at h
  exact Nat.lt_of_le_of_lt (Nat.zero_le _) h

theorem cut_nil : F.cut [] = none := by
  cases h : F.cut [] with
  | none => rfl
  | some p => exact absurd (F.cut_shorter _ _ _ h) (Nat.not_lt_zero _)

/-- The loop does not end for want of steps. -/
theorem cut_cutAll (fuel : Nat) (b : List β) (hfuel : b.length ≤ fuel) :
    F.cut (cutAll F.cut fuel b).2 = none := by
  induction fuel generalizing b with
  | zero =>
    rw [List.length_eq_zero_iff.1 (Nat.le_zero.1 hfuel)]
    exact cut_nil
  | succ fuel ih =>
    rw [cutAll]
    cases hcut : F.cut b with
    | none => exact hcut
    | some p =>
      obtain ⟨c, r⟩ := p
      have hr := F.cut_shorter _ _ _ hcut
      exact ih r (by omega)

/-- Whole values are cut off, and what nothing can be cut off remains. -/
theorem cutAll_encAll (l : List α) {p : List β} (hp : F.cut p = none) {fuel : Nat}
    (hfuel : (F.encAll l ++ p).length ≤ fuel) :
    cutAll F.cut fuel (F.encAll l ++ p) = (l.map F.out, p) := by
  induction l generalizing fuel with
  | nil =>
    cases fuel with
    | zero => rfl
    | succ fuel =>
      show cutAll F.cut (fuel + 1) p = _
      rw [cutAll, hp]
      rfl
  | cons a l ih =>
    have hpos := enc_length_pos (F := F) a
    rw [encAll_cons, List.append_assoc, List.length_append] at hfuel
    obtain ⟨fuel, rfl⟩ : ∃ n, fuel = n + 1 := ⟨fuel - 1, by omega⟩
    rw [encAll_cons, List.append_assoc, cutAll, F.cut_enc]
    show (F.out a :: (cutAll F.cut fuel _).1, (cutAll F.cut fuel _).2) = _
    rw [ih (by omega)]
    rfl

/-- The beginning of a stream: the values that end in it, and a part of the next one. -/
theorem complete_split (l : List α) {D : List β} (hD : D <+: F.encAll l) :
    ∃ l' p, l = F.complete D.length l ++ l' ∧ D = F.encAll (F.complete D.length l) ++ p ∧
      p <+: F.encAll l' ∧ F.complete p.length l' = [] := by
  induction l generalizing D with
  | nil =>
    have hnil : D = [] := List.prefix_nil.1 hD
    subst hnil
    exact ⟨[], [], rfl, rfl, List.prefix_refl _, rfl⟩
  | cons a l ih =>
    rw [encAll_cons] at hD
    by_cases hlen : (F.enc a).length ≤ D.length
    · -- the first value is there
      obtain ⟨E, rfl⟩ := List.prefix_of_prefix_length_le (List.prefix_append _ _) hD hlen
      have hE := (List.prefix_append_right_inj _).1 hD
      obtain ⟨l', p, hl, hp, hpre, hnone⟩ := ih hE
      have hcomplete : F.complete (F.enc a ++ E).length (a :: l) = a :: F.complete E.length l := by
        rw [complete, if_pos hlen, List.length_append, Nat.add_sub_cancel_left]
      rw [hcomplete]
      refine ⟨l', p, ?_, ?_, hpre, hnone⟩
      · rw [List.cons_append, ← hl]
      · rw [encAll_cons, List.append_assoc, ← hp]
    · have hcomplete : F.complete D.length (a :: l) = [] := by rw [complete, if_neg hlen]
      rw [hcomplete]
      exact ⟨a :: l, D, rfl, rfl, by rw [encAll_cons]; exact hD, hcomplete⟩

/-- The beginning of a stream that no value ends in is a part of the first one. -/
theorem unfinished_cons {a : α} {l : List α} {p : List β} (hp : p <+: F.encAll (a :: l))
    (hnone : F.complete p.length (a :: l) = []) : p <+: F.enc a ∧ p ≠ F.enc a := by
  have hlen : ¬ (F.enc a).length ≤ p.length := by
    intro h
    rw [complete, if_pos h] at hnone
    cases hnone
  constructor
  · rw [encAll_cons] at hp
    exact List.prefix_of_prefix_length_le hp (List.prefix_append _ _) (by omega)
  · rintro rfl
    exact hlen (Nat.le_refl _)

theorem cut_unfinished {l : List α} {p : List β} (hp : p <+: F.encAll l)
    (hnone : F.complete p.length l = []) : F.cut p = none := by
  cases l with
  | nil =>
    rw [List.prefix_nil.1 hp]
    exact cut_nil
  | cons a l =>
    obtain ⟨hpre, hne⟩ := unfinished_cons hp hnone
    exact F.cut_partial a p hpre hne

theorem complete_append (l l' : List α) (n : Nat) :
    F.complete ((F.encAll l).length + n) (l ++ l') = l ++ F.complete n l' := by
  induction l with
  | nil =>
    show F.complete (0 + n) l' = F.complete n l'
    rw [Nat.zero_add]
  | cons a l ih =>
    have hlen : (F.enc a).length ≤ (F.encAll (a :: l)).length + n := by
      rw [encAll_cons, List.length_append]
      omega
    rw [List.cons_append, complete, if_pos hlen, List.cons_append, ← ih, encAll_cons,
      List.length_append]
    congr 2
    omega

variable (F)

/-- What a reader has found (`found`) and what it keeps (`buf`) of the beginning `D` of the stream
    `l`. -/
structure Fed (l : List α) (D : List β) (found : List γ) (buf : List β) : Prop where
  found_eq : found = (F.complete D.length l).map F.out
  split : D = F.encAll (F.complete D.length l) ++ buf
  waits : F.cut buf = none

variable {F}

theorem Fed.nil (l : List α) : F.Fed l [] [] [] := by
  have hnone : F.complete 0 l = [] := by
    cases l with
    | nil => rfl
    | cons a l =>
      have hpos := enc_length_pos (F := F) a
      rw [complete, if_neg (by omega)]
  have hnone' : F.complete ([] : List β).length l = [] := hnone
  exact ⟨by rw [hnone']; rfl, by rw [hnone']; rfl, cut_nil⟩

/-- **The next piece.** Whatever the piece is, what is cut off with it are the values that end in it. -/
theorem Fed.feed {l : List α} {D : List β} {found : List γ} {buf : List β}
    (h : F.Fed l D found buf) (c : List β) (hD : D ++ c <+: F.encAll l) {fuel : Nat}
    (hfuel : (buf ++ c).length ≤ fuel) :
    F.Fed l (D ++ c) (found ++ (cutAll F.cut fuel (buf ++ c)).1)
      (cutAll F.cut fuel (buf ++ c)).2 := by
  obtain ⟨l', p, hl, hp, hpre, hnone⟩ := complete_split l ((List.prefix_append D c).trans hD)
  have hbuf : p = buf := List.append_cancel_left (hp.symm.trans h.split)
  subst hbuf
  generalize hdone : F.complete D.length l = done at hl hp
  -- the piece goes on with the values that are not complete
  have hnext : p ++ c <+: F.encAll l' := by
    rw [hl, hp, encAll_append, List.append_assoc] at hD
    exact (List.prefix_append_right_inj _).1 hD
  obtain ⟨l'', q, hl', hq, hqpre, hqnone⟩ := complete_split l' hnext
  have hcomplete : F.complete (D ++ c).length l = done ++ F.complete (p ++ c).length l' := by
    rw [hp, List.append_assoc, List.length_append, hl, complete_append]
  have hqcut := cut_unfinished hqpre hqnone
  have hcut : cutAll F.cut fuel (p ++ c) = ((F.complete (p ++ c).length l').map F.out, q) := by
    rw [hq] at hfuel
    have hall := cutAll_encAll _ hqcut hfuel
    rw [← hq] at hall
    exact hall
  rw [hcut]
  refine ⟨?_, ?_, hqcut⟩
  · rw [hcomplete, List.map_append, h.found_eq, hdone]
  · rw [hcomplete, encAll_append, List.append_assoc, ← hq, ← List.append_assoc, ← hp]

/-- The values that were found, the ones to come, and what is there of the first of these. -/
theorem Fed.next {l : List α} {D : List β} {found : List γ} {buf : List β}
    (h : F.Fed l D found buf) (hD : D <+: F.encAll l) :
    ∃ done rest, l = done ++ rest ∧ found = done.map F.out ∧ D = F.encAll done ++ buf ∧
      (rest = [] → buf = []) ∧ ∀ a rest', rest = a :: rest' → buf <+: F.enc a ∧ buf ≠ F.enc a := by
  obtain ⟨rest, p, hl, hp, hpre, hnone⟩ := complete_split l hD
  have hbuf : p = buf := List.append_cancel_left (hp.symm.trans h.split)
  subst hbuf
  refine ⟨_, rest, hl, h.found_eq, hp, ?_, ?_⟩
  · rintro rfl
    exact List.prefix_nil.1 hpre
  · rintro a rest' rfl
    exact unfinished_cons hpre hnone

/-- A stream of whole values with a part of one more at its end. -/
theorem Fed.found_of_unfinished {l l' : List α} {p : List β} {found : List γ} {buf : List β}
    (hnone : F.complete p.length l' = []) (h : F.Fed (l ++ l') (F.encAll l ++ p) found buf) :
    found = l.map F.out ∧ buf = p := by
  have hdone : F.complete (F.encAll l ++ p).length (l ++ l') = l := by
    rw [List.length_append, complete_append, hnone, List.append_nil]
  have hsplit := h.split
  rw [hdone] at hsplit
  refine ⟨by rw [h.found_eq, hdone], (List.append_cancel_left hsplit).symm⟩

/-- No value ends in a part of one. -/
theorem complete_partial {a : α} {p : List β} (hp : p <+: F.enc a) (hne : p ≠ F.enc a) :
    F.complete p.length [a] = [] := by
  rw [complete, if_neg]
  intro hlen
  exact hne (hp.eq_of_length (Nat.le_antisymm hp.length_le hlen))

end Framing

end LibEvmvc
