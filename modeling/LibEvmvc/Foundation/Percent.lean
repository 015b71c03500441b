import LibEvmvc.Foundation.Chunked

set_option autoImplicit false

/-! # Percent-decoding

Every `%` with two hexadecimal digits is the byte they stand for, and all other bytes stay. Where the
bytes of a kind that are no part of an escape are taken out before a text is decoded, what is decoded gets
shorter (`length_percentDecode_filter`): an escape may appear, and none goes. -/

namespace LibEvmvc

/-- The byte that two digits stand for. -/
def hexPair? (a b : UInt8) : Option UInt8 :=
  match hexVal? a, hexVal? b with
  | some h, some l => some (UInt8.ofNat (16 * h + l))
  | _, _ => none

def percentDecode : Bytes → Bytes
  | [] => []
  | [a] => [a]
  | [a, b] => [a, b]
  | c :: a :: b :: t =>
    match if c = 37 then hexPair? a b else none with
    | some v => v :: percentDecode t
    | none => c :: percentDecode (a :: b :: t)

theorem hexPair?_ne {a b v d : UInt8} (h : hexPair? a b = some v) (hd : hexVal? d = none) :
    a ≠ d ∧ b ≠ d := by
  constructor
  · rintro rfl
    rw [hexPair?, hd] at h
    cases h
  · rintro rfl
    rw [hexPair?, hd] at h
    cases ha : hexVal? a with
    | none =>
      rw [ha] at h
      cases h
    | some x =>
      rw [ha] at h
      cases h

/-- A text that begins with an escape. -/
theorem percentDecode_escape {a b v : UInt8} (h : hexPair? a b = some v) (t : Bytes) :
    percentDecode (37 :: a :: b :: t) = v :: percentDecode t := by
  rw [percentDecode, if_pos rfl, h]

/-- A byte that begins no escape stays. -/
theorem percentDecode_cons {c : UInt8} {t : Bytes}
    (h : ∀ a b r, t = a :: b :: r → c = 37 → hexPair? a b = none) :
    percentDecode (c :: t) = c :: percentDecode t := by
  rcases t with _ | ⟨a, _ | ⟨b, t⟩⟩
  · rfl
  · rfl
  · rw [percentDecode]
    by_cases hc : c = 37
    · rw [if_pos hc, h a b t rfl hc]
    · rw [if_neg hc]

theorem percentDecode_plain {c : UInt8} (hc : c ≠ 37) (t : Bytes) :
    percentDecode (c :: t) = c :: percentDecode t :=
  percentDecode_cons fun _ _ _ _ h => absurd h hc

/-- From the left to the right, an escape or a byte at a time. -/
theorem percent_induction {P : Bytes → Prop} (nil : P [])
    (escape : ∀ a b v t, hexPair? a b = some v → P t → P (37 :: a :: b :: t))
    (plain : ∀ c t, (∀ a b r, t = a :: b :: r → c = 37 → hexPair? a b = none) → P t → P (c :: t))
    (s : Bytes) : P s := by
  induction hlen : s.length using Nat.strong_induction_on generalizing s with
  | _ n ih =>
    subst hlen
    cases s with
    | nil => exact nil
    | cons c t =>
      by_cases h : ∀ a b r, t = a :: b :: r → c = 37 → hexPair? a b = none
      · exact plain c t h (ih t.length (Nat.lt_succ_self _) t rfl)
      · push Not at h
        obtain ⟨a, b, r, rfl, rfl, hpair⟩ := h
        obtain ⟨v, hv⟩ := Option.ne_none_iff_exists'.1 hpair
        exact escape a b v r hv (ih r.length (by simp only [List.length_cons]; omega) r rfl)

/-- One byte more makes at most one byte more. -/
theorem length_percentDecode_cons (c : UInt8) (t : Bytes) :
    (percentDecode (c :: t)).length ≤ (percentDecode t).length + 1 := by
  by_cases h : ∀ a b r, t = a :: b :: r → c = 37 → hexPair? a b = none
  · rw [percentDecode_cons h, List.length_cons]
  · push Not at h
    obtain ⟨a, b, r, rfl, rfl, hpair⟩ := h
    obtain ⟨v, hv⟩ := Option.ne_none_iff_exists'.1 hpair
    -- the digits of an escape begin none themselves
    obtain ⟨ha, hb⟩ := hexPair?_ne hv (d := 37) (by decide)
    rw [percentDecode_escape hv, percentDecode_plain ha, percentDecode_plain hb]
    simp only [List.length_cons]
    omega

theorem percentDecode_eq_nil_iff {s : Bytes} : percentDecode s = [] ↔ s = [] := by
  constructor
  · intro h
    induction s using percent_induction with
    | nil => rfl
    | escape a b v t hv _ =>
      rw [percentDecode_escape hv] at h
      cases h
    | plain c t hc _ =>
      rw [percentDecode_cons hc] at h
      cases h
  · rintro rfl
    rfl

/-- Without the bytes that are equal to `d`, the decoded text is shorter by their number at least. -/
theorem length_percentDecode_filter {d : UInt8} (hd : hexVal? d = none) (hne : d ≠ 37) (s : Bytes) :
    (percentDecode (s.filter (· ≠ d))).length + s.count d ≤ (percentDecode s).length := by
  induction s using percent_induction with
  | nil => exact Nat.le_refl 0
  | escape a b v t hv ih =>
    obtain ⟨ha, hb⟩ := hexPair?_ne hv hd
    have hfilter : (37 :: a :: b :: t).filter (· ≠ d) = 37 :: a :: b :: t.filter (· ≠ d) := by
      simp [ha, hb, hne.symm]
    have hcount : (37 :: a :: b :: t).count d = t.count d := by
      rw [List.count_cons_of_ne hne.symm, List.count_cons_of_ne ha, List.count_cons_of_ne hb]
    rw [hfilter, hcount, percentDecode_escape hv, percentDecode_escape hv, List.length_cons,
      List.length_cons]
    omega
  | plain c t hc ih =>
    rw [percentDecode_cons hc, List.length_cons]
    by_cases hcd : c = d
    · rw [List.filter_cons_of_neg (by simp [hcd]), hcd, List.count_cons_self]
      omega
    · have hstep := length_percentDecode_cons c (t.filter (· ≠ d))
      rw [List.filter_cons_of_pos (by simp [hcd]), List.count_cons_of_ne hcd]
      omega

end LibEvmvc
