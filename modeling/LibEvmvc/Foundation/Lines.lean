import LibEvmvc.Foundation.Bytes

set_option autoImplicit false

/-! # Lines ended by CRLF

`eolAt` finds the first line end, `splitCrlf` cuts a text at every one of them. A text that holds no
line end of its own can be followed by one and be read back (`splitCrlf_line`), even
if it ends in a lone CR. -/

namespace LibEvmvc

def crlf : Bytes := [13, 10]

/-- Where the first CRLF begins. -/
def eolAt : Bytes → Option Nat
  | a :: b :: rest => if a = 13 ∧ b = 10 then some 0 else (eolAt (b :: rest)).map (· + 1)
  | _ => none

theorem eolAt_cons (a b : UInt8) (rest : Bytes) :
    eolAt (a :: b :: rest) = if a = 13 ∧ b = 10 then some 0 else (eolAt (b :: rest)).map (· + 1) := rfl

/-- The text holds no CRLF. -/
def NoCrlf (b : Bytes) : Prop := eolAt b = none

instance (b : Bytes) : Decidable (NoCrlf b) := inferInstanceAs (Decidable (eolAt b = none))

theorem noCrlf_nil : NoCrlf [] := rfl

theorem noCrlf_single (a : UInt8) : NoCrlf [a] := rfl

theorem noCrlf_cons (a b : UInt8) (rest : Bytes) :
    NoCrlf (a :: b :: rest) ↔ ¬ (a = 13 ∧ b = 10) ∧ NoCrlf (b :: rest) := by
  unfold NoCrlf
  rw [eolAt_cons]
  split
  · next h => simp [h]
  · next h => simp [h]

/-- A tail of a text without CRLF has none. -/
theorem NoCrlf.tail {a : UInt8} {b : Bytes} (h : NoCrlf (a :: b)) : NoCrlf b := by
  cases b with
  | nil => exact noCrlf_nil
  | cons c rest => exact ((noCrlf_cons a c rest).1 h).2

theorem NoCrlf.append_left {a b : Bytes} (h : NoCrlf (a ++ b)) : NoCrlf a := by
  induction a with
  | nil => exact noCrlf_nil
  | cons x a ih =>
    cases a with
    | nil => exact noCrlf_single x
    | cons y a =>
      obtain ⟨hxy, hrest⟩ := (noCrlf_cons x y (a ++ b)).1 h
      exact (noCrlf_cons x y a).2 ⟨hxy, ih hrest⟩

theorem NoCrlf.append_right {a b : Bytes} (h : NoCrlf (a ++ b)) : NoCrlf b := by
  induction a with
  | nil => exact h
  | cons x a ih => exact ih h.tail

theorem noCrlf_of_noCr {b : Bytes} (h : ∀ c ∈ b, c ≠ 13) : NoCrlf b := by
  induction b with
  | nil => exact noCrlf_nil
  | cons x b ih =>
    have hrest := ih fun c hc => h c (List.mem_cons_of_mem _ hc)
    cases b with
    | nil => exact noCrlf_single x
    | cons y b =>
      exact (noCrlf_cons x y b).2 ⟨fun hxy => h x (List.mem_cons_self ..) hxy.1, hrest⟩

/-- Two texts without CRLF can be joined unless the line end falls on the seam. -/
theorem NoCrlf.append {a b : Bytes} (ha : NoCrlf a) (hb : NoCrlf b)
    (hseam : a.getLast? ≠ some 13 ∨ b.head? ≠ some 10) : NoCrlf (a ++ b) := by
  induction a with
  | nil => exact hb
  | cons x a ih =>
    cases a with
    | nil =>
      cases b with
      | nil => exact noCrlf_single x
      | cons y b =>
        refine (noCrlf_cons x y b).2 ⟨?_, hb⟩
        rintro ⟨rfl, rfl⟩
        simp at hseam
    | cons y a =>
      obtain ⟨hxy, hrest⟩ := (noCrlf_cons x y a).1 ha
      refine (noCrlf_cons x y (a ++ b)).2 ⟨hxy, ih hrest ?_⟩
      simpa using hseam

/-- A line that is not yet ended holds no CRLF. -/
theorem NoCrlf.of_unfinished {l t u : Bytes} (hl : NoCrlf l) (htu : t ++ u = l ++ crlf)
    (hu : u ≠ []) : NoCrlf t := by
  obtain ⟨v, x, rfl⟩ := (List.eq_nil_or_concat u).resolve_left hu
  have hline : t ++ v = l ++ [13] := by
    have hcut : (t ++ v) ++ [x] = (l ++ [13]) ++ [10] := by simpa [crlf] using htu
    exact (List.append_inj' hcut rfl).1
  have hno : NoCrlf (l ++ [13]) := hl.append (noCrlf_single 13) (Or.inr (by simp))
  rw [← hline] at hno
  exact hno.append_left

/-- The beginning of a text that starts with CRLF has this one or none. -/
theorem noCrlf_or_crlf {b b' rest : Bytes} (h : b ++ b' = crlf ++ rest) :
    NoCrlf b ∨ ∃ rest', b = crlf ++ rest' := by
  rcases List.append_eq_append_iff.1 h with ⟨u, hu, -⟩ | ⟨rest', hrest', -⟩
  · by_cases hnil : u = []
    · exact Or.inr ⟨[], by rw [hu, hnil, List.append_nil, List.append_nil]⟩
    · exact Or.inl (noCrlf_nil.of_unfinished hu.symm hnil)
  · exact Or.inr ⟨rest', hrest'⟩

/-- The text before the first CRLF is a line of its own. -/
theorem eolAt_some {b : Bytes} {n : Nat} (h : eolAt b = some n) :
    ∃ l rest, b = l ++ 13 :: 10 :: rest ∧ l.length = n ∧ NoCrlf l := by
  induction b generalizing n with
  | nil => cases h
  | cons x b ih =>
    cases b with
    | nil => cases h
    | cons y b =>
      rw [eolAt_cons] at h
      split at h
      · next hxy =>
        obtain ⟨rfl, rfl⟩ := hxy
        cases h
        exact ⟨[], b, rfl, rfl, noCrlf_nil⟩
      · next hxy =>
        obtain ⟨k, hk, rfl⟩ := Option.map_eq_some_iff.1 h
        obtain ⟨l, rest, hb, hlen, hl⟩ := ih hk
        refine ⟨x :: l, rest, by rw [hb]; rfl, by simp [hlen], ?_⟩
        cases l with
        | nil => exact noCrlf_single x
        | cons z l =>
          obtain rfl : y = z := by simpa using congrArg List.head? hb
          exact (noCrlf_cons x y l).2 ⟨hxy, hl⟩

/-- Cut a text at every CRLF: the lines it ends, and what follows the last one. -/
def splitCrlf : Bytes → List Bytes × Bytes
  | [] => ([], [])
  | 13 :: 10 :: rest => ([] :: (splitCrlf rest).1, (splitCrlf rest).2)
  | c :: rest =>
    match splitCrlf rest with
    | ([], t) => ([], c :: t)
    | (l :: ls, t) => ((c :: l) :: ls, t)

theorem splitCrlf_crlf (rest : Bytes) :
    splitCrlf (13 :: 10 :: rest) = ([] :: (splitCrlf rest).1, (splitCrlf rest).2) := rfl

theorem splitCrlf_cons {c : UInt8} {rest : Bytes} (h : ¬ (c = 13 ∧ rest.head? = some 10)) :
    splitCrlf (c :: rest) =
      match splitCrlf rest with
      | ([], t) => ([], c :: t)
      | (l :: ls, t) => ((c :: l) :: ls, t) := by
  rw [splitCrlf]
  rintro r rfl rfl
  exact h ⟨rfl, rfl⟩

theorem splitCrlf_line {l : Bytes} (hl : NoCrlf l) (rest : Bytes) :
    splitCrlf (l ++ 13 :: 10 :: rest) = (l :: (splitCrlf rest).1, (splitCrlf rest).2) := by
  induction l with
  | nil => exact splitCrlf_crlf rest
  | cons c l ih =>
    rw [List.cons_append, splitCrlf_cons, ih hl.tail]
    rintro ⟨rfl, hhead⟩
    cases l with
    | nil => simp at hhead
    | cons d l =>
      obtain rfl : d = 10 := by simpa using hhead
      exact ((noCrlf_cons 13 10 l).1 hl).1 ⟨rfl, rfl⟩

theorem splitCrlf_noCrlf {t : Bytes} (ht : NoCrlf t) : splitCrlf t = ([], t) := by
  induction t with
  | nil => rfl
  | cons c t ih =>
    rw [splitCrlf_cons, ih ht.tail]
    rintro ⟨rfl, hhead⟩
    cases t with
    | nil => simp at hhead
    | cons d t =>
      obtain rfl : d = 10 := by simpa using hhead
      exact ((noCrlf_cons 13 10 t).1 ht).1 ⟨rfl, rfl⟩

/-- A text that holds a CRLF has a first line. -/
theorem splitCrlf_first {b : Bytes} (h : ¬ NoCrlf b) : ∃ l ls, (splitCrlf b).1 = l :: ls := by
  obtain ⟨n, hn⟩ := Option.ne_none_iff_exists'.1 h
  obtain ⟨l, rest, rfl, -, hl⟩ := eolAt_some hn
  exact ⟨l, _, by rw [splitCrlf_line hl]⟩

/-- What follows the last line end matters only for the rest. -/
theorem splitCrlf_lines {ls : List Bytes} (hls : ∀ l ∈ ls, NoCrlf l) (rest : Bytes) :
    splitCrlf (ls.flatMap (· ++ crlf) ++ rest) = (ls ++ (splitCrlf rest).1, (splitCrlf rest).2) := by
  induction ls with
  | nil => simp
  | cons l ls ih =>
    have hl : NoCrlf l := hls l (List.mem_cons_self ..)
    have hcut : (l :: ls).flatMap (· ++ crlf) ++ rest
        = l ++ 13 :: 10 :: (ls.flatMap (· ++ crlf) ++ rest) := by simp [crlf]
    rw [hcut, splitCrlf_line hl, ih fun l' h' => hls l' (List.mem_cons_of_mem _ h')]
    rfl

theorem splitCrlf_first_prefix {b l t : Bytes} {ls : List Bytes} (h : splitCrlf b = (l :: ls, t)) :
    l <+: b := by
  induction b using splitCrlf.induct generalizing l ls t with
  | case1 => cases h
  | case2 rest ih =>
    rw [splitCrlf_crlf] at h
    cases h
    exact List.nil_prefix
  | case3 c rest hne t' hsplit ih =>
    rw [splitCrlf, hsplit] at h
    · cases h
    · exact hne
  | case4 c rest hne l' ls' t' hsplit ih =>
    rw [splitCrlf, hsplit] at h
    · cases h
      exact List.cons_prefix_cons.2 ⟨rfl, ih hsplit⟩
    · exact hne

/-- No line holds a line end. -/
theorem noCrlf_of_mem_splitCrlf (b : Bytes) : ∀ l ∈ (splitCrlf b).1, NoCrlf l := by
  induction b using splitCrlf.induct with
  | case1 => exact fun l hl => absurd hl List.not_mem_nil
  | case2 rest ih =>
    rw [splitCrlf_crlf]
    intro l hl
    rcases List.mem_cons.1 hl with rfl | hmem
    · exact noCrlf_nil
    · exact ih l hmem
  | case3 c rest hne t hsplit ih =>
    rw [splitCrlf, hsplit]
    · simp
    · exact hne
  | case4 c rest hne l ls t hsplit ih =>
    rw [splitCrlf, hsplit]
    · rw [hsplit] at ih
      intro l' hl'
      rcases List.mem_cons.1 hl' with rfl | hmem
      · have hl := ih l (List.mem_cons_self ..)
        cases l with
        | nil => exact noCrlf_single c
        | cons d l =>
          refine (noCrlf_cons c d l).2 ⟨?_, hl⟩
          rintro ⟨rfl, rfl⟩
          obtain ⟨u, hu⟩ := splitCrlf_first_prefix hsplit
          exact hne (l ++ u) rfl hu.symm
      · exact ih l' (List.mem_cons_of_mem _ hmem)
    · exact hne

/-- Lines and what follows the last of them, as they stand in the buffer. -/
def unsplit (lines : List Bytes) (tail : Bytes) : Bytes := lines.flatMap (· ++ crlf) ++ tail

theorem unsplit_cons (l : Bytes) (ls : List Bytes) (tail : Bytes) :
    unsplit (l :: ls) tail = l ++ crlf ++ unsplit ls tail := by
  simp [unsplit]

theorem unsplit_append (ls ls' : List Bytes) (tail : Bytes) :
    unsplit (ls ++ ls') tail = unsplit ls (unsplit ls' tail) := by
  simp [unsplit]

theorem unsplit_tail (ls : List Bytes) (tail : Bytes) :
    unsplit ls tail = unsplit ls [] ++ tail := by
  simp [unsplit]

end LibEvmvc
