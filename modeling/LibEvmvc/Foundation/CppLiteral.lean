import LibEvmvc.Foundation.Bytes
import Mathlib.Algebra.Order.Ring.Nat

set_option autoImplicit false

/-! # String literals of C++

Adjacent string literals denote one text: between the quotes a backslash begins an escape sequence, and
other characters stand for themselves, but no literal goes over the end of a line. `literalText` reads
such a sequence. Reading is line by line, and a quote or a backslash of the text costs two characters
(`outside_line`). -/

namespace LibEvmvc

namespace CppLiteral

/-! ## Escape sequences -/

def isOctDigit (c : UInt8) : Bool := 48 ≤ c && c ≤ 55

def isHexDigit (c : UInt8) : Bool := (48 ≤ c && c ≤ 57) || (65 ≤ c && c ≤ 70) || (97 ≤ c && c ≤ 102)

def digitValue (c : UInt8) : Nat :=
  if c ≤ 57 then c.toNat - 48 else if c ≤ 70 then c.toNat - 55 else c.toNat - 87

def digitsValue (base : Nat) (ds : Bytes) : Nat := ds.foldl (fun v c => base * v + digitValue c) 0

/-- The simple escape sequences: `\'`, `\"`, `\?`, `\\`, and `\a` to `\v`. -/
def simpleEscapes : List (UInt8 × UInt8) :=
  [(39, 39), (34, 34), (63, 63), (92, 92), (97, 7), (98, 8), (102, 12), (110, 10), (114, 13), (116, 9),
    (118, 11)]

def simpleEscape (c : UInt8) : Option UInt8 := simpleEscapes.lookup c

/-- A value that a character can have. -/
def charOf (v : Nat) : Option UInt8 := if v < 256 then some (UInt8.ofNat v) else none

/-- The character of an escape sequence from behind the backslash, and what is behind it. -/
def readEscape : Bytes → Option (UInt8 × Bytes)
  | [] => none
  | c :: cs =>
    if c = 120 then
      let ds := cs.takeWhile isHexDigit
      if ds = [] then none else (charOf (digitsValue 16 ds)).map (·, cs.drop ds.length)
    else if isOctDigit c then
      let ds := (cs.takeWhile isOctDigit).take 2
      (charOf (digitsValue 8 (c :: ds))).map (·, cs.drop ds.length)
    else (simpleEscape c).map (·, cs)

/-! ## Literals -/

/-- The text of literals, from inside one of them or from outside. -/
def literalsLoop : Nat → Bool → Bytes → Option Bytes
  | _, false, [] => some []
  | _, true, [] => none
  | 0, _, _ :: _ => none
  | fuel + 1, false, c :: cs =>
    if c = 34 then literalsLoop fuel true cs else if isspace c then literalsLoop fuel false cs else none
  | fuel + 1, true, c :: cs =>
    if c = 34 then literalsLoop fuel false cs
    else if c = 10 then none
    else if c = 92 then
      match readEscape cs with
      | none => none
      | some (d, rest) => (literalsLoop fuel true rest).map (d :: ·)
    else (literalsLoop fuel true cs).map (c :: ·)

/-- The text of a sequence of literals with white space between them. -/
def literalText (w : Bytes) : Option Bytes := literalsLoop w.length false w

/-- The rest of a sequence of literals from inside a literal. -/
def inside (w : Bytes) : Option Bytes := literalsLoop w.length true w

section Equations

theorem readEscape_length {w rest : Bytes} {d : UInt8} (h : readEscape w = some (d, rest)) :
    rest.length < w.length := by
  cases w with
  | nil => cases h
  | cons c cs =>
    have hdrop (k : Nat) : (cs.drop k).length < (c :: cs).length := by
      rw [List.length_drop, List.length_cons]
      omega
    rw [readEscape] at h
    split at h
    · dsimp only at h
      split at h
      · cases h
      · obtain ⟨_, -, heq⟩ := Option.map_eq_some_iff.1 h
        cases heq
        exact hdrop _
    · split at h
      · obtain ⟨_, -, heq⟩ := Option.map_eq_some_iff.1 h
        cases heq
        exact hdrop _
      · obtain ⟨_, -, heq⟩ := Option.map_eq_some_iff.1 h
        cases heq
        exact hdrop 0

/-- More steps than characters are not needed. -/
theorem literalsLoop_fuel (fuel : Nat) (inLiteral : Bool) (w : Bytes) (h : w.length ≤ fuel) :
    literalsLoop fuel inLiteral w = literalsLoop w.length inLiteral w := by
  induction fuel using Nat.strong_induction_on generalizing inLiteral w with
  | _ fuel ih =>
    cases w with
    | nil =>
      cases inLiteral with
      | false => rw [literalsLoop, literalsLoop]
      | true => rw [literalsLoop, literalsLoop]
    | cons c cs =>
      rw [List.length_cons] at h
      obtain ⟨fuel, rfl⟩ : ∃ f, fuel = f + 1 := ⟨fuel - 1, by omega⟩
      have hsame (b : Bool) : literalsLoop fuel b cs = literalsLoop cs.length b cs :=
        ih fuel (Nat.lt_succ_self _) b cs (Nat.le_of_succ_le_succ h)
      rw [List.length_cons]
      cases inLiteral with
      | false => rw [literalsLoop, literalsLoop, hsame, hsame]
      | true =>
        rw [literalsLoop, literalsLoop, hsame, hsame]
        cases hread : readEscape cs with
        | none => rfl
        | some r =>
          obtain ⟨d, rest⟩ := r
          have hlen := readEscape_length hread
          have hrest : literalsLoop fuel true rest = literalsLoop rest.length true rest :=
            ih fuel (Nat.lt_succ_self _) true rest (by omega)
          have hrest' : literalsLoop cs.length true rest = literalsLoop rest.length true rest :=
            ih cs.length (by omega) true rest (by omega)
          simp only [hrest, hrest']

@[simp] theorem literalText_nil : literalText [] = some [] := rfl

@[simp] theorem inside_nil : inside [] = none := rfl

theorem literalText_cons (c : UInt8) (cs : Bytes) :
    literalText (c :: cs) = if c = 34 then inside cs else if isspace c then literalText cs else none := rfl

theorem inside_cons (c : UInt8) (cs : Bytes) : inside (c :: cs) =
    if c = 34 then literalText cs
    else if c = 10 then none
    else if c = 92 then (readEscape cs).bind fun r => (inside r.2).map (r.1 :: ·)
    else (inside cs).map (c :: ·) := by
  unfold inside literalText
  rw [List.length_cons, literalsLoop]
  cases hread : readEscape cs with
  | none => rfl
  | some r =>
    obtain ⟨d, rest⟩ := r
    have hlen := readEscape_length hread
    simp only [Option.bind_some, literalsLoop_fuel cs.length true rest (Nat.le_of_lt hlen)]

@[simp] theorem literalText_quote (cs : Bytes) : literalText (34 :: cs) = inside cs := rfl

@[simp] theorem inside_quote (cs : Bytes) : inside (34 :: cs) = literalText cs := by
  rw [inside_cons, if_pos rfl]

/-- An ordinary character stands for itself. -/
theorem inside_plain {c : UInt8} (hquote : c ≠ 34) (hline : c ≠ 10) (hslash : c ≠ 92) (cs : Bytes) :
    inside (c :: cs) = (inside cs).map (c :: ·) := by
  rw [inside_cons, if_neg hquote, if_neg hline, if_neg hslash]

/-- A simple escape sequence stands for its character. -/
theorem inside_escape {c d : UInt8} (h : simpleEscape c = some d) (cs : Bytes) :
    inside (92 :: c :: cs) = (inside cs).map (d :: ·) := by
  have hother : ∀ e ∈ simpleEscapes, e.1 ≠ 120 ∧ isOctDigit e.1 = false := forall_mem_of_all (by decide)
  obtain ⟨l, r, hsplit, -⟩ := List.lookup_eq_some_iff.1 h
  obtain ⟨hhex, hoct⟩ := hother (c, d) (by simp [hsplit])
  have hread : readEscape (c :: cs) = some (d, cs) := by
    rw [readEscape, if_neg hhex, hoct, h]
    rfl
  rw [inside_cons, if_neg (by decide), if_neg (by decide), if_pos rfl, hread]
  rfl

end Equations

/-! ## A line at a time -/

section Lines

/-- What a character costs at least in a literal. -/
def cost (c : UInt8) : Nat := if c = 34 ∨ c = 92 then 2 else 1

def textCost (t : Bytes) : Nat := (t.map cost).sum

theorem textCost_cons (c : UInt8) (t : Bytes) : textCost (c :: t) = cost c + textCost t := rfl

theorem textCost_append (t t' : Bytes) : textCost (t ++ t') = textCost t + textCost t' := by
  rw [textCost, List.map_append, List.sum_append]
  rfl

theorem cost_le (c : UInt8) : cost c ≤ 2 := by
  unfold cost
  split <;> omega

theorem takeWhile_line {p : UInt8 → Bool} (hp : p 10 = false) (u v : Bytes) :
    (u ++ 10 :: v).takeWhile p = u.takeWhile p := by
  induction u with
  | nil => exact List.takeWhile_cons_of_neg (by simp [hp])
  | cons c u ih =>
    rw [List.cons_append, List.takeWhile_cons, List.takeWhile_cons, ih]

/-- An escape sequence does not go over the end of a line. -/
theorem readEscape_line {u v rest : Bytes} {d : UInt8} (hu : 10 ∉ u)
    (h : readEscape (u ++ 10 :: v) = some (d, rest)) :
    ∃ u', rest = u' ++ 10 :: v ∧ 10 ∉ u' ∧ u'.length < u.length := by
  cases u with
  | nil => cases h
  | cons c u =>
    have hdrop {k : Nat} (hk : k ≤ u.length) : ∃ u', (u ++ 10 :: v).drop k = u' ++ 10 :: v ∧ 10 ∉ u' ∧
        u'.length < (c :: u).length := by
      refine ⟨u.drop k, List.drop_append_of_le_length hk, ?_, ?_⟩
      · exact fun hmem => hu (List.mem_cons_of_mem c (List.mem_of_mem_drop hmem))
      · rw [List.length_drop, List.length_cons]
        omega
    have hdigits (p : UInt8 → Bool) : (u.takeWhile p).length ≤ u.length :=
      (List.takeWhile_prefix p).length_le
    rw [List.cons_append, readEscape, takeWhile_line (by decide), takeWhile_line (by decide)] at h
    split at h
    · dsimp only at h
      split at h
      · cases h
      · obtain ⟨_, -, heq⟩ := Option.map_eq_some_iff.1 h
        cases heq
        exact hdrop (hdigits _)
    · split at h
      · obtain ⟨_, -, heq⟩ := Option.map_eq_some_iff.1 h
        cases heq
        refine hdrop (Nat.le_trans ?_ (hdigits isOctDigit))
        rw [List.length_take]
        exact Nat.min_le_right 2 _
      · obtain ⟨_, -, heq⟩ := Option.map_eq_some_iff.1 h
        cases heq
        exact hdrop (Nat.zero_le _)

/-- The literals up to the end of a line, and those behind it. -/
theorem literals_line {u v : Bytes} (hu : 10 ∉ u) :
    (∀ t, literalText (u ++ 10 :: v) = some t → ∃ t₁ t₂, t = t₁ ++ t₂ ∧ literalText v = some t₂ ∧
      textCost t₁ ≤ u.length) ∧
    ∀ t, inside (u ++ 10 :: v) = some t → ∃ t₁ t₂, t = t₁ ++ t₂ ∧ literalText v = some t₂ ∧
      textCost t₁ + 1 ≤ u.length := by
  induction hlen : u.length using Nat.strong_induction_on generalizing u with
  | _ n ih =>
    subst hlen
    cases u with
    | nil =>
      constructor
      · intro t ht
        exact ⟨[], t, rfl, ht, Nat.le_refl 0⟩
      · intro t ht
        cases ht
    | cons c u =>
      rw [List.mem_cons, not_or] at hu
      obtain ⟨hout, hin⟩ := ih u.length (Nat.lt_succ_self _) hu.2 rfl
      rw [List.cons_append, List.length_cons]
      constructor
      · intro t ht
        rw [literalText_cons] at ht
        split at ht
        · obtain ⟨t₁, t₂, heq, hrest, hle⟩ := hin t ht
          exact ⟨t₁, t₂, heq, hrest, by omega⟩
        · split at ht
          · obtain ⟨t₁, t₂, heq, hrest, hle⟩ := hout t ht
            exact ⟨t₁, t₂, heq, hrest, by omega⟩
          · cases ht
      · intro t ht
        rw [inside_cons] at ht
        by_cases hquote : c = 34
        · rw [if_pos hquote] at ht
          obtain ⟨t₁, t₂, heq, hrest, hle⟩ := hout t ht
          exact ⟨t₁, t₂, heq, hrest, by omega⟩
        · rw [if_neg hquote, if_neg (Ne.symm hu.1)] at ht
          by_cases hslash : c = 92
          · rw [if_pos hslash] at ht
            obtain ⟨⟨d, rest⟩, hread, ht⟩ := Option.bind_eq_some_iff.1 ht
            obtain ⟨u', rfl, hu', hshort⟩ := readEscape_line hu.2 hread
            obtain ⟨t', ht', rfl⟩ := Option.map_eq_some_iff.1 ht
            obtain ⟨t₁, t₂, rfl, hrest, hle⟩ := (ih u'.length (by rw [List.length_cons]; omega) hu' rfl).2 t' ht'
            have hd := cost_le d
            exact ⟨d :: t₁, t₂, rfl, hrest, by rw [textCost_cons]; omega⟩
          · rw [if_neg hslash] at ht
            obtain ⟨t', ht', rfl⟩ := Option.map_eq_some_iff.1 ht
            obtain ⟨t₁, t₂, rfl, hrest, hle⟩ := hin t' ht'
            have hc : cost c = 1 := if_neg (by simp [hquote, hslash])
            exact ⟨c :: t₁, t₂, rfl, hrest, by rw [textCost_cons]; omega⟩

end Lines

end CppLiteral

end LibEvmvc
