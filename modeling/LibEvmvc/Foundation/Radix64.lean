import Mathlib.Algebra.Order.Ring.Nat
import Mathlib.Data.List.Nodup
import LibEvmvc.Foundation.Bytes

set_option autoImplicit false

/-! # Bytes as numbers of six bits

Three bytes are four numbers below 64; one or two bytes at the end are two or three numbers, whose
last bits are zero. `octets` puts the bytes together again and drops these bits, so it takes back what
`sextets` does, and the other way round exactly if the bits it drops are zero (`sextets_octets_iff`).

An alphabet writes such a number as a character, and has a filling whose first character is none of
its own. -/

namespace LibEvmvc

/-- Three bytes in one number. -/
def triple (a b c : UInt8) : Nat := a.toNat * 2 ^ 16 + b.toNat * 2 ^ 8 + c.toNat

/-- Four numbers of six bits in one number. -/
def quad (a b c d : Nat) : Nat := a * 2 ^ 18 + b * 2 ^ 12 + c * 2 ^ 6 + d

/-- Six bits of a number, counted from below. -/
def sextet (n k : Nat) : Nat := n / 2 ^ (6 * k) % 64

/-- Eight bits of a number, counted from below. -/
def octet (n k : Nat) : UInt8 := UInt8.ofNat (n / 2 ^ (8 * k) % 256)

def sextets : Bytes → List Nat
  | a :: b :: c :: rest =>
    let t := triple a b c
    sextet t 3 :: sextet t 2 :: sextet t 1 :: sextet t 0 :: sextets rest
  | [a, b] => [sextet (triple a b 0) 3, sextet (triple a b 0) 2, sextet (triple a b 0) 1]
  | [a] => [sextet (triple a 0 0) 3, sextet (triple a 0 0) 2]
  | [] => []

def octets : List Nat → Bytes
  | a :: b :: c :: d :: rest =>
    let t := quad a b c d
    octet t 2 :: octet t 1 :: octet t 0 :: octets rest
  | [a, b, c] => [octet (quad a b c 0) 2, octet (quad a b c 0) 1]
  | [a, b] => [octet (quad a b 0 0) 2]
  | _ => []

/-- The bits that `octets` drops. -/
def spareBits : List Nat → Nat
  | _ :: _ :: _ :: _ :: rest => spareBits rest
  | [_, _, c] => c % 4
  | [_, b] => b % 16
  | _ => 0

theorem sextet_lt (n k : Nat) : sextet n k < 64 := Nat.mod_lt _ (by decide)

theorem sextets_lt (b : Bytes) : ∀ v ∈ sextets b, v < 64 := by
  induction b using sextets.induct with
  | case1 a b c rest ih =>
    intro v hv
    simp only [sextets, List.mem_cons] at hv
    rcases hv with rfl | rfl | rfl | rfl | hv
    · exact sextet_lt _ _
    · exact sextet_lt _ _
    · exact sextet_lt _ _
    · exact sextet_lt _ _
    · exact ih v hv
  | case2 a b => simp [sextets, sextet_lt]
  | case3 a => simp [sextets, sextet_lt]
  | case4 => simp [sextets]

/-- How many numbers there are: never one too many for whole groups. -/
theorem length_sextets (b : Bytes) :
    (sextets b).length = b.length / 3 * 4 + (if b.length % 3 = 0 then 0 else b.length % 3 + 1) := by
  induction b using sextets.induct with
  | case1 a b c rest ih =>
    have hmod : (rest.length + 1 + 1 + 1) % 3 = rest.length % 3 := by omega
    simp only [sextets, List.length_cons, ih, hmod]
    omega
  | case2 a b => simp [sextets]
  | case3 a => simp [sextets]
  | case4 => simp [sextets]

/-! ## One group -/

theorem octet_eq {n k : Nat} {b : UInt8} (h : n / 2 ^ (8 * k) % 256 = b.toNat) : octet n k = b := by
  rw [octet, h, UInt8.ofNat_toNat]

theorem toNat_octet (n k : Nat) : (octet n k).toNat = n / 2 ^ (8 * k) % 256 := by
  rw [octet, UInt8.toNat_ofNat']
  exact Nat.mod_mod_of_dvd _ (by decide)

theorem quad_sextets (a b c : UInt8) :
    quad (sextet (triple a b c) 3) (sextet (triple a b c) 2) (sextet (triple a b c) 1)
      (sextet (triple a b c) 0) = triple a b c := by
  have ha := a.toNat_lt
  have hb := b.toNat_lt
  have hc := c.toNat_lt
  simp only [quad, sextet, triple]
  omega

theorem octet_triple (a b c : UInt8) :
    octet (triple a b c) 2 = a ∧ octet (triple a b c) 1 = b ∧ octet (triple a b c) 0 = c := by
  have ha := a.toNat_lt
  have hb := b.toNat_lt
  have hc := c.toNat_lt
  refine ⟨octet_eq ?_, octet_eq ?_, octet_eq ?_⟩ <;> simp only [triple] <;> omega

theorem triple_octets {a b c d : Nat} (ha : a < 64) (hb : b < 64) (hc : c < 64) (hd : d < 64) :
    triple (octet (quad a b c d) 2) (octet (quad a b c d) 1) (octet (quad a b c d) 0) =
      quad a b c d := by
  simp only [triple, toNat_octet, quad]
  omega

theorem sextet_quad {a b c d : Nat} (ha : a < 64) (hb : b < 64) (hc : c < 64) (hd : d < 64) :
    sextet (quad a b c d) 3 = a ∧ sextet (quad a b c d) 2 = b ∧ sextet (quad a b c d) 1 = c ∧
      sextet (quad a b c d) 0 = d := by
  simp only [sextet, quad]
  omega

/-! ## All of it -/

theorem octets_sextets (b : Bytes) : octets (sextets b) = b := by
  induction b using sextets.induct with
  | case1 a b c rest ih =>
    obtain ⟨h2, h1, h0⟩ := octet_triple a b c
    simp only [sextets, octets, quad_sextets, ih, h2, h1, h0]
  | case2 a b =>
    have hquad := quad_sextets a b 0
    have hzero : sextet (triple a b 0) 0 = 0 := by
      simp only [sextet, triple, UInt8.toNat_zero]
      omega
    obtain ⟨h2, h1, -⟩ := octet_triple a b 0
    rw [hzero] at hquad
    simp only [sextets, octets, hquad, h2, h1]
  | case3 a =>
    have hquad := quad_sextets a 0 0
    have hzero : sextet (triple a 0 0) 1 = 0 ∧ sextet (triple a 0 0) 0 = 0 := by
      simp only [sextet, triple, UInt8.toNat_zero]
      omega
    obtain ⟨h2, -, -⟩ := octet_triple a 0 0
    rw [hzero.1, hzero.2] at hquad
    simp only [sextets, octets, hquad, h2]
  | case4 => rfl

/-- **The numbers come back exactly if no bit is dropped.** -/
theorem sextets_octets_iff {vs : List Nat} (hlt : ∀ v ∈ vs, v < 64) (hlen : vs.length % 4 ≠ 1) :
    sextets (octets vs) = vs ↔ spareBits vs = 0 := by
  induction vs using octets.induct with
  | case1 a b c d rest ih =>
    simp only [List.forall_mem_cons] at hlt
    obtain ⟨ha, hb, hc, hd, hrest⟩ := hlt
    obtain ⟨h3, h2, h1, h0⟩ := sextet_quad ha hb hc hd
    have hlen' : rest.length % 4 ≠ 1 := by
      simp only [List.length_cons] at hlen
      omega
    simp only [octets, sextets, triple_octets ha hb hc hd, h3, h2, h1, h0, spareBits,
      List.cons.injEq, true_and]
    exact ih hrest hlen'
  | case2 a b c =>
    simp only [List.forall_mem_cons] at hlt
    obtain ⟨ha, hb, hc, -⟩ := hlt
    simp only [octets, sextets, triple, toNat_octet, sextet, quad, spareBits, List.cons.injEq,
      and_true, UInt8.toNat_zero]
    omega
  | case3 a b =>
    simp only [List.forall_mem_cons] at hlt
    obtain ⟨ha, hb, -⟩ := hlt
    simp only [octets, sextets, triple, toNat_octet, sextet, quad, spareBits, List.cons.injEq,
      and_true, UInt8.toNat_zero]
    omega
  | case4 vs h4 h3 h2 =>
    match vs, h4, h3, h2, hlen with
    | [], _, _, _, _ => simp [octets, sextets, spareBits]
    | [a], _, _, _, hlen => exact absurd rfl hlen
    | [a, b], _, _, h2, _ => exact absurd rfl (h2 a b)
    | [a, b, c], _, h3, _, _ => exact absurd rfl (h3 a b c)
    | a :: b :: c :: d :: rest, h4, _, _, _ => exact absurd rfl (h4 a b c d rest)

/-- How many bytes come back. -/
theorem length_octets (vs : List Nat) :
    (octets vs).length = vs.length / 4 * 3 + (if vs.length % 4 = 0 then 0 else vs.length % 4 - 1) := by
  induction vs using octets.induct with
  | case1 a b c d rest ih =>
    have hmod : (rest.length + 1 + 1 + 1 + 1) % 4 = rest.length % 4 := by omega
    simp only [octets, List.length_cons, ih, hmod]
    omega
  | case2 a b c => simp [octets]
  | case3 a b => simp [octets]
  | case4 vs h4 h3 h2 =>
    match vs, h4, h3, h2 with
    | [], _, _, _ => simp [octets]
    | [a], _, _, _ => simp [octets]
    | [a, b], _, _, h2 => exact absurd rfl (h2 a b)
    | [a, b, c], _, h3, _ => exact absurd rfl (h3 a b c)
    | a :: b :: c :: d :: rest, h4, _, _ => exact absurd rfl (h4 a b c d rest)

/-! ## Alphabets -/

/-- Sixty-four different characters, and what fills up a last group. -/
structure Alphabet where
  digits : List UInt8
  fill : Bytes
  length_digits : digits.length = 64
  nodup : digits.Nodup
  fill_clear : ∃ c rest, fill = c :: rest ∧ c ∉ digits

namespace Alphabet

variable (A : Alphabet)

/-- The character of a number. -/
def digit (v : Nat) : UInt8 := A.digits.getD v 0

/-- The number of a character. -/
def value (c : UInt8) : Option Nat := A.digits.findIdx? (· = c)

/-- A text of digits. -/
def spell (vs : List Nat) : Bytes := vs.map A.digit

variable {A}

theorem value_eq_some {c : UInt8} {v : Nat} : A.value c = some v ↔ v < 64 ∧ A.digit v = c := by
  rw [value, List.findIdx?_eq_some_iff_getElem, ← A.length_digits]
  constructor
  · rintro ⟨h, hv, -⟩
    exact ⟨h, by simpa [digit, List.getD_eq_getElem?_getD, h] using hv⟩
  · rintro ⟨h, hv⟩
    have hget : A.digits[v] = c := by simpa [digit, List.getD_eq_getElem?_getD, h] using hv
    refine ⟨h, by simpa using hget, fun j hj => ?_⟩
    have hne : A.digits[j] ≠ c := by
      rw [← hget]
      intro heq
      exact hj.ne ((List.Nodup.getElem_inj_iff A.nodup).1 heq)
    simpa using hne

theorem value_digit {v : Nat} (h : v < 64) : A.value (A.digit v) = some v := value_eq_some.2 ⟨h, rfl⟩

theorem digit_mem {v : Nat} (h : v < 64) : A.digit v ∈ A.digits := by
  have hlen : v < A.digits.length := by rwa [A.length_digits]
  simp [digit, List.getD_eq_getElem?_getD, hlen]

theorem spell_inj {vs ws : List Nat} (hvs : ∀ v ∈ vs, v < 64) (hws : ∀ v ∈ ws, v < 64)
    (h : A.spell vs = A.spell ws) : vs = ws := by
  have hread {us : List Nat} (hus : ∀ v ∈ us, v < 64) : (A.spell us).filterMap A.value = us := by
    rw [spell, List.filterMap_map]
    refine (List.filterMap_congr fun v hv => ?_).trans List.filterMap_some
    exact value_digit (hus v hv)
  rw [← hread hvs, ← hread hws, h]

end Alphabet

end LibEvmvc
