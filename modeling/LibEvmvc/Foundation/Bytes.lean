import Mathlib.Data.List.Basic
import Mathlib.Data.List.Infix

set_option autoImplicit false

/-! # Byte strings

Text on the wire is a list of bytes; `bytes` turns an ASCII literal into one. -/

namespace LibEvmvc

abbrev Bytes := List UInt8

/-- The bytes of an ASCII literal. -/
def bytes (s : String) : Bytes := s.toList.map fun c => UInt8.ofNat c.toNat

/-- `tolower` in the C locale. -/
def lowerByte (c : UInt8) : UInt8 := if 65 ≤ c && c ≤ 90 then c + 32 else c

/-- Two texts are the same to `strcasecmp` when these are equal. -/
def lower (b : Bytes) : Bytes := b.map lowerByte

/-- `isspace` in the C locale. -/
def isspace (c : UInt8) : Bool := c == 32 || (9 ≤ c && c ≤ 13)

/-- `len` bytes from `pos` on, as far as there are any. -/
def substr (hv : Bytes) (pos len : Nat) : Bytes := (hv.drop pos).take len

/-- A property of the elements of a list, checked one by one. -/
theorem forall_mem_of_all {α : Type} {p : α → Prop} [DecidablePred p] {l : List α}
    (h : l.all (fun a => decide (p a)) = true) : ∀ a ∈ l, p a := by
  simpa using h

section Ascii

/-- The bytes of a text in memory. -/
def asciiBytes (s : String) : Bytes := s.toByteArray.data.toList

theorem utf8EncodeChar_ascii {c : Char} (h : ∀ b ∈ String.utf8EncodeChar c, b < 128) :
    String.utf8EncodeChar c = [UInt8.ofNat c.toNat] := by
  -- the first byte of a longer code is large
  have hbig (x y : UInt8) (hy : 128 ≤ y) : ¬ x ||| y < 128 := by
    have hle : y ≤ x ||| y := by
      rw [UInt8.le_iff_toNat_le, UInt8.toNat_or]
      exact Nat.right_le_or
    exact fun hlt => absurd (UInt8.le_trans hy hle) (UInt8.not_le.2 hlt)
  rcases Char.utf8Size_eq c with hsize | hsize | hsize | hsize
  · rw [String.utf8EncodeChar_eq_singleton hsize]
    rfl
  · rw [String.utf8EncodeChar_eq_cons_cons hsize] at h
    exact absurd (h _ List.mem_cons_self) (hbig _ _ (by decide))
  · rw [String.utf8EncodeChar_eq_cons_cons_cons hsize] at h
    exact absurd (h _ List.mem_cons_self) (hbig _ _ (by decide))
  · rw [String.utf8EncodeChar_eq_cons_cons_cons_cons hsize] at h
    exact absurd (h _ List.mem_cons_self) (hbig _ _ (by decide))

/-- The bytes of an ASCII literal need not be decoded. -/
theorem bytes_ascii {s : String} (h : ∀ b ∈ asciiBytes s, b < 128) : bytes s = asciiBytes s := by
  have hutf : asciiBytes s = s.toList.flatMap String.utf8EncodeChar := by
    rw [asciiBytes, ← String.utf8Encode_toList, List.utf8Encode]
    simp
  rw [hutf] at h ⊢
  rw [bytes]
  generalize s.toList = l at h
  induction l with
  | nil => rfl
  | cons c l ih =>
    rw [List.flatMap_cons, List.forall_mem_append] at h
    rw [List.map_cons, List.flatMap_cons, utf8EncodeChar_ascii h.1, ih h.2]
    rfl

end Ascii

/-- A number in decimal. -/
def numToStr (n : Nat) : Bytes := (Nat.toDigits 10 n).map fun c => UInt8.ofNat c.toNat

theorem numToStr_injective : Function.Injective numToStr := by
  have hread (n : Nat) : (numToStr n).foldl (fun a c => 10 * a + (c.toNat - 48)) 0 = n := by
    rw [numToStr, List.foldl_map]
    refine Eq.trans ?_ (@Nat.ofDigitChars_ten_toDigits n)
    rw [Nat.ofDigitChars_eq_foldl]
    refine List.foldl_ext _ _ 0 fun a c hc => ?_
    have hdigit := Nat.isDigit_of_mem_toDigits (by decide) (by decide) hc
    simp only [Char.isDigit, Bool.and_eq_true, decide_eq_true_eq, UInt32.le_iff_toNat_le] at hdigit
    have hhigh : c.toNat ≤ 57 := hdigit.2
    rw [UInt8.toNat_ofNat', Nat.mod_eq_of_lt (by omega)]
    rfl
  intro m n h
  rw [← hread m, ← hread n, h]

theorem substr_mid (pre x post : Bytes) : substr (pre ++ (x ++ post)) pre.length x.length = x := by
  simp [substr]

end LibEvmvc
