import LibEvmvc.Foundation.Chunked
import LibEvmvc.Http.Headers

set_option autoImplicit false

/-! # Entity tags

The tag of a file is its inode, its size and the time of its last change, each in hexadecimal, with `-`
between them. `etag_uint64_to_hex` goes through the digits from the highest one on and starts to print
at the first that is not zero; the last digit is printed whatever it is. -/

namespace LibEvmvc

/-- `HEX_DIGITS`. -/
def hexDigitsText : Bytes := bytes "0123456789abcdef"

/-- The digit `HEX_DIGITS` has at an index. -/
def hexDigitAt (d : Nat) : UInt8 := hexDigitsText.getD d 0

/-- The loop of `etag_uint64_to_hex`, with what has been printed: four times the first argument is the
    shift of the next digit, and the loop ends before the shift is 0. -/
def etagHexLoop (u : BitVec 64) : Nat → Bool → Bytes → Bytes
  | 0, _, next => next
  | k + 1, printing, next =>
    let nextDigit := ((u >>> (4 * (k + 1))) &&& 0xf#64).toNat
    if nextDigit ≠ 0 then etagHexLoop u k true (next ++ [hexDigitAt nextDigit])
    else if printing then etagHexLoop u k printing (next ++ [hexDigitAt nextDigit])
    else etagHexLoop u k printing next

/-- `etag_uint64_to_hex`: what stands in front of `next`, and the number. -/
def etagUint64ToHex (next : Bytes) (u : BitVec 64) : Bytes :=
  etagHexLoop u 15 false next ++ [hexDigitAt (u &&& 0xf#64).toNat]

/-- What `get_etag` reads of a `struct stat`, as the `uint64_t` it makes of it. -/
structure FileStat where
  ino : BitVec 64
  size : BitVec 64
  mtime : BitVec 64
  deriving DecidableEq, Repr

/-- `CHARS_PER_UINT64`. -/
def charsPerUint64 : Nat := 8 * 2

/-- `CHARS_PER_ETAG`: the two dashes of `sizeof("--")` come with a terminator. -/
def charsPerEtag : Nat := 3 * charsPerUint64 + 1 + 3

/-- What `get_etag` has written into its buffer. -/
def etagBuffer (fileStat : FileStat) : Bytes :=
  let next := etagUint64ToHex [] fileStat.ino
  let next := next ++ [45]
  let next := etagUint64ToHex next fileStat.size
  let next := next ++ [45]
  let next := etagUint64ToHex next fileStat.mtime
  next ++ [0]

/-- `get_etag`: the buffer is appended as a C string. -/
def getEtag (fileStat : FileStat) (strEtag : Bytes) : Bytes := strEtag ++ cstr (etagBuffer fileStat)

/-! ## Numerals -/

theorem hexDigitAt_eq {d : Nat} (hd : d < 16) : hexDigitAt d = hexDigit d := by
  revert d
  decide

/-- A digit behind a number that is not zero. -/
theorem toHex_digit {n d : Nat} (hn : n ≠ 0) (hd : d < 16) :
    toHex (16 * n + d) = toHex n ++ [hexDigit d] := by
  have hne : 16 * n + d ≠ 0 := by omega
  have hdigits : Nat.digits 16 (d + 16 * n) = d :: Nat.digits 16 n :=
    Nat.digits_add 16 (by omega) d n hd (.inr hn)
  unfold toHex
  rw [if_neg hne, if_neg hn, Nat.add_comm, hdigits, List.reverse_cons, List.map_append]
  rfl

theorem toHex_small {d : Nat} (hd : d < 16) : toHex d = [hexDigit d] := by
  revert d
  decide

theorem length_toHex_pos (n : Nat) : 0 < (toHex n).length := by
  obtain ⟨ds, hds, hne, -⟩ := toHex_eq n
  rw [hds, List.length_map]
  exact List.length_pos_iff.2 hne

/-- A number of `k` digits is written in no more. -/
theorem length_toHex_le {n k : Nat} (hk : 0 < k) (hn : n < 16 ^ k) : (toHex n).length ≤ k := by
  unfold toHex
  split
  · exact hk
  · rw [List.length_map, List.length_reverse]
    exact (Nat.digits_length_le_iff (by omega) n).2 hn

theorem dash_not_mem_toHex (n : Nat) : 45 ∉ toHex n := by
  obtain ⟨ds, hds, -, hsmall, -⟩ := toHex_eq n
  have hdash : ∀ d < 16, hexDigit d ≠ 45 := by decide
  rw [hds, List.mem_map]
  rintro ⟨d, hd, heq⟩
  exact hdash d (hsmall d hd) heq

theorem nul_not_mem_toHex (n : Nat) : 0 ∉ toHex n := by
  obtain ⟨ds, hds, -, hsmall, -⟩ := toHex_eq n
  have hnul : ∀ d < 16, hexDigit d ≠ 0 := by decide
  rw [hds, List.mem_map]
  rintro ⟨d, hd, heq⟩
  exact hnul d (hsmall d hd) heq

/-- Two numbers with one numeral are one number: the size line that is made of it reads as both. -/
theorem toHex_injective {m n : Nat} (h : toHex m = toHex n) : m = n := by
  have hread (k : Nat) : readSize 0 (toHex k ++ [13, 10]) = some (k, []) := by
    obtain ⟨ds, hds, -, hsmall, hval⟩ := toHex_eq k
    rw [hds, readSize_digits ds hsmall, hval]
  have hboth : some (m, ([] : Bytes)) = some (n, []) := by rw [← hread m, ← hread n, h]
  exact congrArg Prod.fst (Option.some.inj hboth)

/-! ## The digits of the tag -/

/-- What has been printed when the digits above the `k` lowest ones are done: the numeral of the number
    they make, unless this is 0. -/
def printedDigits (u : BitVec 64) (k : Nat) : Bytes :=
  if u.toNat / 16 ^ k = 0 then [] else toHex (u.toNat / 16 ^ k)

theorem toNat_nextDigit (u : BitVec 64) (k : Nat) :
    ((u >>> (4 * k)) &&& 0xf#64).toNat = u.toNat / 16 ^ k % 16 := by
  have hmask : (0xf#64).toNat = 2 ^ 4 - 1 := rfl
  have hpow : 2 ^ (4 * k) = 16 ^ k := by rw [Nat.pow_mul]
  rw [BitVec.toNat_and, BitVec.toNat_ushiftRight, Nat.shiftRight_eq_div_pow, hpow, hmask,
    Nat.and_two_pow_sub_one_eq_mod]

theorem div_pow_succ (n k : Nat) : n / 16 ^ k = 16 * (n / 16 ^ (k + 1)) + n / 16 ^ k % 16 := by
  rw [Nat.pow_succ, ← Nat.div_div_eq_div_mul]
  exact (Nat.div_add_mod _ 16).symm

/-- One more digit, when it is printed. -/
theorem printedDigits_append (u : BitVec 64) (k : Nat) :
    printedDigits u (k + 1) ++ [hexDigit (u.toNat / 16 ^ k % 16)] = toHex (u.toNat / 16 ^ k) := by
  have hd : u.toNat / 16 ^ k % 16 < 16 := Nat.mod_lt _ (by omega)
  have hsplit := div_pow_succ u.toNat k
  unfold printedDigits
  split
  · next hzero =>
    rw [hzero, Nat.mul_zero, Nat.zero_add] at hsplit
    rw [List.nil_append, hsplit, Nat.mod_mod, toHex_small (hsplit ▸ hd)]
  · next hne =>
    rw [← toHex_digit hne hd, ← hsplit]

/-- The loop prints the digits that are left, after those printed already. -/
theorem etagHexLoop_eq (u : BitVec 64) (k : Nat) (pre : Bytes) :
    etagHexLoop u k (decide (u.toNat / 16 ^ (k + 1) ≠ 0)) (pre ++ printedDigits u (k + 1))
      = pre ++ printedDigits u 1 := by
  induction k with
  | zero => rfl
  | succ k ih =>
    have hd : u.toNat / 16 ^ (k + 1) % 16 < 16 := Nat.mod_lt _ (by omega)
    have hsplit := div_pow_succ u.toNat (k + 1)
    have hprint : printedDigits u (k + 1 + 1) ++ [hexDigitAt (u.toNat / 16 ^ (k + 1) % 16)]
        = toHex (u.toNat / 16 ^ (k + 1)) := by
      rw [hexDigitAt_eq hd, printedDigits_append]
    rw [etagHexLoop]
    simp only [toNat_nextDigit, List.append_assoc, hprint]
    by_cases hcur : u.toNat / 16 ^ (k + 1) = 0
    · have hhigh : u.toNat / 16 ^ (k + 1 + 1) = 0 := by omega
      have hnone : printedDigits u (k + 1 + 1) = printedDigits u (k + 1) := by
        rw [printedDigits, printedDigits, if_pos hhigh, if_pos hcur]
      rw [hnone, ← ih, hhigh, hcur]
      rfl
    · have hsome : toHex (u.toNat / 16 ^ (k + 1)) = printedDigits u (k + 1) := by
        rw [printedDigits, if_neg hcur]
      rw [decide_eq_true hcur] at ih
      rw [hsome]
      by_cases hdigit : u.toNat / 16 ^ (k + 1) % 16 = 0
      · have hhigh : u.toNat / 16 ^ (k + 1 + 1) ≠ 0 := by omega
        rw [if_neg (not_not.2 hdigit), if_pos (decide_eq_true hhigh), decide_eq_true hhigh, ih]
      · rw [if_pos hdigit, ih]

/-- `etag_uint64_to_hex` prints the numeral of its number. -/
theorem etagUint64ToHex_eq (next : Bytes) (u : BitVec 64) :
    etagUint64ToHex next u = next ++ toHex u.toNat := by
  have htop : u.toNat / 16 ^ (15 + 1) = 0 := Nat.div_eq_of_lt u.isLt
  have hloop := etagHexLoop_eq u 15 next
  rw [printedDigits, if_pos htop, htop, List.append_nil] at hloop
  have hlast := toNat_nextDigit u 0
  rw [Nat.mul_zero, BitVec.ushiftRight_zero, Nat.pow_zero, Nat.div_one] at hlast
  have hprint := printedDigits_append u 0
  rw [Nat.pow_zero, Nat.div_one] at hprint
  rw [etagUint64ToHex, hlast, hexDigitAt_eq (Nat.mod_lt _ (by omega)), ← hprint, ← List.append_assoc]
  exact congrArg (· ++ _) hloop

theorem length_etagNumeral (u : BitVec 64) : (toHex u.toNat).length ≤ charsPerUint64 :=
  length_toHex_le (k := 16) (by omega) u.isLt

/-! ## The tag -/

theorem etagBuffer_eq (fileStat : FileStat) :
    etagBuffer fileStat = toHex fileStat.ino.toNat ++ 45 :: (toHex fileStat.size.toNat ++
      45 :: toHex fileStat.mtime.toNat) ++ [0] := by
  simp only [etagBuffer, etagUint64ToHex_eq, List.nil_append, List.append_assoc, List.cons_append]

/-- The buffer is large enough. -/
theorem length_etagBuffer (fileStat : FileStat) : (etagBuffer fileStat).length ≤ charsPerEtag := by
  have hino := length_etagNumeral fileStat.ino
  have hsize := length_etagNumeral fileStat.size
  have hmtime := length_etagNumeral fileStat.mtime
  rw [etagBuffer_eq]
  simp only [List.length_append, List.length_cons, List.length_nil]
  unfold charsPerEtag
  omega

theorem getEtag_eq (fileStat : FileStat) (strEtag : Bytes) :
    getEtag fileStat strEtag = strEtag ++ (toHex fileStat.ino.toNat ++
      45 :: (toHex fileStat.size.toNat ++ 45 :: toHex fileStat.mtime.toNat)) := by
  have hnul : 0 ∉ toHex fileStat.ino.toNat ++
      45 :: (toHex fileStat.size.toNat ++ 45 :: toHex fileStat.mtime.toNat) := by
    simp [nul_not_mem_toHex]
  rw [getEtag, etagBuffer_eq, cstr, List.takeWhile_append_of_pos]
  · rw [List.takeWhile_cons_of_neg (by decide), List.append_nil]
  · intro c hc
    refine decide_eq_true fun h => hnul (h ▸ hc)

/-- Texts without the separator in front of it are told apart by what they are joined to. -/
theorem cut_at_sep {sep : UInt8} {a b x y : Bytes} (ha : sep ∉ a) (hb : sep ∉ b)
    (h : a ++ sep :: x = b ++ sep :: y) : a = b ∧ x = y := by
  induction a generalizing b with
  | nil =>
    rcases b with - | ⟨c, b⟩
    · exact ⟨rfl, (List.cons.inj h).2⟩
    · exact absurd ((List.cons.inj h).1 ▸ List.mem_cons_self) hb
  | cons c a ih =>
    rcases b with - | ⟨d, b⟩
    · exact absurd ((List.cons.inj h).1 ▸ List.mem_cons_self) ha
    · obtain ⟨rfl, htail⟩ := List.cons.inj h
      obtain ⟨rfl, rfl⟩ := ih (fun hm => ha (List.mem_cons_of_mem _ hm))
        (fun hm => hb (List.mem_cons_of_mem _ hm)) htail
      exact ⟨rfl, rfl⟩

theorem getEtag_injective {s t : FileStat} {strEtag : Bytes}
    (h : getEtag s strEtag = getEtag t strEtag) : s = t := by
  rw [getEtag_eq, getEtag_eq] at h
  obtain ⟨hino, hrest⟩ :=
    cut_at_sep (dash_not_mem_toHex _) (dash_not_mem_toHex _) (List.append_cancel_left h)
  obtain ⟨hsize, hmtime⟩ := cut_at_sep (dash_not_mem_toHex _) (dash_not_mem_toHex _) hrest
  cases s
  cases t
  congr
  · exact BitVec.eq_of_toNat_eq (toHex_injective hino)
  · exact BitVec.eq_of_toNat_eq (toHex_injective hsize)
  · exact BitVec.eq_of_toNat_eq (toHex_injective hmtime)

/-- The tag is made of three canonical numerals, fits its buffer and names the three numbers. -/
theorem etag_canonical :
    (∀ (next : Bytes) (u : BitVec 64), etagUint64ToHex next u = next ++ toHex u.toNat ∧
      1 ≤ (toHex u.toNat).length ∧ (toHex u.toNat).length ≤ 16) ∧
    (∀ (s t : FileStat) (strEtag : Bytes), getEtag s strEtag = getEtag t strEtag ↔
      s.ino = t.ino ∧ s.size = t.size ∧ s.mtime = t.mtime) ∧
    ∀ s : FileStat, (etagBuffer s).length ≤ charsPerEtag := by
  refine ⟨fun next u => ?_, fun s t strEtag => ?_, length_etagBuffer⟩
  · exact ⟨etagUint64ToHex_eq next u, length_toHex_pos _, length_etagNumeral u⟩
  · constructor
    · intro h
      obtain rfl := getEtag_injective h
      exact ⟨rfl, rfl, rfl⟩
    · rintro ⟨hino, hsize, hmtime⟩
      rw [getEtag_eq, getEtag_eq, hino, hsize, hmtime]

end LibEvmvc
