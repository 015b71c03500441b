import LibEvmvc.Foundation.Chunked

set_option autoImplicit false

/-! # Percent-encoding

`encode_uri` and `encode_uri_component` differ in the characters they let through. What they do not
let through is written as a number, by a stream that has a width and no fill character, and the number
is a signed `char` made an `int`: below 16 there is a space in front of the digit, and from 128 on there
are eight digits.

`decode_uri` reads the two characters behind a `%` with `strtol`, which skips a space. It looks for
them if there are two more in the text, but that is tested by an unsigned subtraction, which goes wrong
for the text `%`. -/

namespace LibEvmvc

/-! ## Encoding -/

/-- The digit a stream writes for `std::uppercase << std::hex`. -/
def upperHexDigit (d : Nat) : UInt8 := UInt8.ofNat (if d < 10 then 48 + d else 55 + d)

/-- A number in hexadecimal, of at most as many digits as the first argument says. -/
def upperHex : Nat → Nat → Bytes
  | 0, _ => []
  | k + 1, n => if n < 16 then [upperHexDigit n] else upperHex k (n / 16) ++ [upperHexDigit (n % 16)]

/-- The bits of `(int)c`, where `char` is signed. -/
def intBits (c : UInt8) : Nat := if c < 128 then c.toNat else 2 ^ 32 - 256 + c.toNat

/-- `std::setw` with the fill character of a new stream. -/
def setw (width : Nat) (text : Bytes) : Bytes := List.replicate (width - text.length) 32 ++ text

/-- What is written for a character that is not let through. -/
def escapeChar (c : UInt8) : Bytes := 37 :: setw 2 (upperHex 8 (intBits c))

/-- The loop of the encoders. -/
def encodeWith (pass : UInt8 → Bool) (s : Bytes) : Bytes :=
  s.flatMap fun c => if pass c then [c] else escapeChar c

/-- Letters and digits. -/
def isAlnum (c : UInt8) : Bool := (97 ≤ c && c ≤ 122) || (65 ≤ c && c ≤ 90) || (48 ≤ c && c ≤ 57)

/-- What `encode_uri_component` lets through. -/
def passComponent (c : UInt8) : Bool := isAlnum c || (bytes "-_.!~*'()").contains c

/-- What `encode_uri` lets through. -/
def passUri (c : UInt8) : Bool := isAlnum c || (bytes ";,/?:@&=+$-_.!~*'()#").contains c

/-- `encode_uri`. -/
def encodeUri (s : Bytes) : Bytes := encodeWith passUri s

/-- `encode_uri_component`. -/
def encodeUriComponent (s : Bytes) : Bytes := encodeWith passComponent s

/-! ## Decoding -/

/-- The digits `strtol` reads, with the number so far. -/
def strtolDigits : Nat → Bytes → Nat
  | n, [] => n
  | n, c :: t =>
    match hexVal? c with
    | some d => strtolDigits (n * 16 + d) t
    | none => n

/-- `0x` in front of a digit is skipped. -/
def strtolBase : Bytes → Bytes
  | 48 :: x :: d :: t => if (x = 120 ∨ x = 88) ∧ (hexVal? d).isSome then d :: t else 48 :: x :: d :: t
  | t => t

/-- `strtol(t, nullptr, 16)`: blanks, a sign, digits. -/
def strtol16 (t : Bytes) : Int :=
  match t.dropWhile isspace with
  | 43 :: t => strtolDigits 0 (strtolBase t)
  | 45 :: t => -strtolDigits 0 (strtolBase t)
  | t => strtolDigits 0 (strtolBase t)

/-- The byte that two characters stand for. -/
def escapedByte (a b : UInt8) : UInt8 := UInt8.ofNat (strtol16 [a, b] % 256).toNat

/-- `size() - 2` of a `size_t`. -/
def lookaheadBound (n : Nat) : Nat := if n < 2 then 2 ^ 64 + n - 2 else n - 2

/-- The loop of `decode_uri` from index `i` on, where `rest` is what is left of a text of `n` bytes.
    `none` is a read behind its end. -/
def decodeLoop (n : Nat) : Nat → Bytes → Option Bytes
  | _, [] => some []
  | i, c :: rest =>
    if c = 37 ∧ i < lookaheadBound n then
      match rest with
      | a :: b :: rest => (decodeLoop n (i + 3) rest).map (escapedByte a b :: ·)
      | _ => none
    else (decodeLoop n (i + 1) rest).map (c :: ·)

/-- `decode_uri`. -/
def decodeUri (s : Bytes) : Option Bytes := decodeLoop s.length 0 s

/-- `decode_uri_component`. -/
def decodeUriComponent (s : Bytes) : Option Bytes := decodeUri s

/-! ## What is written for a character -/

theorem upperHex_digit (k d : Nat) (hd : d < 16) : upperHex (k + 1) d = [upperHexDigit d] := by
  rw [upperHex, if_pos hd]

theorem upperHex_step (k n d : Nat) (hn : 0 < n) (hd : d < 16) :
    upperHex (k + 1) (n * 16 + d) = upperHex k n ++ [upperHexDigit d] := by
  have hdiv : (n * 16 + d) / 16 = n := by omega
  have hmod : (n * 16 + d) % 16 = d := by omega
  rw [upperHex, if_neg (by omega), hdiv, hmod]

/-- A control character is written with a space and one digit. -/
theorem escapeChar_low {c : UInt8} (hc : c < 16) : escapeChar c = [37, 32, upperHexDigit c.toNat] := by
  have hlt : c.toNat < 16 := UInt8.lt_iff_toNat_lt.1 hc
  have hbits : intBits c = c.toNat := if_pos (UInt8.lt_trans hc (by decide))
  rw [escapeChar, hbits, upperHex_digit 7 _ hlt]
  rfl

/-- The two digits of a byte. -/
theorem upperHex_byte (k : Nat) {n : Nat} (hlow : 16 ≤ n) (hhigh : n < 256) :
    upperHex (k + 2) n = [upperHexDigit (n / 16), upperHexDigit (n % 16)] := by
  have hsum : n = n / 16 * 16 + n % 16 := by omega
  have hstep := upperHex_step (k + 1) (n / 16) (n % 16) (by omega) (by omega)
  rw [← hsum, upperHex_digit k _ (by omega)] at hstep
  exact hstep

theorem escapeChar_ascii {c : UInt8} (hlow : 16 ≤ c) (hhigh : c < 128) :
    escapeChar c = [37, upperHexDigit (c.toNat / 16), upperHexDigit (c.toNat % 16)] := by
  have hle : 16 ≤ c.toNat := UInt8.le_iff_toNat_le.1 hlow
  have hlt : c.toNat < 128 := UInt8.lt_iff_toNat_lt.1 hhigh
  rw [escapeChar, show intBits c = c.toNat from if_pos hhigh, upperHex_byte 6 hle (by omega)]
  rfl

/-- A byte from 128 on is a negative number. -/
theorem escapeChar_high {c : UInt8} (hc : 128 ≤ c) :
    escapeChar c = 37 :: (List.replicate 6 70 ++
      [upperHexDigit (c.toNat / 16), upperHexDigit (c.toNat % 16)]) := by
  have hle : 128 ≤ c.toNat := UInt8.le_iff_toNat_le.1 hc
  have hlt : c.toNat < 256 := UInt8.toNat_lt c
  have hbits : intBits c = ((2 ^ 24 - 1) * 16 + c.toNat / 16) * 16 + c.toNat % 16 := by
    rw [intBits, if_neg (UInt8.not_lt.2 hc)]
    omega
  have hfront : upperHex 6 (2 ^ 24 - 1) = List.replicate 6 70 := by decide
  have hdigits : upperHex 8 (intBits c)
      = List.replicate 6 70 ++ [upperHexDigit (c.toNat / 16), upperHexDigit (c.toNat % 16)] := by
    rw [hbits, upperHex_step 7 _ _ (by omega) (by omega), upperHex_step 6 _ _ (by omega) (by omega),
      hfront, List.append_assoc]
    rfl
  rw [escapeChar, hdigits]
  rfl

/-- A character that is seen: no space, no control character. -/
def isGraphic (c : UInt8) : Bool := 33 ≤ c && c ≤ 126

theorem isAlnum_spec {c : UInt8} (h : isAlnum c = true) : isGraphic c = true ∧ c ≠ 37 := by
  simp only [isAlnum, Bool.or_eq_true, Bool.and_eq_true, decide_eq_true_eq, UInt8.le_iff_toNat_le,
    UInt8.toNat_ofNat] at h
  constructor
  · simp only [isGraphic, Bool.and_eq_true, decide_eq_true_eq, UInt8.le_iff_toNat_le, UInt8.toNat_ofNat]
    omega
  · rintro rfl
    exact absurd h (by decide)

/-- What either encoder lets through is seen, and no `%`. -/
theorem passUri_spec {c : UInt8} (h : passUri c = true) : isGraphic c = true ∧ c ≠ 37 := by
  rcases Bool.or_eq_true_iff.1 h with halnum | hmem
  · exact isAlnum_spec halnum
  · have hall : ∀ c ∈ bytes ";,/?:@&=+$-_.!~*'()#", isGraphic c = true ∧ c ≠ 37 :=
      forall_mem_of_all (by decide)
    exact hall c (List.contains_iff_mem.1 hmem)

theorem passUri_of_passComponent {c : UInt8} (h : passComponent c = true) : passUri c = true := by
  rcases Bool.or_eq_true_iff.1 h with halnum | hmem
  · rw [passUri, halnum, Bool.true_or]
  · have hall : ∀ c ∈ bytes "-_.!~*'()", passUri c = true := forall_mem_of_all (by decide)
    exact hall c (List.contains_iff_mem.1 hmem)

/-- What an encoder may let through. -/
structure Passes (pass : UInt8 → Bool) : Prop where
  graphic : ∀ c, pass c = true → isGraphic c = true ∧ c ≠ 37
  alnum : ∀ c, isAlnum c = true → pass c = true

theorem passes_uri : Passes passUri where
  graphic _ := passUri_spec
  alnum c h := by rw [passUri, h, Bool.true_or]

theorem passes_component : Passes passComponent where
  graphic _ h := passUri_spec (passUri_of_passComponent h)
  alnum c h := by rw [passComponent, h, Bool.true_or]

/-- The digits are digits, and let through. -/
theorem upperHexDigit_spec {d : Nat} (hd : d < 16) :
    hexVal? (upperHexDigit d) = some d ∧ isspace (upperHexDigit d) = false ∧
      isAlnum (upperHexDigit d) = true := by
  revert d
  decide

/-! ## Reading back -/

theorem strtol16_digits (t : Bytes) {a : UInt8} (hspace : isspace a = false) (hplus : a ≠ 43)
    (hminus : a ≠ 45) : strtol16 (a :: t) = strtolDigits 0 (strtolBase (a :: t)) := by
  rw [strtol16, List.dropWhile_cons_of_neg (by simp [hspace])]
  split
  · next heq => exact absurd (List.cons.inj heq).1 hplus
  · next heq => exact absurd (List.cons.inj heq).1 hminus
  · rfl

theorem strtolBase_short {t : Bytes} (h : t.length ≤ 2) : strtolBase t = t := by
  unfold strtolBase
  split
  · simp only [List.length_cons] at h
    omega
  · rfl

theorem hexVal?_ne {a : UInt8} {d : Nat} (h : hexVal? a = some d) : a ≠ 43 ∧ a ≠ 45 := by
  constructor
  · rintro rfl
    cases h
  · rintro rfl
    cases h

/-- Two digits are the byte they stand for. -/
theorem escapedByte_digits {c : UInt8} :
    escapedByte (upperHexDigit (c.toNat / 16)) (upperHexDigit (c.toNat % 16)) = c := by
  have hlt : c.toNat < 256 := UInt8.toNat_lt c
  obtain ⟨hhigh, hspace, -⟩ := upperHexDigit_spec (d := c.toNat / 16) (by omega)
  obtain ⟨hlow, -, -⟩ := upperHexDigit_spec (d := c.toNat % 16) (by omega)
  obtain ⟨hplus, hminus⟩ := hexVal?_ne hhigh
  have hval : (strtol16 [upperHexDigit (c.toNat / 16), upperHexDigit (c.toNat % 16)] % 256).toNat
      = c.toNat := by
    rw [strtol16_digits _ hspace hplus hminus, strtolBase_short (t := [_, _]) (Nat.le_refl 2)]
    simp only [strtolDigits, hhigh, hlow]
    omega
  rw [escapedByte, hval, UInt8.ofNat_toNat]

/-- A space in front of a digit is skipped. -/
theorem escapedByte_space {c : UInt8} (hc : c < 16) : escapedByte 32 (upperHexDigit c.toNat) = c := by
  have hlt : c.toNat < 16 := UInt8.lt_iff_toNat_lt.1 hc
  obtain ⟨hdigit, hspace, -⟩ := upperHexDigit_spec hlt
  obtain ⟨hplus, hminus⟩ := hexVal?_ne hdigit
  have hskip : strtol16 [32, upperHexDigit c.toNat] = strtol16 [upperHexDigit c.toNat] := by
    rw [strtol16, strtol16, List.dropWhile_cons_of_pos (by decide)]
  have hval : (strtol16 [32, upperHexDigit c.toNat] % 256).toNat = c.toNat := by
    rw [hskip, strtol16_digits _ hspace hplus hminus, strtolBase_short (t := [_]) (Nat.le_succ 1)]
    simp only [strtolDigits, hdigit]
    omega
  rw [escapedByte, hval, UInt8.ofNat_toNat]

/-- With two characters more in the text, the look-ahead is as it should be. -/
theorem lookaheadBound_of_two {n : Nat} (h : 2 ≤ n) : lookaheadBound n = n - 2 :=
  if_neg (Nat.not_lt.2 h)

theorem decodeLoop_escape {n i : Nat} {a b : UInt8} {rest : Bytes}
    (hlen : i + (37 :: a :: b :: rest : Bytes).length = n) :
    decodeLoop n i (37 :: a :: b :: rest)
      = (decodeLoop n (i + 3) rest).map (escapedByte a b :: ·) := by
  simp only [List.length_cons] at hlen
  have hbound : i < lookaheadBound n := by
    rw [lookaheadBound_of_two (by omega)]
    omega
  rw [decodeLoop, if_pos ⟨rfl, hbound⟩]

theorem decodeLoop_cons {n i : Nat} {c : UInt8} (h : ¬ (c = 37 ∧ i < lookaheadBound n)) (rest : Bytes) :
    decodeLoop n i (c :: rest) = (decodeLoop n (i + 1) rest).map (c :: ·) := by
  rw [decodeLoop.eq_def]
  exact if_neg h

theorem decodeLoop_plain (n i : Nat) {w : Bytes} (hw : 37 ∉ w) (rest : Bytes) :
    decodeLoop n i (w ++ rest) = (decodeLoop n (i + w.length) rest).map (w ++ ·) := by
  induction w generalizing i with
  | nil => simp
  | cons c w ih =>
    rw [List.mem_cons, not_or] at hw
    have hstop : ¬ (c = 37 ∧ i < lookaheadBound n) := fun h => hw.1 h.1.symm
    rw [List.cons_append, decodeLoop_cons hstop, ih (i + 1) hw.2, Option.map_map, List.length_cons,
      Nat.add_assoc, Nat.add_comm 1]
    rfl

/-- What is read for a character that was written. -/
def reread (c : UInt8) : Bytes :=
  if c < 128 then [c]
  else 255 :: (List.replicate 4 70 ++ [upperHexDigit (c.toNat / 16), upperHexDigit (c.toNat % 16)])

section Encoded

variable {pass : UInt8 → Bool}

/-- A character is read as it was written, if it is below 128. -/
theorem decodeLoop_char (hpass : Passes pass) {n i : Nat} (c : UInt8) {rest : Bytes}
    (hlen : i + ((if pass c then [c] else escapeChar c) ++ rest).length = n) :
    decodeLoop n i ((if pass c then [c] else escapeChar c) ++ rest)
      = (decodeLoop n (i + (if pass c then [c] else escapeChar c).length) rest).map (reread c ++ ·) := by
  by_cases hc : pass c = true
  · obtain ⟨hgraphic, hne⟩ := hpass.graphic c hc
    have hlow : c < 128 := by
      simp only [isGraphic, Bool.and_eq_true, decide_eq_true_eq] at hgraphic
      exact UInt8.lt_of_le_of_lt hgraphic.2 (by decide)
    rw [if_pos hc, reread, if_pos hlow]
    exact decodeLoop_plain n i (by simpa using hne.symm) rest
  · rw [if_neg hc] at hlen ⊢
    by_cases hhigh : 128 ≤ c
    · have hlt : c.toNat < 256 := UInt8.toNat_lt c
      have hdigits : 37 ∉ List.replicate 4 (70 : UInt8) ++
          [upperHexDigit (c.toNat / 16), upperHexDigit (c.toNat % 16)] := by
        have hd : ∀ d, d < 16 → 37 ≠ upperHexDigit d := fun d hd =>
          (isAlnum_spec (upperHexDigit_spec hd).2.2).2.symm
        have hone := hd (c.toNat / 16) (by omega)
        have htwo := hd (c.toNat % 16) (by omega)
        simp [hone, htwo]
      have htext : escapeChar c = 37 :: 70 :: 70 :: (List.replicate 4 70 ++
          [upperHexDigit (c.toNat / 16), upperHexDigit (c.toNat % 16)]) := escapeChar_high hhigh
      rw [htext] at hlen ⊢
      rw [reread, if_neg (UInt8.not_lt.2 hhigh)]
      have hff : escapedByte 70 70 = 255 := by decide
      rw [List.cons_append, List.cons_append, List.cons_append] at hlen ⊢
      rw [decodeLoop_escape hlen, decodeLoop_plain n (i + 3) hdigits, Option.map_map, hff]
      rfl
    · have hc128 : c < 128 := UInt8.not_le.1 hhigh
      rw [reread, if_pos hc128]
      by_cases hlow : c < 16
      · rw [escapeChar_low hlow] at hlen ⊢
        rw [List.cons_append, List.cons_append, List.cons_append] at hlen ⊢
        rw [decodeLoop_escape hlen, escapedByte_space hlow]
        rfl
      · rw [escapeChar_ascii (UInt8.not_lt.1 hlow) hc128] at hlen ⊢
        rw [List.cons_append, List.cons_append, List.cons_append] at hlen ⊢
        rw [decodeLoop_escape hlen, escapedByte_digits]
        rfl

theorem decodeLoop_encode (hpass : Passes pass) {n i : Nat} (s : Bytes)
    (hlen : i + (encodeWith pass s).length = n) :
    decodeLoop n i (encodeWith pass s) = some (s.flatMap reread) := by
  induction s generalizing i with
  | nil => rfl
  | cons c s ih =>
    rw [encodeWith, List.flatMap_cons] at hlen ⊢
    rw [decodeLoop_char hpass c hlen, List.flatMap_cons, List.length_append] at *
    have hrest := ih (i := i + (if pass c then [c] else escapeChar c).length) (by
      rw [encodeWith]
      omega)
    rw [encodeWith] at hrest
    rw [hrest]
    rfl

theorem length_reread (c : UInt8) : 1 ≤ (reread c).length ∧ ((reread c).length = 1 ↔ c < 128) := by
  unfold reread
  split
  · next h => simp [h]
  · next h => simp [h]

/-- A text is read as it was written exactly if all its characters are. -/
theorem flatMap_reread_iff (s : Bytes) : s.flatMap reread = s ↔ ∀ c ∈ s, c < 128 := by
  have hlen : ∀ s : Bytes, s.length ≤ (s.flatMap reread).length := by
    intro s
    induction s with
    | nil => exact Nat.le_refl 0
    | cons c s ih =>
      have hone := (length_reread c).1
      rw [List.flatMap_cons, List.length_append, List.length_cons]
      omega
  induction s with
  | nil => simp
  | cons c s ih =>
    rw [List.flatMap_cons, List.forall_mem_cons]
    constructor
    · intro h
      have hsum := congrArg List.length h
      have hone := length_reread c
      have hrest := hlen s
      rw [List.length_append, List.length_cons] at hsum
      have hc : c < 128 := hone.2.1 (by omega)
      rw [reread, if_pos hc] at h
      exact ⟨hc, ih.1 (List.cons.inj h).2⟩
    · rintro ⟨hc, h⟩
      rw [reread, if_pos hc, ih.2 h]
      rfl

end Encoded

/-- **What was encoded is decoded again exactly if it is ASCII.** -/
theorem decode_encode_iff (s : Bytes) :
    decodeUri (encodeUri s) = some s ∧ decodeUriComponent (encodeUriComponent s) = some s ↔
      ∀ c ∈ s, c < 128 := by
  have huri : decodeUri (encodeUri s) = some (s.flatMap reread) :=
    decodeLoop_encode passes_uri s (Nat.zero_add _)
  have hcomponent : decodeUriComponent (encodeUriComponent s) = some (s.flatMap reread) :=
    decodeLoop_encode passes_component s (Nat.zero_add _)
  rw [huri, hcomponent, and_self, Option.some.injEq]
  exact flatMap_reread_iff s

/-- The byte `E9` is written `%FFFFFFE9`. -/
theorem encodeUri_high :
    ¬ ∀ s : Bytes, decodeUri (encodeUri s) = some s ∧ decodeUriComponent (encodeUriComponent s) = some s := by
  intro h
  exact absurd (h [233]) (by decide)

/-! ## What the encoders write -/

/-- `0`..`9` and `A`..`F`. -/
def isUpperHex (c : UInt8) : Bool := (48 ≤ c && c ≤ 57) || (65 ≤ c && c ≤ 70)

/-- A text of characters that are let through and of `%` with two digits. -/
inductive WellEscaped (pass : UInt8 → Bool) : Bytes → Prop where
  | nil : WellEscaped pass []
  | plain (c : UInt8) (t : Bytes) : pass c = true → WellEscaped pass t → WellEscaped pass (c :: t)
  | escape (a b : UInt8) (t : Bytes) : isUpperHex a = true → isUpperHex b = true →
      WellEscaped pass t → WellEscaped pass (37 :: a :: b :: t)

theorem isUpperHex_digit {d : Nat} (hd : d < 16) : isUpperHex (upperHexDigit d) = true := by
  revert d
  decide

theorem isAlnum_of_isUpperHex {c : UInt8} (h : isUpperHex c = true) : isAlnum c = true := by
  simp only [isUpperHex, isAlnum, Bool.or_eq_true, Bool.and_eq_true, decide_eq_true_eq,
    UInt8.le_iff_toNat_le, UInt8.toNat_ofNat] at h ⊢
  omega

section Written

variable {pass : UInt8 → Bool}

/-- No space and no control character appears in such a text. -/
theorem WellEscaped.graphic (hpass : Passes pass) {t : Bytes} (h : WellEscaped pass t) :
    ∀ c ∈ t, isGraphic c = true := by
  have hdigit : ∀ c, isUpperHex c = true → isGraphic c = true := fun c hc =>
    (isAlnum_spec (isAlnum_of_isUpperHex hc)).1
  induction h with
  | nil => exact fun c hc => absurd hc List.not_mem_nil
  | plain c t hc _ ih => exact List.forall_mem_cons.2 ⟨(hpass.graphic c hc).1, ih⟩
  | escape a b t ha hb _ ih =>
    exact List.forall_mem_cons.2 ⟨by decide, List.forall_mem_cons.2 ⟨hdigit a ha,
      List.forall_mem_cons.2 ⟨hdigit b hb, ih⟩⟩⟩

theorem WellEscaped.append_plain {w t : Bytes} (hw : ∀ c ∈ w, pass c = true) (h : WellEscaped pass t) :
    WellEscaped pass (w ++ t) := by
  induction w with
  | nil => exact h
  | cons c w ih =>
    rw [List.forall_mem_cons] at hw
    exact .plain c (w ++ t) hw.1 (ih hw.2)

/-- From 16 on a character is escaped as it should be: of the eight digits of a negative number two
    make an escape, and the others are let through. -/
theorem WellEscaped.escapeChar (hpass : Passes pass) {c : UInt8} {t : Bytes} (hc : 16 ≤ c)
    (h : WellEscaped pass t) : WellEscaped pass (escapeChar c ++ t) := by
  have hlt : c.toNat < 256 := UInt8.toNat_lt c
  have hhigh := isUpperHex_digit (d := c.toNat / 16) (by omega)
  have hlow := isUpperHex_digit (d := c.toNat % 16) (by omega)
  by_cases h128 : c < 128
  · rw [escapeChar_ascii hc h128]
    exact .escape _ _ t hhigh hlow h
  · have hff : pass 70 = true := hpass.alnum 70 (by decide)
    have hone := hpass.alnum _ (isAlnum_of_isUpperHex hhigh)
    have htwo := hpass.alnum _ (isAlnum_of_isUpperHex hlow)
    have hplain : ∀ d ∈ List.replicate 4 (70 : UInt8) ++
        [upperHexDigit (c.toNat / 16), upperHexDigit (c.toNat % 16)], pass d = true := by
      simp [hff, hone, htwo]
    rw [escapeChar_high (UInt8.not_lt.1 h128)]
    exact .escape 70 70 _ (by decide) (by decide) (h.append_plain hplain)

/-- A text is escaped as it should be if it has no control characters; otherwise there is a space. -/
theorem wellEscaped_encode_iff (hpass : Passes pass) (s : Bytes) :
    WellEscaped pass (encodeWith pass s) ↔ ∀ c ∈ s, 16 ≤ c := by
  constructor
  · intro h c hc
    by_contra hlow
    have hlt : c < 16 := UInt8.not_le.1 hlow
    have hno : ¬ pass c = true := by
      intro hp
      have hgraphic := (hpass.graphic c hp).1
      simp only [isGraphic, Bool.and_eq_true, decide_eq_true_eq] at hgraphic
      exact absurd (UInt8.lt_of_le_of_lt hgraphic.1 hlt) (by decide)
    have hspace : 32 ∈ encodeWith pass s := by
      refine List.mem_flatMap.2 ⟨c, hc, ?_⟩
      rw [if_neg hno, escapeChar_low hlt]
      simp
    exact absurd (h.graphic hpass 32 hspace) (by decide)
  · intro h
    induction s with
    | nil => exact .nil
    | cons c s ih =>
      rw [List.forall_mem_cons] at h
      rw [encodeWith, List.flatMap_cons]
      split
      · next hp => exact .plain c _ hp (ih h.2)
      · exact (ih h.2).escapeChar hpass h.1

end Written

/-- **What the encoders write is well formed exactly if there was no character below 16.** -/
theorem wellEscaped_iff (s : Bytes) :
    WellEscaped passUri (encodeUri s) ∧ WellEscaped passComponent (encodeUriComponent s) ↔
      ∀ c ∈ s, 16 ≤ c := by
  rw [encodeUri, encodeUriComponent, wellEscaped_encode_iff passes_uri,
    wellEscaped_encode_iff passes_component, and_self]

/-- A line end is written with a space, `% A`. -/
theorem encodeUri_low :
    ¬ ∀ s : Bytes, WellEscaped passUri (encodeUri s) ∧ WellEscaped passComponent (encodeUriComponent s) := by
  intro h
  exact absurd ((h [10]).1.graphic passes_uri 32 (by decide)) (by decide)

/-! ## Where the decoder reads -/

/-- In a text of two characters or more the decoder stays inside, and writes no more than it reads. -/
theorem decodeLoop_bounds {n : Nat} (hn : 2 ≤ n) (i : Nat) (rest : Bytes) (hlen : i + rest.length = n) :
    ∃ out, decodeLoop n i rest = some out ∧ out.length ≤ rest.length := by
  have hbound := lookaheadBound_of_two hn
  induction hsize : rest.length using Nat.strong_induction_on generalizing i rest with
  | _ size ih =>
    subst hsize
    cases rest with
    | nil => exact ⟨[], rfl, Nat.le_refl 0⟩
    | cons c rest =>
      rw [List.length_cons] at hlen
      by_cases hlook : c = 37 ∧ i < lookaheadBound n
      · obtain ⟨rfl, hi⟩ := hlook
        rw [hbound] at hi
        have htwo : 2 ≤ rest.length := by omega
        obtain ⟨a, b, rest, rfl⟩ : ∃ a b t, rest = a :: b :: t := by
          obtain ⟨a, rest, rfl⟩ := List.exists_cons_of_length_pos (Nat.lt_of_lt_of_le Nat.two_pos htwo)
          obtain ⟨b, rest, rfl⟩ := List.exists_cons_of_length_pos (Nat.le_of_succ_le_succ htwo)
          exact ⟨a, b, rest, rfl⟩
        simp only [List.length_cons] at hlen
        obtain ⟨out, hout, hle⟩ := ih rest.length (by simp only [List.length_cons]; omega) (i + 3) rest
          (by omega) rfl
        refine ⟨escapedByte a b :: out, ?_, ?_⟩
        · rw [decodeLoop_escape (by simp only [List.length_cons]; omega), hout]
          rfl
        · simp only [List.length_cons]
          omega
      · obtain ⟨out, hout, hle⟩ := ih rest.length (by simp only [List.length_cons]; omega) (i + 1) rest
          (by omega) rfl
        refine ⟨c :: out, ?_, ?_⟩
        · rw [decodeLoop_cons hlook, hout]
          rfl
        · simp only [List.length_cons]
          omega

/-- **`decode_uri` reads behind the end of the text `%`, and of no other.** -/
theorem decodeUri_bounds_iff (s : Bytes) :
    (∃ out, decodeUri s = some out ∧ out.length ≤ s.length) ↔ s ≠ [37] := by
  constructor
  · rintro ⟨out, hout, -⟩ rfl
    cases hout
  · intro hne
    rcases s with _ | ⟨c, _ | ⟨d, s⟩⟩
    · exact ⟨[], rfl, Nat.le_refl 0⟩
    · have hstop : ¬ (c = 37 ∧ 0 < lookaheadBound [c].length) := fun h => hne (by rw [h.1])
      refine ⟨[c], ?_, Nat.le_refl 1⟩
      rw [decodeUri, decodeLoop_cons hstop]
      rfl
    · exact decodeLoop_bounds (by simp) 0 (c :: d :: s) (Nat.zero_add _)

theorem decodeUri_percent : ¬ ∀ s : Bytes, ∃ out, decodeUri s = some out ∧ out.length ≤ s.length := by
  intro h
  obtain ⟨out, hout, -⟩ := h [37]
  cases hout

end LibEvmvc
