import Mathlib.Data.Nat.Digits.Lemmas
import LibEvmvc.Foundation.Lines

set_option autoImplicit false

/-! # The chunked transfer coding

A chunk is its size in hexadecimal, a line end, the data and another line end; the body ends with a
chunk of size zero. `decodeChunked` reads such a body back, and `decodeChunked_encode` says that it
finds the data of the chunks that were written, whatever follows the body. -/

namespace LibEvmvc

/-! ## Sizes -/

/-- The digit `printf` writes for `%x`. -/
def hexDigit (d : Nat) : UInt8 := UInt8.ofNat (if d < 10 then 48 + d else 87 + d)

/-- The value of a hexadecimal digit of either case. -/
def hexVal? (c : UInt8) : Option Nat :=
  if 48 ≤ c && c ≤ 57 then some (c.toNat - 48)
  else if 97 ≤ c && c ≤ 102 then some (c.toNat - 87)
  else if 65 ≤ c && c ≤ 70 then some (c.toNat - 55)
  else none

/-- `printf("%x", n)`. -/
def toHex (n : Nat) : Bytes :=
  if n = 0 then [48] else (Nat.digits 16 n).reverse.map hexDigit

/-- The digits up to the line end. -/
def readSize : Nat → Bytes → Option (Nat × Bytes)
  | acc, 13 :: 10 :: rest => some (acc, rest)
  | acc, c :: rest => (hexVal? c).bind fun d => readSize (acc * 16 + d) rest
  | _, [] => none

/-- A size line has one digit at least. -/
def readSizeLine (b : Bytes) : Option (Nat × Bytes) :=
  if b.head? = some 13 then none else readSize 0 b

theorem hexVal?_hexDigit {d : Nat} (hd : d < 16) : hexVal? (hexDigit d) = some d := by
  revert d
  decide

theorem hexDigit_ne_cr {d : Nat} (hd : d < 16) : hexDigit d ≠ 13 := by
  revert d
  decide

/-- Reading digits, most significant first. -/
theorem readSize_digits (ds : List Nat) (hds : ∀ d ∈ ds, d < 16) (acc : Nat) (rest : Bytes) :
    readSize acc (ds.map hexDigit ++ 13 :: 10 :: rest) =
      some (ds.foldl (fun a d => a * 16 + d) acc, rest) := by
  induction ds generalizing acc with
  | nil => rw [List.map_nil, List.nil_append, readSize]; rfl
  | cons d ds ih =>
    have hd : d < 16 := hds d (List.mem_cons_self ..)
    rw [List.map_cons, List.cons_append, readSize, hexVal?_hexDigit hd, Option.bind_some,
      ih fun e he => hds e (List.mem_cons_of_mem _ he)]
    · rfl
    · intro r hcr
      exact absurd hcr (hexDigit_ne_cr hd)

theorem foldl_digits (n : Nat) :
    (Nat.digits 16 n).reverse.foldl (fun a d => a * 16 + d) 0 = n := by
  rw [List.foldl_reverse]
  conv_rhs => rw [← Nat.ofDigits_digits 16 n]
  rw [Nat.ofDigits_eq_foldr]
  congr 1
  funext d a
  simp [Nat.mul_comm, Nat.add_comm]

/-- A number as a list of digits, most significant first. -/
theorem toHex_eq (n : Nat) :
    ∃ ds, toHex n = ds.map hexDigit ∧ ds ≠ [] ∧ (∀ d ∈ ds, d < 16) ∧
      ds.foldl (fun a d => a * 16 + d) 0 = n := by
  unfold toHex
  split
  · next h =>
    subst h
    exact ⟨[0], rfl, by simp, by simp, rfl⟩
  · next h =>
    refine ⟨(Nat.digits 16 n).reverse, rfl, ?_, ?_, foldl_digits n⟩
    · rw [ne_eq, List.reverse_eq_nil_iff, Nat.digits_eq_nil_iff_eq_zero]
      exact h
    · intro d hd
      exact Nat.digits_lt_base (by omega) (List.mem_reverse.1 hd)

theorem readSizeLine_toHex (n : Nat) (rest : Bytes) :
    readSizeLine (toHex n ++ 13 :: 10 :: rest) = some (n, rest) := by
  obtain ⟨ds, htext, hne, hlt, hval⟩ := toHex_eq n
  rw [htext, readSizeLine, if_neg, readSize_digits ds hlt, hval]
  obtain ⟨d, ds, rfl⟩ := List.exists_cons_of_ne_nil hne
  simpa using hexDigit_ne_cr (hlt d (List.mem_cons_self ..))

/-! ## Chunks -/

/-- A chunk as it is written. -/
def encodeChunk (data : Bytes) : Bytes := toHex data.length ++ crlf ++ data ++ crlf

/-- The chunk that ends a body. -/
def lastChunk : Bytes := bytes "0" ++ crlf ++ crlf

/-- The data of a chunked body, and what follows it. -/
def decodeChunked : Nat → Bytes → Option (Bytes × Bytes)
  | 0, _ => none
  | fuel + 1, b =>
    match readSizeLine b with
    | none => none
    | some (0, 13 :: 10 :: rest) => some ([], rest)
    | some (0, _) => none
    | some (n + 1, rest) =>
      match rest.drop (n + 1) with
      | 13 :: 10 :: rest' =>
        (decodeChunked fuel rest').map fun (data, tail) => (rest.take (n + 1) ++ data, tail)
      | _ => none

/-- **A chunked body is read back**, with enough steps for its chunks. -/
theorem decodeChunked_encode (chunks : List Bytes) (hchunks : ∀ c ∈ chunks, c ≠ [])
    (rest : Bytes) (fuel : Nat) (hfuel : chunks.length < fuel) :
    decodeChunked fuel (chunks.flatMap encodeChunk ++ lastChunk ++ rest) =
      some (chunks.flatten, rest) := by
  induction chunks generalizing fuel with
  | nil =>
    obtain ⟨fuel, rfl⟩ : ∃ k, fuel = k + 1 := ⟨fuel - 1, by simp at hfuel; omega⟩
    have hsize : readSizeLine (lastChunk ++ rest) = some (0, 13 :: 10 :: rest) := by
      simpa [toHex, lastChunk, bytes, crlf] using readSizeLine_toHex 0 (13 :: 10 :: rest)
    simp [decodeChunked, hsize]
  | cons c chunks ih =>
    obtain ⟨fuel, rfl⟩ : ∃ k, fuel = k + 1 := ⟨fuel - 1, by simp at hfuel; omega⟩
    have hc : c ≠ [] := hchunks c (List.mem_cons_self ..)
    obtain ⟨n, hn⟩ : ∃ n, c.length = n + 1 :=
      ⟨c.length - 1, by have := List.length_pos_iff.2 hc; omega⟩
    have hih := ih (fun d hd => hchunks d (List.mem_cons_of_mem _ hd)) fuel
      (by simp at hfuel; omega)
    set tail := chunks.flatMap encodeChunk ++ lastChunk ++ rest with htail
    have hsize : readSizeLine ((c :: chunks).flatMap encodeChunk ++ lastChunk ++ rest)
        = some (n + 1, c ++ 13 :: 10 :: tail) := by
      rw [← hn]
      have h := readSizeLine_toHex c.length (c ++ 13 :: 10 :: tail)
      simpa [encodeChunk, crlf, htail] using h
    have hdrop : (c ++ 13 :: 10 :: tail).drop (n + 1) = 13 :: 10 :: tail := by
      rw [← hn, List.drop_left]
    have htake : (c ++ 13 :: 10 :: tail).take (n + 1) = c := by
      rw [← hn, List.take_left]
    rw [decodeChunked, hsize]
    simp only [hdrop, htake, hih, Option.map_some, List.flatten_cons]

/-- The payload of a text that is one chunked body and nothing else. -/
def chunkedPayload (b : Bytes) : Option Bytes :=
  match decodeChunked (b.length + 1) b with
  | some (data, []) => some data
  | _ => none

theorem chunkedPayload_encode (chunks : List Bytes) (hchunks : ∀ c ∈ chunks, c ≠ []) :
    chunkedPayload (chunks.flatMap encodeChunk ++ lastChunk) = some chunks.flatten := by
  have hlen : chunks.length ≤ (chunks.flatMap encodeChunk).length := by
    clear hchunks
    induction chunks with
    | nil => simp
    | cons c chunks ih =>
      simp only [List.flatMap_cons, List.length_append, List.length_cons, encodeChunk, crlf,
        List.length_nil] at ih ⊢
      omega
  have hdecode := decodeChunked_encode chunks hchunks []
    ((chunks.flatMap encodeChunk ++ lastChunk).length + 1)
    (by rw [List.length_append]; omega)
  rw [List.append_nil] at hdecode
  simp only [chunkedPayload, hdecode]

end LibEvmvc
