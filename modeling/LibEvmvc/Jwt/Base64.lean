import LibEvmvc.Foundation.Radix64

set_option autoImplicit false

/-! # Base 64

Two alphabets differ in their last two digits and in the filling: `=`, and for URLs `%3d`, which is how
`=` is written there. `encode` writes three bytes as four digits and fills the last group up. `decode`
first counts the fillings at the end, never more than two, then reads the digits; it does not look at
the bits of the last digit that belong to no byte. -/

namespace LibEvmvc

/-- A step that may throw, and what follows. -/
theorem bind_eq_ok {E α β : Type} {x : Except E α} {f : α → Except E β} {b : β} :
    (x >>= f) = .ok b ↔ ∃ a, x = .ok a ∧ f a = .ok b := by
  cases x with
  | error e => simp [bind, Except.bind]
  | ok a => simp [bind, Except.bind]

/-- A check that may throw, and what follows. -/
theorem seq_eq_ok {E β : Type} {x : Except E Unit} {f : Unit → Except E β} {b : β} :
    (x >>= f) = .ok b ↔ x = .ok () ∧ f () = .ok b := by
  cases x with
  | error e => simp [bind, Except.bind]
  | ok a => simp [bind, Except.bind]

/-! ## The alphabets -/

/-- Letters and decimal digits, and two more. -/
def digits64 (last : Bytes) : Bytes :=
  bytes "ABCDEFGHIJKLMNOPQRSTUVWXYZabcdefghijklmnopqrstuvwxyz0123456789" ++ last

/-- `alphabet::base64`. -/
def base64 : Alphabet where
  digits := digits64 (bytes "+/")
  fill := bytes "="
  length_digits := by decide
  nodup := by decide
  fill_clear := ⟨61, [], rfl, by decide⟩

/-- `alphabet::base64url`. -/
def base64url : Alphabet where
  digits := digits64 (bytes "-_")
  fill := bytes "%3d"
  length_digits := by decide
  nodup := by decide
  fill_clear := ⟨37, bytes "3d", rfl, by decide⟩

namespace Alphabet

variable (A : Alphabet)

/-! ## Encoding and decoding -/

/-- `base::encode`: whole groups, then what is left of the last one. -/
def encode : Bytes → Bytes
  | a :: b :: c :: rest =>
    let t := triple a b c
    A.digit (sextet t 3) :: A.digit (sextet t 2) :: A.digit (sextet t 1) :: A.digit (sextet t 0) ::
      encode rest
  | [a, b] =>
    let t := triple a b 0
    [A.digit (sextet t 3), A.digit (sextet t 2), A.digit (sextet t 1)] ++ A.fill
  | [a] =>
    let t := triple a 0 0
    [A.digit (sextet t 3), A.digit (sextet t 2)] ++ A.fill ++ A.fill
  | [] => []

/-- The runtime error of `base::decode`. -/
def invalidInput : Bytes := bytes "Invalid input"

/-- Count the fillings at the end: the size without them, and how many there are. The third one throws,
    so three rounds are enough. -/
def countFill (base : Bytes) : Nat → Nat → Nat → Except Bytes (Nat × Nat)
  | 0, _, _ => .error invalidInput
  | rounds + 1, size, cnt =>
    if A.fill.length < size ∧ substr base (size - A.fill.length) A.fill.length = A.fill then
      if 2 < cnt + 1 then .error invalidInput
      else countFill base rounds (size - A.fill.length) (cnt + 1)
    else .ok (size, cnt)

/-- `get_sextet`. -/
def getSextet (c : UInt8) : Except Bytes Nat :=
  match A.value c with
  | some v => .ok v
  | none => .error invalidInput

/-- The last group, by the number of fillings. The length that `decode` has checked leaves no other
    cases. -/
def readRest (cnt : Nat) : Bytes → Except Bytes Bytes
  | a :: b :: more =>
    if cnt = 0 then .ok []
    else do
      let a ← A.getSextet a
      let b ← A.getSextet b
      match cnt, more with
      | 1, c :: _ => do
        let c ← A.getSextet c
        return [octet (quad a b c 0) 2, octet (quad a b c 0) 1]
      | 2, _ => return [octet (quad a b 0 0) 2]
      | _, _ => return []
  | _ => .ok []

/-- The groups of digits, then the last one. -/
def readGroups (cnt : Nat) : Bytes → Except Bytes Bytes
  | a :: b :: c :: d :: rest => do
    let a ← A.getSextet a
    let b ← A.getSextet b
    let c ← A.getSextet c
    let d ← A.getSextet d
    let t := quad a b c d
    let res ← readGroups cnt rest
    return octet t 2 :: octet t 1 :: octet t 0 :: res
  | rest => A.readRest cnt rest

/-- `base::decode`. -/
def decode (base : Bytes) : Except Bytes Bytes := do
  let (size, cnt) ← A.countFill base 3 base.length 0
  if (size + cnt) % 4 ≠ 0 then .error invalidInput
  else A.readGroups cnt (base.take size)

/-- `n` fillings. -/
def fills (n : Nat) : Bytes := (List.replicate n A.fill).flatten

variable {A}

/-! ## Encoding -/

theorem encode_eq (b : Bytes) :
    A.encode b = A.spell (sextets b) ++ A.fills ((3 - b.length % 3) % 3) := by
  induction b using Alphabet.encode.induct with
  | case1 a b c rest ih =>
    have hlen : (a :: b :: c :: rest).length % 3 = rest.length % 3 := by
      simp only [List.length_cons]
      omega
    rw [hlen, encode, ih]
    rfl
  | case2 a b => simp [encode, sextets, spell, fills]
  | case3 a => simp [encode, sextets, spell, fills]
  | case4 => rfl

/-! ## The fillings -/

theorem length_fills (n : Nat) : (A.fills n).length = n * A.fill.length := by
  simp [fills]

theorem fills_succ (n : Nat) : A.fills (n + 1) = A.fills n ++ A.fill := by
  simp [fills, List.replicate_succ']

theorem spell_digits {vs : List Nat} (h : ∀ v ∈ vs, v < 64) : ∀ c ∈ A.spell vs, c ∈ A.digits := by
  intro c hc
  obtain ⟨v, hv, rfl⟩ := List.mem_map.1 hc
  exact digit_mem (h v hv)

/-- Digits do not end with a filling. -/
theorem not_fill_suffix {body : Bytes} (hbody : ∀ c ∈ body, c ∈ A.digits) :
    ¬ A.fill <:+ body := by
  obtain ⟨c, rest, hfill, hc⟩ := A.fill_clear
  rintro ⟨pre, rfl⟩
  exact hc (hbody c (by simp [hfill]))

/-- One filling more or less. -/
theorem countFill_step (c : Bytes) (rounds size cnt : Nat) :
    A.countFill c (rounds + 1) size cnt =
      if A.fill.length < size ∧ substr c (size - A.fill.length) A.fill.length = A.fill then
        if 2 < cnt + 1 then .error invalidInput
        else A.countFill c rounds (size - A.fill.length) (cnt + 1)
      else .ok (size, cnt) := rfl

/-- What stands in front of a size that ends with a filling. -/
theorem substr_fill_iff {c : Bytes} {size : Nat} (hsize : size ≤ c.length)
    (hfill : A.fill.length < size) :
    substr c (size - A.fill.length) A.fill.length = A.fill ↔ A.fill <:+ c.take size := by
  have hsub : substr c (size - A.fill.length) A.fill.length =
      (c.take size).drop (size - A.fill.length) := by
    rw [substr, List.drop_take]
    congr 1
    omega
  have hlen : (c.take size).length = size := by simp [hsize]
  rw [hsub]
  constructor
  · intro h
    rw [← h]
    exact List.drop_suffix _ _
  · intro h
    rw [List.suffix_iff_eq_drop, hlen] at h
    exact h.symm

/-- Counting stops in front of the fillings. -/
theorem countFill_spell {body : Bytes} (hbody : ∀ c ∈ body, c ∈ A.digits) (hne : body ≠ [])
    {k cnt : Nat} (hk : cnt + k ≤ 2) (post : Bytes) :
    A.countFill (body ++ A.fills k ++ post) (3 - cnt) (body.length + k * A.fill.length) cnt =
      .ok (body.length, cnt + k) := by
  have hpos : 0 < body.length := List.length_pos_iff.2 hne
  induction k generalizing cnt post with
  | zero =>
    obtain ⟨rounds, hrounds⟩ : ∃ rounds, 3 - cnt = rounds + 1 := ⟨2 - cnt, by omega⟩
    rw [hrounds, countFill_step, if_neg]
    · simp
    · rintro ⟨hlt, hsub⟩
      rw [Nat.zero_mul, Nat.add_zero] at hlt hsub
      rw [substr_fill_iff (by simp [fills]) hlt] at hsub
      exact not_fill_suffix hbody (by simpa [fills] using hsub)
  | succ k ih =>
    obtain ⟨rounds, hrounds⟩ : ∃ rounds, 3 - cnt = rounds + 1 := ⟨2 - cnt, by omega⟩
    have hsize : body.length + (k + 1) * A.fill.length - A.fill.length =
        body.length + k * A.fill.length := by
      rw [Nat.succ_mul]
      omega
    have hlt : A.fill.length < body.length + (k + 1) * A.fill.length := by
      rw [Nat.succ_mul]
      omega
    have hfound : substr (body ++ A.fills (k + 1) ++ post)
        (body.length + (k + 1) * A.fill.length - A.fill.length) A.fill.length = A.fill := by
      rw [hsize, fills_succ]
      have hmid := substr_mid (body ++ A.fills k) A.fill post
      rw [List.length_append, length_fills] at hmid
      simpa [List.append_assoc] using hmid
    rw [hrounds, countFill_step, if_pos ⟨hlt, hfound⟩, if_neg (by omega), hsize]
    have hnext := @ih (cnt + 1) (by omega) (A.fill ++ post)
    have hr : 3 - (cnt + 1) = rounds := by omega
    rw [hr] at hnext
    rw [fills_succ]
    simpa [List.append_assoc, Nat.add_assoc, Nat.add_comm, Nat.add_left_comm] using hnext

/-- What counting leaves, and how much it has taken. -/
theorem countFill_split {c : Bytes} {rounds size cnt size' cnt' : Nat} (hsize : size ≤ c.length)
    (hcnt : cnt ≤ 2) (h : A.countFill c rounds size cnt = .ok (size', cnt')) :
    ∃ k, cnt' = cnt + k ∧ cnt' ≤ 2 ∧ size' ≤ size ∧ c.take size = c.take size' ++ A.fills k := by
  induction rounds generalizing size cnt with
  | zero => exact absurd h (by simp [countFill])
  | succ rounds ih =>
    rw [countFill_step] at h
    split at h
    · next hfill =>
      split at h
      · exact absurd h (by simp)
      · next htwo =>
        obtain ⟨k, hk, hle, hsize', htake⟩ := ih (by omega) (by omega) h
        refine ⟨k + 1, by omega, hle, by omega, ?_⟩
        obtain ⟨pre, hpre⟩ := (substr_fill_iff hsize hfill.1).1 hfill.2
        have hcut : c.take (size - A.fill.length) = pre := by
          have hlen := congrArg List.length hpre
          simp only [List.length_append, List.length_take, Nat.min_eq_left hsize] at hlen
          have htt : c.take (size - A.fill.length) =
              (c.take size).take (size - A.fill.length) := by
            rw [List.take_take, Nat.min_eq_left (by omega)]
          rw [htt, ← hpre, List.take_append_of_le_length (by omega), List.take_of_length_le (by omega)]
        rw [fills_succ, ← List.append_assoc, ← htake, hcut, hpre]
    · obtain ⟨rfl, rfl⟩ := Prod.mk.inj (Except.ok.inj h)
      exact ⟨0, rfl, hcnt, le_rfl, by simp [fills]⟩

/-! ## The digits -/

theorem getSextet_eq_ok {c : UInt8} {v : Nat} :
    A.getSextet c = .ok v ↔ v < 64 ∧ A.digit v = c := by
  rw [getSextet, ← value_eq_some]
  cases A.value c with
  | none => simp
  | some u => simp

/-- The last group is read if it is digits. -/
theorem readRest_eq_ok {cnt : Nat} (hcnt : cnt ≤ 2) {rest b : Bytes}
    (hlen : (rest.length + cnt) % 4 = 0) (hfour : rest.length < 4) :
    A.readRest cnt rest = .ok b ↔
      ∃ vs, (∀ v ∈ vs, v < 64) ∧ rest = A.spell vs ∧ b = octets vs := by
  rcases rest with _ | ⟨x, _ | ⟨y, _ | ⟨z, _ | ⟨w, rest⟩⟩⟩⟩
  · constructor
    · intro h
      exact ⟨[], by simp, rfl, (Except.ok.inj h).symm⟩
    · rintro ⟨vs, -, hbody, rfl⟩
      obtain rfl : vs = [] := List.map_eq_nil_iff.1 hbody.symm
      rfl
  · simp only [List.length_cons, List.length_nil] at hlen
    omega
  · obtain rfl : cnt = 2 := by
      simp only [List.length_cons, List.length_nil] at hlen
      omega
    rw [readRest, if_neg (by decide)]
    simp only [bind_eq_ok, getSextet_eq_ok, pure, Except.pure, Except.ok.injEq]
    constructor
    · rintro ⟨x, ⟨hx, rfl⟩, y, ⟨hy, rfl⟩, rfl⟩
      exact ⟨[x, y], by simp [hx, hy], rfl, rfl⟩
    · rintro ⟨vs, hvs, hbody, rfl⟩
      obtain ⟨x, xs, rfl, rfl, hxs⟩ := List.map_eq_cons_iff.1 hbody.symm
      obtain ⟨y, ys, rfl, rfl, hys⟩ := List.map_eq_cons_iff.1 hxs
      obtain rfl := List.map_eq_nil_iff.1 hys
      simp only [List.forall_mem_cons] at hvs
      exact ⟨x, ⟨hvs.1, rfl⟩, y, ⟨hvs.2.1, rfl⟩, rfl⟩
  · obtain rfl : cnt = 1 := by
      simp only [List.length_cons, List.length_nil] at hlen
      omega
    rw [readRest, if_neg (by decide)]
    simp only [bind_eq_ok, getSextet_eq_ok, pure, Except.pure, Except.ok.injEq]
    constructor
    · rintro ⟨x, ⟨hx, rfl⟩, y, ⟨hy, rfl⟩, z, ⟨hz, rfl⟩, rfl⟩
      exact ⟨[x, y, z], by simp [hx, hy, hz], rfl, rfl⟩
    · rintro ⟨vs, hvs, hbody, rfl⟩
      obtain ⟨x, xs, rfl, rfl, hxs⟩ := List.map_eq_cons_iff.1 hbody.symm
      obtain ⟨y, ys, rfl, rfl, hys⟩ := List.map_eq_cons_iff.1 hxs
      obtain ⟨z, zs, rfl, rfl, hzs⟩ := List.map_eq_cons_iff.1 hys
      obtain rfl := List.map_eq_nil_iff.1 hzs
      simp only [List.forall_mem_cons] at hvs
      exact ⟨x, ⟨hvs.1, rfl⟩, y, ⟨hvs.2.1, rfl⟩, z, ⟨hvs.2.2.1, rfl⟩, rfl⟩
  · simp only [List.length_cons] at hfour
    omega

/-- The groups are read if all of it is digits. -/
theorem readGroups_eq_ok {cnt : Nat} (hcnt : cnt ≤ 2) {body b : Bytes}
    (hlen : (body.length + cnt) % 4 = 0) :
    A.readGroups cnt body = .ok b ↔
      ∃ vs, (∀ v ∈ vs, v < 64) ∧ body = A.spell vs ∧ b = octets vs := by
  induction body using Alphabet.readGroups.induct generalizing b with
  | case1 x y z w rest ih =>
    have hrest : (rest.length + cnt) % 4 = 0 := by
      simp only [List.length_cons] at hlen
      omega
    simp only [readGroups, bind_eq_ok, getSextet_eq_ok, ih hrest, pure, Except.pure, Except.ok.injEq]
    constructor
    · rintro ⟨x, ⟨hx, rfl⟩, y, ⟨hy, rfl⟩, z, ⟨hz, rfl⟩, w, ⟨hw, rfl⟩, res, ⟨vs, hvs, rfl, rfl⟩, rfl⟩
      refine ⟨x :: y :: z :: w :: vs, ?_, rfl, rfl⟩
      simp only [List.forall_mem_cons]
      exact ⟨hx, hy, hz, hw, hvs⟩
    · rintro ⟨vs, hvs, hbody, rfl⟩
      obtain ⟨x, xs, rfl, rfl, hxs⟩ := List.map_eq_cons_iff.1 hbody.symm
      obtain ⟨y, ys, rfl, rfl, hys⟩ := List.map_eq_cons_iff.1 hxs
      obtain ⟨z, zs, rfl, rfl, hzs⟩ := List.map_eq_cons_iff.1 hys
      obtain ⟨w, vs, rfl, rfl, rfl⟩ := List.map_eq_cons_iff.1 hzs
      simp only [List.forall_mem_cons] at hvs
      obtain ⟨hx, hy, hz, hw, hvs⟩ := hvs
      exact ⟨x, ⟨hx, rfl⟩, y, ⟨hy, rfl⟩, z, ⟨hz, rfl⟩, w, ⟨hw, rfl⟩, _, ⟨vs, hvs, rfl, rfl⟩, rfl⟩
  | case2 body hshort =>
    have hfour : body.length < 4 := by
      by_contra hnot
      rcases body with _ | ⟨x, _ | ⟨y, _ | ⟨z, _ | ⟨w, rest⟩⟩⟩⟩
      · exact hnot (by simp)
      · exact hnot (by simp)
      · exact hnot (by simp)
      · exact hnot (by simp)
      · exact hshort x y z w rest rfl
    have hrest : A.readGroups cnt body = A.readRest cnt body := by
      rw [readGroups]
      exact hshort
    rw [hrest]
    exact readRest_eq_ok hcnt hlen hfour

/-! ## Decoding -/

/-- **What `decode` accepts**: digits with at most two fillings behind them, together a multiple of
    four. -/
theorem decode_eq_ok_iff {c b : Bytes} :
    A.decode c = .ok b ↔
      ∃ vs k, (∀ v ∈ vs, v < 64) ∧ k ≤ 2 ∧ (vs.length + k) % 4 = 0 ∧ c = A.spell vs ++ A.fills k ∧
        b = octets vs := by
  rw [decode, bind_eq_ok]
  constructor
  · rintro ⟨⟨size, cnt⟩, hcount, hread⟩
    obtain ⟨k, hk, htwo, hsize, htake⟩ := countFill_split le_rfl (by decide) hcount
    rw [List.take_length] at htake
    simp only at hread
    split at hread
    · exact absurd hread (by simp)
    · next hmod =>
      have hlen : (c.take size).length = size := by simp [hsize]
      have hmod' : ((c.take size).length + cnt) % 4 = 0 := by
        rw [hlen]
        exact not_not.1 hmod
      obtain ⟨vs, hvs, hbody, rfl⟩ := (readGroups_eq_ok htwo hmod').1 hread
      rw [Nat.zero_add] at hk
      subst hk
      refine ⟨vs, cnt, hvs, htwo, ?_, by rw [htake, hbody], rfl⟩
      rw [hbody] at hmod'
      simpa [spell] using hmod'
  · rintro ⟨vs, k, hvs, hk, hmod, rfl, rfl⟩
    have hlen : (A.spell vs).length = vs.length := by simp [spell]
    refine ⟨(vs.length, k), ?_, ?_⟩
    · by_cases hnil : vs = []
      · subst hnil
        obtain rfl : k = 0 := by
          simp only [List.length_nil] at hmod
          omega
        simp [spell, fills, countFill]
      · have hne : A.spell vs ≠ [] := by simpa [spell] using hnil
        have hcount : A.countFill (A.spell vs ++ A.fills k ++ []) (3 - 0)
            ((A.spell vs).length + k * A.fill.length) 0 = .ok ((A.spell vs).length, 0 + k) :=
          countFill_spell (spell_digits hvs) hne (by omega) []
        rw [List.append_nil, hlen, Nat.zero_add] at hcount
        rw [List.length_append, hlen, length_fills]
        exact hcount
    · have htake : (A.spell vs ++ A.fills k).take vs.length = A.spell vs := by
        rw [← hlen, List.take_left]
      simp only [hmod, ne_eq, not_true_eq_false, if_false, htake]
      exact (readGroups_eq_ok hk (by rw [hlen]; exact hmod)).2 ⟨vs, hvs, rfl, rfl⟩

theorem length_sextets_fill (b : Bytes) :
    ((sextets b).length + (3 - b.length % 3) % 3) % 4 = 0 := by
  rw [length_sextets]
  split <;> omega

/-- What was encoded is decoded again. -/
theorem decode_encode (b : Bytes) : A.decode (A.encode b) = .ok b := by
  rw [decode_eq_ok_iff, encode_eq]
  exact ⟨sextets b, _, sextets_lt b, by omega, length_sextets_fill b, rfl, (octets_sextets b).symm⟩

/-- Encoding again gives the same text if the last digit has no bits of its own. -/
theorem encode_octets_iff {vs : List Nat} {k : Nat} (hvs : ∀ v ∈ vs, v < 64) (hk : k ≤ 2)
    (hlen : (vs.length + k) % 4 = 0) :
    A.encode (octets vs) = A.spell vs ++ A.fills k ↔ spareBits vs = 0 := by
  have hone : vs.length % 4 ≠ 1 := by omega
  have hfills : (3 - (octets vs).length % 3) % 3 = k := by
    rw [length_octets]
    split <;> omega
  rw [encode_eq, hfills, ← sextets_octets_iff hvs hone]
  constructor
  · intro h
    exact spell_inj (sextets_lt _) hvs (List.append_cancel_right h)
  · intro h
    rw [h]

/-- **Base 64, both ways**: what was encoded is decoded again; what is decoded is digits with at most two
    fillings, together a multiple of four, and it is what encoding writes exactly if the last digit has
    no bits of its own. -/
theorem decode_exact (A : Alphabet) (b c : Bytes) :
    A.decode (A.encode b) = .ok b ∧
      (A.decode c = .ok b ↔
        ∃ vs k, (∀ v ∈ vs, v < 64) ∧ k ≤ 2 ∧ (vs.length + k) % 4 = 0 ∧
          c = A.spell vs ++ A.fills k ∧ b = octets vs ∧ (A.encode b = c ↔ spareBits vs = 0)) := by
  refine ⟨decode_encode b, decode_eq_ok_iff.trans ⟨?_, ?_⟩⟩
  · rintro ⟨vs, k, hvs, hk, hlen, rfl, rfl⟩
    exact ⟨vs, k, hvs, hk, hlen, rfl, rfl, encode_octets_iff hvs hk hlen⟩
  · rintro ⟨vs, k, hvs, hk, hlen, hc, hb, -⟩
    exact ⟨vs, k, hvs, hk, hlen, hc, hb⟩

/-- The bits of a last digit that belong to no byte are not looked at. -/
example : base64.decode (bytes "QR==") = .ok (bytes "A") ∧
    base64.encode (bytes "A") = bytes "QQ==" := by
  decide

end Alphabet

end LibEvmvc
