import LibEvmvc.Worker.Payload

set_option autoImplicit false

/-! # Looking ahead in a payload

`peak` and `peak_list` are to return what `read` and `read_list` would return from a position further
on. They are told how far, but `peak` of an integer type does not pass the offset on to `_peak` and
always looks at the read position. So does everything that is made of it: the length of a text, the
number of elements of a list, and the elements of a list of integers. -/

namespace LibEvmvc

section Peaking

variable (mem : Nat → UInt8)

/-- `peak<T>` of an integer type: the offset goes unused. -/
def peakInt (w : IntWidth) (_offset : Nat) : CmdM (BitVec (8 * w.size)) := do
  let b ← peakRaw mem w.size 0
  pure (BitVec.ofNat _ (leNat b))

/-- `peak<size_t>(offset)`. -/
def peakSizeT (offset : Nat) : CmdM Nat := do
  let n ← peakInt mem .w64 offset
  pure n.toNat

/-- `peak<T>`. -/
def Elem.peak : (T : Elem) → Nat → CmdM T.Val
  | .int w, offset => peakInt mem w offset
  | .str, offset => do
    let l ← peakSizeT mem offset
    peakRaw mem l ((offset + IntWidth.w64.size) % 2 ^ 64)

/-- By how much `peak_list` goes on after an element. -/
def Elem.step : (T : Elem) → T.Val → Nat
  | .int w, _ => w.size
  | .str, s => IntWidth.w64.size + s.length

/-- The loop of `peak_list`, with the elements seen so far. -/
def Elem.peakItems (T : Elem) : Nat → Nat → List T.Val → CmdM (List T.Val)
  | 0, _, v => pure v
  | n + 1, offset, v => do
    let x ← T.peak mem offset
    T.peakItems n ((offset + T.step x) % 2 ^ 64) (v ++ [x])

/-- `peak` or `peak_list`, the latter into an empty vector. -/
def Kind.peak : (k : Kind) → Nat → CmdM k.Val
  | .one T, offset => T.peak mem offset
  | .list T, offset => do
    let s ← peakSizeT mem 0
    T.peakItems mem s ((offset + IntWidth.w64.size) % 2 ^ 64) []

end Peaking

/-! ## What is returned -/

section Returned

variable (mem : Nat → UInt8) {c : Cmd}

/-- The bytes of the payload from a position on, as `_peak` copies them. -/
def Cmd.copy (c : Cmd) (offset n : Nat) : Bytes := memcpy mem c.buf ((c.rpos + offset) % 2 ^ 64) n

/-- The number at the read position. -/
def Cmd.sizeHere (c : Cmd) : Nat := leNat (c.copy mem 0 IntWidth.w64.size)

theorem length_memcpy (s : Bytes) (start n : Nat) : (memcpy mem s start n).length = n := by
  simp [memcpy]

theorem peakInt_on (h : c.buf ≠ []) (w : IntWidth) (offset : Nat) :
    (peakInt mem w offset).on c = (.ok (BitVec.ofNat _ (leNat (c.copy mem 0 w.size))), c) := by
  rw [peakInt, CmdM.on_bind_ok (peakRaw_on mem h w.size 0), CmdM.on_pure]
  rfl

theorem peakSizeT_on (h : c.buf ≠ []) (offset : Nat) :
    (peakSizeT mem offset).on c = (.ok (c.sizeHere mem), c) := by
  have hlt : leNat (c.copy mem 0 IntWidth.w64.size) < 2 ^ (8 * IntWidth.w64.size) := by
    have hlt := leNat_lt (c.copy mem 0 IntWidth.w64.size)
    rw [Cmd.copy, length_memcpy] at hlt
    exact hlt
  rw [peakSizeT, CmdM.on_bind_ok (peakInt_on mem h .w64 offset), CmdM.on_pure, BitVec.toNat_ofNat,
    Nat.mod_eq_of_lt hlt, Cmd.sizeHere]

/-- What `peak<T>` returns. -/
def Cmd.peaked (c : Cmd) : (T : Elem) → Nat → T.Val
  | .int w, _ => BitVec.ofNat _ (leNat (c.copy mem 0 w.size))
  | .str, offset => c.copy mem ((offset + IntWidth.w64.size) % 2 ^ 64) (c.sizeHere mem)

theorem peak_on (h : c.buf ≠ []) (T : Elem) (offset : Nat) :
    (T.peak mem offset).on c = (.ok (c.peaked mem T offset), c) := by
  cases T with
  | int w => exact peakInt_on mem h w offset
  | str =>
    rw [Elem.peak, CmdM.on_bind_ok (peakSizeT_on mem h offset), peakRaw_on mem h]
    rfl

/-- By how much `peak_list` goes on: by the same for each element. -/
def Cmd.stride (c : Cmd) : Elem → Nat
  | .int w => w.size
  | .str => IntWidth.w64.size + c.sizeHere mem

theorem step_peaked (T : Elem) (offset : Nat) : T.step (c.peaked mem T offset) = c.stride mem T := by
  cases T with
  | int w => rfl
  | str => exact congrArg (IntWidth.w64.size + ·) (length_memcpy mem _ _ _)

/-- The elements that `peak_list` sees. -/
def Cmd.peakedItems (c : Cmd) (T : Elem) : Nat → Nat → List T.Val
  | 0, _ => []
  | n + 1, offset => c.peaked mem T offset :: c.peakedItems T n ((offset + c.stride mem T) % 2 ^ 64)

theorem peakItems_on (h : c.buf ≠ []) (T : Elem) (n offset : Nat) (v : List T.Val) :
    (T.peakItems mem n offset v).on c = (.ok (v ++ c.peakedItems mem T n offset), c) := by
  induction n generalizing offset v with
  | zero => rw [Elem.peakItems, CmdM.on_pure, Cmd.peakedItems, List.append_nil]
  | succ n ih =>
    rw [Elem.peakItems, CmdM.on_bind_ok (peak_on mem h T offset), step_peaked, ih, List.append_assoc,
      List.singleton_append, Cmd.peakedItems]

/-- What `peak` and `peak_list` return. -/
def Cmd.peakedKind (c : Cmd) : (k : Kind) → Nat → k.Val
  | .one T, offset => c.peaked mem T offset
  | .list T, offset =>
    c.peakedItems mem T (c.sizeHere mem) ((offset + IntWidth.w64.size) % 2 ^ 64)

/-- A payload that is not empty can be looked into anywhere, and the command stays as it is. -/
theorem peakKind_on (h : c.buf ≠ []) (k : Kind) (offset : Nat) :
    (k.peak mem offset).on c = (.ok (c.peakedKind mem k offset), c) := by
  cases k with
  | one T => exact peak_on mem h T offset
  | list T =>
    rw [Kind.peak, CmdM.on_bind_ok (peakSizeT_on mem h 0), peakItems_on mem h T, List.nil_append,
      Cmd.peakedKind]

end Returned

/-! ## What is there -/

/-- `n` bytes of the payload. -/
def Cmd.bytesAt (c : Cmd) (i n : Nat) : Bytes := (c.buf.drop i).take n

/-- The number in eight bytes of the payload. -/
def Cmd.sizeAt (c : Cmd) (i : Nat) : Nat := leNat (c.bytesAt i IntWidth.w64.size)

/-- `n` bytes from an index on lie in the payload; the index is a `size_t`. -/
def Cmd.Within (c : Cmd) (i n : Nat) : Prop := n = 0 ∨ i % 2 ^ 64 + n ≤ c.buf.length

section There

variable (mem : Nat → UInt8) {c : Cmd}

theorem length_bytesAt {i n : Nat} (h : i + n ≤ c.buf.length) : (c.bytesAt i n).length = n := by
  rw [Cmd.bytesAt, List.length_take_of_le]
  rw [List.length_drop]
  omega

theorem Cmd.Within.congr {i j n : Nat} (h : c.Within i n) (heq : j % 2 ^ 64 = i % 2 ^ 64) :
    c.Within j n := h.imp_right fun hle => heq ▸ hle

/-- What lies in the payload is copied from there. -/
theorem copy_within {offset n : Nat} (h : c.Within (c.rpos + offset) n) :
    c.copy mem offset n = c.bytesAt ((c.rpos + offset) % 2 ^ 64) n := by
  rcases h with rfl | hle
  · rw [Cmd.bytesAt, List.take_zero]
    rfl
  · have hsplit : c.buf.drop ((c.rpos + offset) % 2 ^ 64)
        = c.bytesAt ((c.rpos + offset) % 2 ^ 64) n
          ++ (c.buf.drop ((c.rpos + offset) % 2 ^ 64)).drop n :=
      (List.take_append_drop n _).symm
    have hcopy := memcpy_inside mem c.size_lt hsplit
    rw [length_bytesAt hle] at hcopy
    exact hcopy

theorem copy_inside {offset n : Nat} (h : c.rpos + offset + n ≤ c.buf.length) :
    c.copy mem offset n = c.bytesAt (c.rpos + offset) n := by
  rcases Nat.eq_zero_or_pos n with rfl | hpos
  · rw [copy_within mem (.inl rfl), Cmd.bytesAt, Cmd.bytesAt, List.take_zero, List.take_zero]
  · have hsize := c.size_lt
    have hmod : (c.rpos + offset) % 2 ^ 64 = c.rpos + offset := Nat.mod_eq_of_lt (by omega)
    have hcopy := @copy_within mem c offset n (.inr (by rwa [hmod]))
    rwa [hmod] at hcopy

theorem sizeHere_inside (h : c.rpos + IntWidth.w64.size ≤ c.buf.length) :
    c.sizeHere mem = c.sizeAt c.rpos := by
  rw [Cmd.sizeHere, @copy_inside mem c 0 _ h, Nat.add_zero, Cmd.sizeAt]

theorem leNat_inj {a b : Bytes} (hlen : a.length = b.length) (h : leNat a = leNat b) : a = b := by
  rw [← leBytes_leNat a, ← leBytes_leNat b, hlen, h]

/-- Two integers are the same when their bytes are. -/
theorem ofNat_leNat_inj {w : IntWidth} {a b : Bytes} (ha : a.length = w.size) (hb : b.length = w.size) :
    BitVec.ofNat (8 * w.size) (leNat a) = BitVec.ofNat (8 * w.size) (leNat b) ↔ a = b := by
  constructor
  · intro h
    have hlt (x : Bytes) (hx : x.length = w.size) : leNat x < 2 ^ (8 * w.size) := by
      have hlt := leNat_lt x
      rw [hx] at hlt
      rw [Nat.pow_mul]
      exact hlt
    have hnat := congrArg BitVec.toNat h
    rw [BitVec.toNat_ofNat, BitVec.toNat_ofNat, Nat.mod_eq_of_lt (hlt a ha),
      Nat.mod_eq_of_lt (hlt b hb)] at hnat
    exact leNat_inj (ha.trans hb.symm) hnat
  · rintro rfl
    rfl

/-- A size that is there. -/
theorem size_there {i n : Nat} {r : Bytes} (h : sizeCodec.dec (c.buf.drop i) = some (n, r)) :
    i + IntWidth.w64.size ≤ c.buf.length ∧ n = c.sizeAt i ∧
      r = c.buf.drop (i + IntWidth.w64.size) := by
  obtain ⟨hw, hn, -⟩ := natCodec_some h
  have hrest := sizeCodec.dec_split h
  have hlen : (sizeCodec.enc n).length = IntWidth.w64.size := length_leBytes ..
  have hpos : 0 < IntWidth.w64.size := by decide
  rw [List.length_drop] at hw
  refine ⟨by omega, hn, ?_⟩
  rw [← List.drop_drop, hrest, List.drop_left' hlen]

/-- An integer that is there. -/
theorem int_there {w : IntWidth} {i : Nat} {v : BitVec (8 * w.size)} {r : Bytes}
    (h : (intCodec w).dec (c.buf.drop i) = some (v, r)) :
    i + w.size ≤ c.buf.length ∧ v = BitVec.ofNat _ (leNat (c.bytesAt i w.size)) ∧
      r = c.buf.drop (i + w.size) := by
  obtain ⟨⟨n, r'⟩, hdec, hmap⟩ := Option.map_eq_some_iff.1 h
  obtain ⟨rfl, rfl⟩ := Prod.mk.inj hmap
  obtain ⟨hw, rfl, -⟩ := natCodec_some hdec
  have hrest := (intCodec w).dec_split h
  have hlen : ((intCodec w).enc (BitVec.ofNat _ (leNat ((c.buf.drop i).take w.size)))).length
      = w.size := length_leBytes ..
  have hpos : 0 < w.size := by cases w <;> decide
  rw [List.length_drop] at hw
  refine ⟨by omega, rfl, ?_⟩
  rw [← List.drop_drop, hrest, List.drop_left' hlen]

/-- A text that is there. -/
theorem str_there {i : Nat} {s r : Bytes} (h : Elem.str.codec.dec (c.buf.drop i) = some (s, r)) :
    i + IntWidth.w64.size + s.length ≤ c.buf.length ∧ s.length = c.sizeAt i ∧
      s = c.bytesAt (i + IntWidth.w64.size) s.length ∧
      r = c.buf.drop (i + IntWidth.w64.size + s.length) := by
  obtain ⟨n, m, hsize, htext⟩ := Codec.counted_some.1 h
  obtain ⟨hle, hn, rfl⟩ := size_there hsize
  obtain ⟨rfl, hm⟩ := byteCodec.times_split htext
  rw [flatMap_byteCodec] at hm
  have hlen := congrArg List.length hm
  rw [List.length_drop, List.length_append] at hlen
  refine ⟨by omega, hn, ?_, ?_⟩
  · rw [Cmd.bytesAt, hm, List.take_left]
  · rw [← List.drop_drop, hm, List.drop_left]

end There

/-! ## Where both agree -/

/-- The offset makes no difference: the bytes it leads to are those at the read position. In a list of
    integers these are also the bytes of every element, and in a list of texts each text has as many
    bytes as the list has texts. -/
def Cmd.PeekAgrees (c : Cmd) (offset : Nat) : Kind → Prop
  | .one (.int w) => c.bytesAt (c.rpos + offset) w.size = c.bytesAt c.rpos w.size
  | .one .str => c.sizeAt (c.rpos + offset) = c.sizeAt c.rpos
  | .list (.int w) =>
    c.sizeAt (c.rpos + offset) = c.sizeAt c.rpos ∧ ∀ i < c.sizeAt c.rpos,
      c.bytesAt (c.rpos + offset + IntWidth.w64.size + i * w.size) w.size = c.bytesAt c.rpos w.size
  | .list .str =>
    c.sizeAt (c.rpos + offset) = c.sizeAt c.rpos ∧ ∀ i < c.sizeAt c.rpos,
      c.sizeAt (c.rpos + offset + IntWidth.w64.size + i * (IntWidth.w64.size + c.sizeAt c.rpos))
        = c.sizeAt c.rpos

section Agree

variable (mem : Nat → UInt8) {c : Cmd} {offset : Nat}

theorem peaked_int_iff {w : IntWidth} {v : BitVec (8 * w.size)} {r : Bytes}
    (h : (intCodec w).dec (c.buf.drop (c.rpos + offset)) = some (v, r)) :
    c.peaked mem (.int w) offset = v ↔ c.PeekAgrees offset (.one (.int w)) := by
  obtain ⟨hle, rfl, -⟩ := int_there h
  have hhere : c.copy mem 0 w.size = c.bytesAt c.rpos w.size :=
    @copy_inside mem c 0 _ (by omega)
  have hlen := length_bytesAt hle
  have hlen' : (c.bytesAt c.rpos w.size).length = w.size := length_bytesAt (by omega)
  rw [Cmd.peaked, hhere, ofNat_leNat_inj hlen' hlen]
  exact eq_comm

/-- A text comes out right when its length is the number at the read position. -/
theorem peaked_str_iff {s r : Bytes} (hhere : c.rpos + IntWidth.w64.size ≤ c.buf.length)
    (h : Elem.str.codec.dec (c.buf.drop (c.rpos + offset)) = some (s, r)) :
    c.peaked mem .str offset = s ↔ c.sizeAt (c.rpos + offset) = c.sizeAt c.rpos := by
  obtain ⟨hle, hlen, htext, -⟩ := str_there h
  have hsize := c.size_lt
  have hoffset : (offset + IntWidth.w64.size) % 2 ^ 64 = offset + IntWidth.w64.size :=
    Nat.mod_eq_of_lt (by omega)
  rw [Cmd.peaked, sizeHere_inside mem hhere, hoffset, ← hlen]
  constructor
  · intro heq
    have hcopied := congrArg List.length heq
    rw [Cmd.copy, length_memcpy] at hcopied
    exact hcopied.symm
  · intro heq
    rw [← heq, copy_inside mem (by omega), ← Nat.add_assoc]
    exact htext.symm

/-- Every element of a list of integers is the integer at the read position. -/
theorem peakedItems_int (w : IntWidth) (n offset : Nat) :
    c.peakedItems mem (.int w) n offset
      = List.replicate n (BitVec.ofNat _ (leNat (c.copy mem 0 w.size))) := by
  induction n generalizing offset with
  | zero => rfl
  | succ n ih => rw [Cmd.peakedItems, ih, List.replicate_succ, Cmd.peaked]

/-- The elements of a list of integers, one by one. -/
theorem ints_there {w : IntWidth} {n i : Nat} {vs : List (BitVec (8 * w.size))} {r : Bytes}
    (h : (intCodec w).times n (c.buf.drop i) = some (vs, r)) (p : BitVec (8 * w.size) → Prop) :
    (∀ v ∈ vs, p v) ↔ ∀ k < n, i + k * w.size + w.size ≤ c.buf.length ∧
      p (BitVec.ofNat _ (leNat (c.bytesAt (i + k * w.size) w.size))) := by
  induction n generalizing i vs with
  | zero =>
    obtain ⟨rfl, -⟩ := Prod.mk.inj (Option.some.inj h)
    simp
  | succ n ih =>
    obtain ⟨v, m, ws, hdec, htimes, rfl⟩ := (intCodec w).times_succ_some.1 h
    obtain ⟨hle, rfl, rfl⟩ := int_there hdec
    rw [List.forall_mem_cons, ih htimes, Nat.forall_lt_succ_left, Nat.zero_mul, Nat.add_zero]
    refine and_congr ⟨fun hp => ⟨hle, hp⟩, And.right⟩ (forall₂_congr fun k _ => ?_)
    have hshift : i + w.size + k * w.size = i + (k + 1) * w.size := by
      rw [Nat.succ_mul]
      omega
    rw [hshift]

/-- A list of texts comes out right when the lengths of all of them are the number at the read
    position. -/
theorem peakedItems_str_iff {n : Nat} {ss : List Bytes} {r : Bytes}
    (hhere : c.rpos + IntWidth.w64.size ≤ c.buf.length)
    (h : Elem.str.codec.times n (c.buf.drop (c.rpos + offset)) = some (ss, r)) :
    c.peakedItems mem .str n offset = ss ↔ ∀ i < n,
      c.sizeAt (c.rpos + offset + i * (IntWidth.w64.size + c.sizeAt c.rpos)) = c.sizeAt c.rpos := by
  induction n generalizing offset ss with
  | zero =>
    obtain ⟨rfl, -⟩ := Prod.mk.inj (Option.some.inj h)
    simp [Cmd.peakedItems]
  | succ n ih =>
    obtain ⟨s, m, ts, hdec, htimes, rfl⟩ := Elem.str.codec.times_succ_some.1 h
    obtain ⟨hle, hlen, -, rfl⟩ := str_there hdec
    have hsize := c.size_lt
    have hstride : c.stride mem .str = IntWidth.w64.size + c.sizeAt c.rpos := by
      rw [Cmd.stride, sizeHere_inside mem hhere]
    rw [Cmd.peakedItems, List.cons.injEq, peaked_str_iff mem hhere hdec, hstride,
      Nat.forall_lt_succ_left, Nat.zero_mul, Nat.add_zero]
    refine and_congr_right fun hfirst => ?_
    have hnext : (offset + (IntWidth.w64.size + c.sizeAt c.rpos)) % 2 ^ 64
        = offset + (IntWidth.w64.size + s.length) := by
      rw [← hfirst, ← hlen]
      exact Nat.mod_eq_of_lt (by omega)
    have hplace : c.rpos + offset + IntWidth.w64.size + s.length
        = c.rpos + (offset + (IntWidth.w64.size + s.length)) := by omega
    rw [hplace] at htimes
    rw [hnext, ih htimes]
    refine forall₂_congr fun i _ => ?_
    have hshift : c.rpos + (offset + (IntWidth.w64.size + s.length))
        + i * (IntWidth.w64.size + c.sizeAt c.rpos)
        = c.rpos + offset + (i + 1) * (IntWidth.w64.size + c.sizeAt c.rpos) := by
      rw [Nat.succ_mul, ← hfirst, ← hlen]
      omega
    rw [hshift]

theorem length_peakedItems (T : Elem) (n offset : Nat) : (c.peakedItems mem T n offset).length = n := by
  induction n generalizing offset with
  | zero => rfl
  | succ n ih => rw [Cmd.peakedItems, List.length_cons, ih]

theorem peakedItems_int_iff {w : IntWidth} {n : Nat} {vs : List (BitVec (8 * w.size))} {r : Bytes}
    {i : Nat} (hhere : c.rpos + IntWidth.w64.size ≤ c.buf.length)
    (h : (intCodec w).times n (c.buf.drop i) = some (vs, r)) (m offset : Nat) :
    c.peakedItems mem (.int w) m offset = vs ↔
      n = m ∧ ∀ k < n, c.bytesAt (i + k * w.size) w.size = c.bytesAt c.rpos w.size := by
  have hw : w.size ≤ IntWidth.w64.size := by cases w <;> decide
  have hcopy : c.copy mem 0 w.size = c.bytesAt c.rpos w.size :=
    @copy_inside mem c 0 _ (by omega)
  have hlen : (c.bytesAt c.rpos w.size).length = w.size := length_bytesAt (by omega)
  have hthere := (ints_there h fun _ => True).1 fun _ _ => trivial
  rw [peakedItems_int, eq_comm, List.eq_replicate_iff, ((intCodec w).times_split h).1, hcopy,
    ints_there h]
  refine and_congr_right fun _ => forall₂_congr fun k hk => ?_
  obtain ⟨hle, -⟩ := hthere k hk
  rw [and_iff_right hle, ofNat_leNat_inj (length_bytesAt hle) hlen]

/-- What is peeked at is what is there. -/
theorem peakedKind_iff {k : Kind} {v : k.Val} {r : Bytes}
    (h : k.codec.dec (c.buf.drop (c.rpos + offset)) = some (v, r)) :
    c.peakedKind mem k offset = v ↔ c.PeekAgrees offset k := by
  cases k with
  | one T =>
    cases T with
    | int w => exact peaked_int_iff mem h
    | str =>
      obtain ⟨hle, -⟩ := str_there h
      exact peaked_str_iff mem (by omega) h
  | list T =>
    obtain ⟨n, m, hcount, hitems⟩ := Codec.counted_some.1 h
    obtain ⟨hle, rfl, rfl⟩ := size_there hcount
    have hsize := c.size_lt
    have hhere : c.rpos + IntWidth.w64.size ≤ c.buf.length := by omega
    have hoffset : (offset + IntWidth.w64.size) % 2 ^ 64 = offset + IntWidth.w64.size :=
      Nat.mod_eq_of_lt (by omega)
    rw [Cmd.peakedKind, sizeHere_inside mem hhere, hoffset]
    cases T with
    | int w =>
      rw [peakedItems_int_iff mem hhere hitems, Cmd.PeekAgrees]
      exact and_congr_right fun heq => by rw [heq]
    | str =>
      rw [Nat.add_assoc] at hitems
      have hlen := (Elem.str.codec.times_split hitems).1
      rw [Cmd.PeekAgrees]
      by_cases heq : c.sizeAt (c.rpos + offset) = c.sizeAt c.rpos
      · rw [heq] at hitems
        rw [and_iff_right heq, peakedItems_str_iff mem hhere hitems, Nat.add_assoc]
      · have hne : c.peakedItems mem .str (c.sizeAt c.rpos) (offset + IntWidth.w64.size) ≠ v := by
          intro hv
          rw [← hv, length_peakedItems] at hlen
          exact heq hlen.symm
        exact iff_of_false hne fun hboth => heq hboth.1

end Agree

/-- `peak` and `peak_list` return what `read` and `read_list` return from the position that the offset
    leads to, exactly when the offset makes no difference. -/
theorem peak_eq_read_iff (mem : Nat → UInt8) (k : Kind) (c : Cmd) (offset : Nat)
    (h : (k.codec.dec (c.buf.drop (c.rpos + offset))).isSome) :
    (k.peak mem offset).on c = (((k.read mem).on (c.resetReadPos (c.rpos + offset))).1, c) ↔
      c.PeekAgrees offset k := by
  obtain ⟨⟨v, r⟩, hdec⟩ := Option.isSome_iff_exists.1 h
  have hsplit := k.codec.dec_split hdec
  have hpos : 0 < (k.codec.enc v).length := List.length_pos_iff.2 (k.enc_ne_nil v)
  have hlen := congrArg List.length hsplit
  rw [List.length_drop, List.length_append] at hlen
  have hsize := c.size_lt
  have hbuf : c.buf ≠ [] := by
    intro hnil
    rw [hnil, List.length_nil] at hlen
    omega
  have hrest : (c.resetReadPos (c.rpos + offset)).rest = c.buf.drop (c.rpos + offset) :=
    congrArg c.buf.drop (Nat.mod_eq_of_lt (by omega))
  have hread := reads_kind mem k (c.resetReadPos (c.rpos + offset)) v r (hrest.symm ▸ hdec)
  rw [peakKind_on mem hbuf, hread, ← peakedKind_iff mem hdec]
  constructor
  · intro heq
    exact Except.ok.inj (Prod.mk.inj heq).1
  · intro heq
    rw [heq]

/-- Three integers, the first of which has been read. The other two are equal. -/
def equalInts : Cmd where
  id := 100
  buf := [9, 0, 0, 0, 7, 0, 0, 0, 7, 0, 0, 0]
  rpos := 4
  size_lt := Nat.le_of_ble_eq_true rfl
  rpos_lt := Nat.le_of_ble_eq_true rfl

/-- So the last one can be peeked at. -/
theorem peak_eq_read_here :
    (((Kind.one (.int .w32)).codec.dec (equalInts.buf.drop (equalInts.rpos + 4))).isSome = true) ∧
      (((Kind.one (.int .w32)).peak (fun _ => 0) 4).on equalInts
          = ((((Kind.one (.int .w32)).read fun _ => 0).on
              (equalInts.resetReadPos (equalInts.rpos + 4))).1, equalInts) ↔
        equalInts.PeekAgrees 4 (.one (.int .w32))) ∧
      equalInts.PeekAgrees 4 (.one (.int .w32)) :=
  ⟨rfl, peak_eq_read_iff _ _ _ _ rfl, rfl⟩

/-- Two integers. -/
def twoInts : Cmd where
  id := 100
  buf := [1, 0, 0, 0, 2, 0, 0, 0]
  rpos := 0
  size_lt := Nat.le_of_ble_eq_true rfl
  rpos_lt := start_lt

/-- The second of two integers cannot be peeked at. -/
theorem peak_second_int :
    ((Kind.one (.int .w32)).codec.dec (twoInts.buf.drop (twoInts.rpos + 4))).isSome = true ∧
      ((Kind.one (.int .w32)).peak (fun _ => 0) 4).on twoInts
        ≠ ((((Kind.one (.int .w32)).read fun _ => 0).on
            (twoInts.resetReadPos (twoInts.rpos + 4))).1, twoInts) := by
  refine ⟨rfl, fun h => ?_⟩
  have hvals : (1#32 : BitVec 32) = 2#32 := Except.ok.inj (Prod.mk.inj h).1
  exact absurd hvals (by decide)

end LibEvmvc
