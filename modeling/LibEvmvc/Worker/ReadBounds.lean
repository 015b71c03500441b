import LibEvmvc.Worker.Peek

set_option autoImplicit false

/-! # Reading a payload that cannot be trusted

`_peak` fails on an empty payload and copies whatever it is asked for from any other. A call is safe if
what it asks for is there; a length that has come with the payload can ask for anything. -/

namespace LibEvmvc

/-- A call that reads: `read` and `read_list`, or `peak` and `peak_list`. -/
inductive Call where
  | read (k : Kind)
  | peak (k : Kind) (offset : Nat)
  deriving DecidableEq, Repr

/-- The call, made. -/
def Call.run (mem : Nat → UInt8) : Call → CmdM ((k : Kind) × k.Val)
  | .read k => do
    let v ← k.read mem
    pure ⟨k, v⟩
  | .peak k offset => do
    let v ← k.peak mem offset
    pure ⟨k, v⟩

/-- The commands in which the calls of a sequence are made, each with its call. A call that throws is
    caught. -/
def visits (mem : Nat → UInt8) : List Call → Cmd → List (Cmd × Call)
  | [], _ => []
  | call :: calls, c => (c, call) :: visits mem calls ((call.run mem).on c).2

/-- The command after a sequence of calls. -/
def runCalls (mem : Nat → UInt8) : List Call → Cmd → Cmd
  | [], c => c
  | call :: calls, c => runCalls mem calls ((call.run mem).on c).2

/-- What `parse_cmd` reads from a `CMD_LOG`: the level, the path of the log and the message. -/
def logCalls : List Call := [.read (.one (.int .w32)), .read (.one .str), .read (.one .str)]

/-! ## Safe calls -/

/-- The bytes a value is made of. -/
def Elem.piece : (T : Elem) → T.Val → Bytes
  | .int w, v => leBytes w.size v.toNat
  | .str, s => s

def Kind.pieces : (k : Kind) → k.Val → List Bytes
  | .one T, v => [T.piece v]
  | .list T, vs => vs.map T.piece

/-- The call throws and changes nothing, or it returns bytes of the payload, does not change it and
    stays in it. What it does has nothing to do with the memory around the payload. -/
def Call.Safe (call : Call) (c : Cmd) : Prop :=
  (∃ e, ∀ mem, (call.run mem).on c = (.error e, c)) ∨
    ∃ v d, (∀ mem, (call.run mem).on c = (.ok v, d)) ∧ (∀ p ∈ v.1.pieces v.2, p <:+: c.buf) ∧
      d.buf = c.buf ∧ d.rpos ≤ c.buf.length

/-- What a `peak` or a `peak_list` copies lies in the payload. The integers come from the read position,
    whatever the offset. -/
def Cmd.PeekInside (c : Cmd) (offset : Nat) : Kind → Prop
  | .one (.int w) => c.rpos + w.size ≤ c.buf.length
  | .one .str => c.rpos + IntWidth.w64.size ≤ c.buf.length ∧
      c.Within (c.rpos + (offset + IntWidth.w64.size)) (c.sizeAt c.rpos)
  | .list (.int _) => c.rpos + IntWidth.w64.size ≤ c.buf.length
  | .list .str => c.rpos + IntWidth.w64.size ≤ c.buf.length ∧ ∀ i < c.sizeAt c.rpos,
      c.Within (c.rpos + (offset + IntWidth.w64.size + i * (IntWidth.w64.size + c.sizeAt c.rpos)
        + IntWidth.w64.size)) (c.sizeAt c.rpos)

/-- What a call asks for is there, or there is nothing at all. -/
def Call.Inside (c : Cmd) : Call → Prop
  | .read k => c.buf = [] ∨ (k.codec.dec c.rest).isSome
  | .peak k offset => c.buf = [] ∨ c.PeekInside offset k

/-! ## An empty payload -/

section Empty

variable (mem : Nat → UInt8) {c : Cmd}

theorem readSizeT_empty (h : c.buf = []) : (readSizeT mem).on c = (.error .length, c) :=
  CmdM.on_bind_error (CmdM.on_bind_error (CmdM.on_bind_error (peakRaw_empty mem h _ _)))

theorem peakSizeT_empty (h : c.buf = []) (offset : Nat) :
    (peakSizeT mem offset).on c = (.error .length, c) :=
  CmdM.on_bind_error (CmdM.on_bind_error (peakRaw_empty mem h _ _))

theorem readKind_empty (h : c.buf = []) (k : Kind) : (k.read mem).on c = (.error .length, c) := by
  rcases k with (w | -) | T
  · exact CmdM.on_bind_error (CmdM.on_bind_error (peakRaw_empty mem h _ _))
  · exact CmdM.on_bind_error (readSizeT_empty mem h)
  · exact CmdM.on_bind_error (readSizeT_empty mem h)

theorem peakKind_empty (h : c.buf = []) (k : Kind) (offset : Nat) :
    (k.peak mem offset).on c = (.error .length, c) := by
  rcases k with (w | -) | T
  · exact CmdM.on_bind_error (peakRaw_empty mem h _ _)
  · exact CmdM.on_bind_error (peakSizeT_empty mem h _)
  · exact CmdM.on_bind_error (peakSizeT_empty mem h _)

/-- Every call throws. -/
theorem safe_empty (h : c.buf = []) (call : Call) : call.Safe c := by
  refine .inl ⟨.length, fun mem => ?_⟩
  cases call with
  | read k => exact CmdM.on_bind_error (readKind_empty mem h k)
  | peak k offset => exact CmdM.on_bind_error (peakKind_empty mem h k offset)

end Empty

/-! ## Bytes of the payload -/

section Pieces

variable {c : Cmd}

theorem Elem.piece_infix (T : Elem) (v : T.Val) : T.piece v <:+: T.codec.enc v := by
  cases T with
  | int w => exact List.infix_refl _
  | str =>
    rw [Elem.enc_str]
    exact (List.suffix_append _ _).isInfix

/-- A value is made of bytes that are stored for it. -/
theorem Kind.pieces_infix (k : Kind) (v : k.Val) : ∀ p ∈ k.pieces v, p <:+: k.codec.enc v := by
  intro p hp
  cases k with
  | one T =>
    obtain rfl := List.mem_singleton.1 hp
    exact T.piece_infix v
  | list T =>
    obtain ⟨a, ha, rfl⟩ := List.mem_map.1 hp
    have hitems := Codec.infix_flatMap ha T.codec.enc
    exact (T.piece_infix a).trans (hitems.trans (List.suffix_append _ _).isInfix)

/-- A value that is there is read and nothing else. -/
theorem safe_read {k : Kind} (h : (k.codec.dec c.rest).isSome) : (Call.read k).Safe c := by
  obtain ⟨⟨v, r⟩, hdec⟩ := Option.isSome_iff_exists.1 h
  have hsplit := k.codec.dec_split hdec
  have hpos : 0 < (k.codec.enc v).length := List.length_pos_iff.2 (k.enc_ne_nil v)
  have hlen := congrArg List.length hsplit
  rw [Cmd.rest, List.length_drop, List.length_append] at hlen
  refine .inr ⟨⟨k, v⟩, c.advance (k.codec.enc v).length, fun mem => ?_, fun p hp => ?_, rfl, ?_⟩
  · exact CmdM.on_bind_ok (reads_kind mem k c v r hdec)
  · have hrest : k.codec.enc v <:+: c.rest := hsplit ▸ (List.prefix_append _ _).isInfix
    exact (k.pieces_infix v p hp).trans (hrest.trans (List.drop_suffix _ _).isInfix)
  · rw [Cmd.rpos_advance hsplit]
    omega

theorem bytesAt_within (c : Cmd) (i n : Nat) : c.bytesAt i n <:+: c.buf :=
  (List.take_prefix _ _).isInfix.trans (List.drop_suffix _ _).isInfix

end Pieces

/-! ## Peeking -/

section PeekSafe

variable {c : Cmd} {offset : Nat}

/-- What is peeked at, where that is in the payload. -/
theorem safe_peek_of {k : Kind} {v : k.Val} (hbuf : c.buf ≠ []) (hpos : c.rpos ≤ c.buf.length)
    (hv : ∀ mem, c.peakedKind mem k offset = v) (hp : ∀ p ∈ k.pieces v, p <:+: c.buf) :
    (Call.peak k offset).Safe c := by
  refine .inr ⟨⟨k, v⟩, c, fun mem => ?_, hp, rfl, hpos⟩
  have hpeak := peakKind_on mem hbuf k offset
  rw [hv mem] at hpeak
  exact CmdM.on_bind_ok hpeak

/-- An integer that is peeked at. -/
theorem copy_int {w : IntWidth} (h : c.rpos + w.size ≤ c.buf.length) (mem : Nat → UInt8) :
    c.copy mem 0 w.size = c.bytesAt c.rpos w.size :=
  @copy_inside mem c 0 _ (by omega)

theorem piece_ofNat {w : IntWidth} {b : Bytes} (h : b.length = w.size) :
    Elem.piece (.int w) (BitVec.ofNat _ (leNat b)) = b := by
  have hlt : leNat b < 2 ^ (8 * w.size) := by
    have hlt := leNat_lt b
    rw [h] at hlt
    rw [Nat.pow_mul]
    exact hlt
  rw [Elem.piece, BitVec.toNat_ofNat, Nat.mod_eq_of_lt hlt, ← h, leBytes_leNat]

/-- A text that is peeked at, where its bytes are in the payload. -/
theorem peaked_str (hhere : c.rpos + IntWidth.w64.size ≤ c.buf.length)
    (h : c.Within (c.rpos + (offset + IntWidth.w64.size)) (c.sizeAt c.rpos)) (mem : Nat → UInt8) :
    c.peaked mem .str offset
      = c.bytesAt ((c.rpos + (offset + IntWidth.w64.size)) % 2 ^ 64) (c.sizeAt c.rpos) := by
  have hmod : (c.rpos + (offset + IntWidth.w64.size) % 2 ^ 64) % 2 ^ 64
      = (c.rpos + (offset + IntWidth.w64.size)) % 2 ^ 64 := by omega
  rw [Cmd.peaked, sizeHere_inside mem hhere, copy_within mem (h.congr hmod), hmod]

/-- The texts that `peak_list` sees are cut out of the payload. -/
theorem peakedItems_str_safe (hhere : c.rpos + IntWidth.w64.size ≤ c.buf.length) (n : Nat)
    (h : ∀ i < n, c.Within (c.rpos + (offset + i * (IntWidth.w64.size + c.sizeAt c.rpos)
      + IntWidth.w64.size)) (c.sizeAt c.rpos)) :
    ∃ ss : List Bytes, (∀ mem, c.peakedItems mem .str n offset = ss) ∧ ∀ s ∈ ss, s <:+: c.buf := by
  induction n generalizing offset with
  | zero => exact ⟨[], fun _ => rfl, fun _ hs => absurd hs List.not_mem_nil⟩
  | succ n ih =>
    have hstride (mem : Nat → UInt8) : c.stride mem .str = IntWidth.w64.size + c.sizeAt c.rpos := by
      rw [Cmd.stride, sizeHere_inside mem hhere]
    obtain ⟨ss, hss, hinfix⟩ :=
      @ih ((offset + (IntWidth.w64.size + c.sizeAt c.rpos)) % 2 ^ 64) fun i hi => by
        refine (h (i + 1) (by omega)).congr ?_
        rw [Nat.succ_mul]
        omega
    have hfirst := h 0 (by omega)
    rw [Nat.zero_mul, Nat.add_zero] at hfirst
    refine ⟨c.bytesAt ((c.rpos + (offset + IntWidth.w64.size)) % 2 ^ 64) (c.sizeAt c.rpos) :: ss,
      fun mem => ?_, ?_⟩
    · rw [Cmd.peakedItems, hstride, hss, peaked_str hhere hfirst mem]
    · rw [List.forall_mem_cons]
      exact ⟨bytesAt_within c _ _, hinfix⟩

theorem safe_peek {k : Kind} (hbuf : c.buf ≠ []) (hpos : c.rpos ≤ c.buf.length)
    (h : c.PeekInside offset k) : (Call.peak k offset).Safe c := by
  rcases k with (w | -) | (w | -)
  · have hlen := length_bytesAt h
    refine safe_peek_of (k := .one (.int w)) hbuf hpos
      (v := BitVec.ofNat _ (leNat (c.bytesAt c.rpos w.size))) (fun mem => ?_) fun p hp => ?_
    · rw [Cmd.peakedKind, Cmd.peaked, copy_int h mem]
    · obtain rfl := List.mem_singleton.1 hp
      rw [piece_ofNat hlen]
      exact bytesAt_within c _ _
  · obtain ⟨hhere, hthere⟩ := h
    refine safe_peek_of (k := .one .str) hbuf hpos
      (v := c.bytesAt ((c.rpos + (offset + IntWidth.w64.size)) % 2 ^ 64) (c.sizeAt c.rpos))
      (peaked_str hhere hthere) fun p hp => ?_
    obtain rfl := List.mem_singleton.1 hp
    exact bytesAt_within c _ _
  · have hhere : c.rpos + IntWidth.w64.size ≤ c.buf.length := h
    have hw : w.size ≤ IntWidth.w64.size := by cases w <;> decide
    have hlen : (c.bytesAt c.rpos w.size).length = w.size := length_bytesAt (by omega)
    refine safe_peek_of (k := .list (.int w)) hbuf hpos (v := List.replicate (c.sizeAt c.rpos)
      (BitVec.ofNat _ (leNat (c.bytesAt c.rpos w.size)))) (fun mem => ?_) fun p hp => ?_
    · rw [Cmd.peakedKind, sizeHere_inside mem hhere, peakedItems_int, copy_int (by omega) mem]
    · obtain ⟨v, hv, rfl⟩ := List.mem_map.1 hp
      obtain rfl := List.eq_of_mem_replicate hv
      rw [piece_ofNat hlen]
      exact bytesAt_within c _ _
  · obtain ⟨hhere, hthere⟩ := h
    obtain ⟨ss, hss, hinfix⟩ := @peakedItems_str_safe c ((offset + IntWidth.w64.size) % 2 ^ 64)
      hhere (c.sizeAt c.rpos) fun i hi => (hthere i hi).congr (by omega)
    refine safe_peek_of (k := .list .str) hbuf hpos (v := ss) (fun mem => ?_) fun p hp => ?_
    · rw [Cmd.peakedKind, sizeHere_inside mem hhere, hss]
    · obtain ⟨s, hs, rfl⟩ := List.mem_map.1 hp
      exact hinfix s hs

end PeekSafe

/-! ## Sequences of calls -/

/-- A call that asks for what is there is safe. -/
theorem safe_of_inside {c : Cmd} {call : Call} (hpos : c.rpos ≤ c.buf.length) (h : call.Inside c) :
    call.Safe c := by
  cases call with
  | read k =>
    rcases h with hempty | hread
    · exact safe_empty hempty _
    · exact safe_read hread
  | peak k offset =>
    by_cases hempty : c.buf = []
    · exact safe_empty hempty _
    · exact safe_peek hempty hpos (h.resolve_left hempty)

/-- After a safe call the position is still in the payload, which is the same. -/
theorem Call.Safe.next {c : Cmd} {call : Call} (hpos : c.rpos ≤ c.buf.length) (h : call.Safe c)
    (mem : Nat → UInt8) :
    ((call.run mem).on c).2.buf = c.buf ∧ ((call.run mem).on c).2.rpos ≤ c.buf.length := by
  rcases h with ⟨e, herr⟩ | ⟨v, d, hok, -, hbuf, hrpos⟩
  · rw [herr mem]
    exact ⟨rfl, hpos⟩
  · rw [hok mem]
    exact ⟨hbuf, hrpos⟩

/-- If every call of a sequence asks for what is there, every call is safe, and the read position never
    leaves the payload. -/
theorem calls_stay_inside (mem : Nat → UInt8) (calls : List Call) (c : Cmd)
    (hpos : c.rpos ≤ c.buf.length) (h : ∀ p ∈ visits mem calls c, p.2.Inside p.1) :
    (∀ p ∈ visits mem calls c, p.2.Safe p.1 ∧ p.1.buf = c.buf ∧ p.1.rpos ≤ c.buf.length) ∧
      (runCalls mem calls c).buf = c.buf ∧ (runCalls mem calls c).rpos ≤ c.buf.length := by
  induction calls generalizing c with
  | nil => exact ⟨fun p hp => absurd hp List.not_mem_nil, rfl, hpos⟩
  | cons call calls ih =>
    rw [visits, List.forall_mem_cons] at h
    have hsafe := safe_of_inside hpos h.1
    obtain ⟨hbuf, hrpos⟩ := hsafe.next hpos mem
    have hrest := ih ((call.run mem).on c).2 (by rwa [hbuf]) h.2
    rw [hbuf] at hrest
    rw [visits, List.forall_mem_cons]
    exact ⟨⟨⟨hsafe, rfl, hpos⟩, hrest.1⟩, hrest.2⟩

/-- A log command with a path of one byte and no message. -/
def logCmd : Cmd where
  id := 2
  buf := [2, 0, 0, 0] ++ [1, 0, 0, 0, 0, 0, 0, 0] ++ [47] ++ [0, 0, 0, 0, 0, 0, 0, 0]
  rpos := 0
  size_lt := Nat.le_of_ble_eq_true rfl
  rpos_lt := start_lt

theorem logCalls_stay_inside :
    (∀ p ∈ visits (fun _ => 0) logCalls logCmd, p.2.Safe p.1 ∧ p.1.buf = logCmd.buf ∧
        p.1.rpos ≤ logCmd.buf.length) ∧
      (runCalls (fun _ => 0) logCalls logCmd).buf = logCmd.buf ∧
      (runCalls (fun _ => 0) logCalls logCmd).rpos ≤ logCmd.buf.length :=
  calls_stay_inside (fun _ => 0) logCalls logCmd (by decide)
    (List.forall_mem_cons.2 ⟨.inr rfl, List.forall_mem_cons.2 ⟨.inr rfl, List.forall_mem_cons.2
      ⟨.inr rfl, fun _ hp => absurd hp List.not_mem_nil⟩⟩⟩)

/-- A log command that announces a path of 16 bytes and ends. -/
def shortLogCmd : Cmd where
  id := 2
  buf := [2, 0, 0, 0] ++ [16, 0, 0, 0, 0, 0, 0, 0]
  rpos := 0
  size_lt := Nat.le_of_ble_eq_true rfl
  rpos_lt := start_lt

/-- The path is read from behind the payload, and the read position is left there. -/
theorem shortLog_not_safe : ¬ ∀ p ∈ visits (fun _ => 0) logCalls shortLogCmd, p.2.Safe p.1 := by
  intro h
  have hpath := h _ (List.mem_cons_of_mem _ List.mem_cons_self)
  have hrpos := (hpath.next (by decide) fun _ => 0).2
  exact absurd hrpos (by decide)

end LibEvmvc
