import LibEvmvc.Foundation.Codec
import LibEvmvc.Worker.Channel
import Mathlib.Algebra.Order.Ring.Nat

set_option autoImplicit false

/-! # The payload of a command

`command` keeps its payload in a buffer and a position from which it is read. Integers are stored as
they lie in memory; a text or a list has its number of bytes or of elements in front of it, as a
`size_t`. Nothing is stored about the types: a reader has to ask for what has been written, in the same
order.

`_peak` copies from the payload without looking at its size. What it copies from behind the end is
whatever lies there in memory, the parameter `mem`. -/

namespace LibEvmvc

/-! ## Types -/

/-- The sizes of the integer types. -/
inductive IntWidth where
  | w8
  | w16
  | w32
  | w64
  deriving DecidableEq, Repr

/-- `sizeof`. -/
def IntWidth.size : IntWidth → Nat
  | .w8 => 1
  | .w16 => 2
  | .w32 => 4
  | .w64 => 8

/-- The types that the templates of `command` are used with. -/
inductive Elem where
  | int (w : IntWidth)
  | str
  deriving DecidableEq, Repr

/-- The values of a type. -/
abbrev Elem.Val : Elem → Type
  | .int w => BitVec (8 * w.size)
  | .str => Bytes

/-- What is written or read by one call: a value or a list of values. -/
inductive Kind where
  | one (T : Elem)
  | list (T : Elem)
  deriving DecidableEq, Repr

abbrev Kind.Val : Kind → Type
  | .one T => T.Val
  | .list T => List T.Val

/-! ## Commands -/

/-- `command`. Its size and its position are of type `size_t`. -/
structure Cmd where
  id : BitVec 32
  buf : Bytes
  rpos : Nat
  size_lt : buf.length < 2 ^ 64
  rpos_lt : rpos < 2 ^ 64

theorem start_lt : 0 < 2 ^ 64 := Nat.two_pow_pos 64

/-- `command(id)`. -/
def Cmd.new (id : BitVec 32) : Cmd where
  id := id
  buf := []
  rpos := 0
  size_lt := start_lt
  rpos_lt := start_lt

/-- `reset_read_pos`. -/
def Cmd.resetReadPos (c : Cmd) (p : Nat) : Cmd :=
  { c with rpos := p % 2 ^ 64, rpos_lt := Nat.mod_lt _ (by simp) }

/-- What `_write` and `_peak` throw. -/
inductive CmdError where
  /-- "Unable to write to buffer" -/
  | write
  /-- "Invalid buffer length" -/
  | length
  deriving DecidableEq, Repr

/-- A member function of `command`: it changes the command and returns or throws. -/
abbrev CmdM := ExceptT CmdError (StateM Cmd)

/-- What a call returns or throws, and the command after it. -/
def CmdM.on {α : Type} (m : CmdM α) (c : Cmd) : Except CmdError α × Cmd := (m.run).run c

/-! ## Writing -/

/-- `_write`. An evbuffer takes no more than its size can tell. -/
def writeRaw (d : Bytes) : CmdM Unit := do
  let c ← get
  if h : (c.buf ++ d).length < 2 ^ 64 then set { c with buf := c.buf ++ d, size_lt := h }
  else throw .write

/-- `write(v.size())`. -/
def writeSizeT (n : Nat) : CmdM Unit := writeRaw (leBytes IntWidth.w64.size n)

/-- `write<T>`. -/
def Elem.write : (T : Elem) → T.Val → CmdM Unit
  | .int w, v => writeRaw (leBytes w.size v.toNat)
  | .str, v => do
    writeSizeT v.length
    writeRaw v

/-- The loop of `write_list`. -/
def Elem.writeItems (T : Elem) : List T.Val → CmdM Unit
  | [] => pure ()
  | v :: vs => do
    T.write v
    T.writeItems vs

/-- `write` or `write_list`. -/
def Kind.write : (k : Kind) → k.Val → CmdM Unit
  | .one T, v => T.write v
  | .list T, vs => do
    writeSizeT vs.length
    T.writeItems vs

/-- A sequence of `write` and `write_list`. -/
def writeAll : List ((k : Kind) × k.Val) → CmdM Unit
  | [] => pure ()
  | v :: vs => do
    v.1.write v.2
    writeAll vs

/-! ## Reading -/

section Reading

variable (mem : Nat → UInt8)

/-- `memcpy` of `n` bytes from index `start` of a buffer; addresses go round at the end of memory. -/
def memcpy (s : Bytes) (start n : Nat) : Bytes :=
  (List.range n).map fun k => (s)[(start + k) % 2 ^ 64]?.getD (mem ((start + k) % 2 ^ 64))

/-- `_peak`. -/
def peakRaw (n offset : Nat) : CmdM Bytes := do
  let c ← get
  match pullup c.buf c.buf.length with
  | none => throw .length
  | some s => pure (memcpy mem s ((c.rpos + offset) % 2 ^ 64) n)

/-- `_read`. -/
def readRaw (n : Nat) : CmdM Bytes := do
  let b ← peakRaw mem n 0
  modify fun c => c.resetReadPos (c.rpos + n)
  pure b

/-- `read<T>` of an integer type. -/
def readInt (w : IntWidth) : CmdM (BitVec (8 * w.size)) := do
  let b ← readRaw mem w.size
  pure (BitVec.ofNat _ (leNat b))

/-- `read<size_t>()`. -/
def readSizeT : CmdM Nat := do
  let n ← readInt mem .w64
  pure n.toNat

/-- `read<T>`. -/
def Elem.read : (T : Elem) → CmdM T.Val
  | .int w => readInt mem w
  | .str => do
    let l ← readSizeT mem
    readRaw mem l

/-- The loop of `read_list`, with the elements read so far. -/
def Elem.readItems (T : Elem) : Nat → List T.Val → CmdM (List T.Val)
  | 0, v => pure v
  | n + 1, v => do
    let x ← T.read mem
    T.readItems n (v ++ [x])

/-- `read` or `read_list`, the latter into an empty vector. -/
def Kind.read : (k : Kind) → CmdM k.Val
  | .one T => T.read mem
  | .list T => do
    let s ← readSizeT mem
    T.readItems mem s []

/-- A sequence of `read` and `read_list`. -/
def readAll : List Kind → CmdM (List ((k : Kind) × k.Val))
  | [] => pure []
  | k :: ks => do
    let v ← k.read mem
    let vs ← readAll ks
    pure (⟨k, v⟩ :: vs)

end Reading

/-! ## Single calls -/

section Calls

variable {α β : Type} {m : CmdM α} {f : α → CmdM β} {c c' : Cmd}

theorem CmdM.on_pure (a : α) (c : Cmd) : CmdM.on (pure a) c = (.ok a, c) := rfl

theorem CmdM.on_bind_ok {a : α} (h : m.on c = (.ok a, c')) : (m >>= f).on c = (f a).on c' := by
  have hrun : m.run.run c = (.ok a, c') := h
  simp only [CmdM.on, ExceptT.run_bind, StateT.run_bind, hrun]
  rfl

theorem CmdM.on_bind_error {e : CmdError} (h : m.on c = (.error e, c')) :
    (m >>= f).on c = (.error e, c') := by
  have hrun : m.run.run c = (.error e, c') := h
  simp only [CmdM.on, ExceptT.run_bind, StateT.run_bind, hrun]
  rfl

end Calls

/-- `_write` of bytes that fit. -/
def Cmd.append (c : Cmd) (d : Bytes) (h : (c.buf ++ d).length < 2 ^ 64) : Cmd :=
  { c with buf := c.buf ++ d, size_lt := h }

/-- What has not been read. -/
def Cmd.rest (c : Cmd) : Bytes := c.buf.drop c.rpos

/-- The command when `n` more bytes have been read. -/
def Cmd.advance (c : Cmd) (n : Nat) : Cmd := c.resetReadPos (c.rpos + n)

theorem Cmd.advance_zero (c : Cmd) : c.advance 0 = c := by
  unfold Cmd.advance Cmd.resetReadPos
  congr
  exact Nat.mod_eq_of_lt c.rpos_lt

theorem Cmd.advance_advance (c : Cmd) (m n : Nat) : (c.advance m).advance n = c.advance (m + n) := by
  unfold Cmd.advance Cmd.resetReadPos
  congr 1
  show ((c.rpos + m) % 2 ^ 64 + n) % 2 ^ 64 = _
  omega

/-- The position stays a number when it stays in the payload. -/
theorem Cmd.rpos_advance {c : Cmd} {u r : Bytes} (h : c.rest = u ++ r) :
    (c.advance u.length).rpos = c.rpos + u.length := by
  refine Nat.mod_eq_of_lt ?_
  rcases Nat.eq_zero_or_pos u.length with hzero | hpos
  · rw [hzero]
    exact c.rpos_lt
  · have hlen : c.buf.length - c.rpos = u.length + r.length := by
      rw [← List.length_drop, ← List.length_append, ← h, Cmd.rest]
    have hsize := c.size_lt
    omega

theorem Cmd.rest_advance {c : Cmd} {u r : Bytes} (h : c.rest = u ++ r) :
    (c.advance u.length).rest = r := by
  have hrest : (c.advance u.length).rest = c.buf.drop (c.advance u.length).rpos := rfl
  rw [hrest, Cmd.rpos_advance h, ← List.drop_drop]
  exact (congrArg (List.drop u.length) h).trans (List.drop_left)

section Copies

variable (mem : Nat → UInt8)

/-- What is copied from inside a buffer are its bytes. -/
theorem memcpy_inside {s u r : Bytes} {start : Nat} (hs : s.length < 2 ^ 64)
    (h : s.drop start = u ++ r) : memcpy mem s start u.length = u := by
  refine List.ext_getElem (by simp [memcpy]) fun k hk hu => ?_
  have hat : (s)[start + k]? = some u[k] := by
    rw [← List.getElem?_drop, h, List.getElem?_append_left hu, List.getElem?_eq_getElem hu]
  have hlt : start + k < s.length := (List.getElem?_eq_some_iff.1 hat).1
  have hmod : (start + k) % 2 ^ 64 = start + k := Nat.mod_eq_of_lt (by omega)
  simp only [memcpy, List.getElem_map, List.getElem_range, hmod, hat, Option.getD_some]

theorem pullup_all {b : Bytes} (h : b ≠ []) : pullup b b.length = some b := by
  have hpos : b.length ≠ 0 := fun hzero => h (List.length_eq_zero_iff.1 hzero)
  simp [pullup, hpos]

variable {c : Cmd}

theorem peakRaw_on (h : c.buf ≠ []) (n offset : Nat) :
    (peakRaw mem n offset).on c = (.ok (memcpy mem c.buf ((c.rpos + offset) % 2 ^ 64) n), c) := by
  have hget : CmdM.on get c = (.ok c, c) := rfl
  rw [peakRaw, CmdM.on_bind_ok hget, pullup_all h]
  rfl

/-- Nothing is read from an empty command. -/
theorem peakRaw_empty (h : c.buf = []) (n offset : Nat) :
    (peakRaw mem n offset).on c = (.error .length, c) := by
  have hget : CmdM.on get c = (.ok c, c) := rfl
  rw [peakRaw, CmdM.on_bind_ok hget, h]
  rfl

theorem readRaw_on (h : c.buf ≠ []) (n : Nat) :
    (readRaw mem n).on c = (.ok (memcpy mem c.buf (c.rpos % 2 ^ 64) n), c.advance n) := by
  rw [readRaw, CmdM.on_bind_ok (peakRaw_on mem h n 0)]
  rfl

/-- Bytes that are there are read. -/
theorem readRaw_inside {u r : Bytes} (h : c.buf ≠ []) (hu : c.rest = u ++ r) :
    (readRaw mem u.length).on c = (.ok u, c.advance u.length) := by
  rw [readRaw_on mem h, Nat.mod_eq_of_lt c.rpos_lt, memcpy_inside mem c.size_lt hu]

end Copies

/-! ## What is stored -/

theorem leNat_lt (b : Bytes) : leNat b < 256 ^ b.length := by
  induction b with
  | nil => exact Nat.one_pos
  | cons c b ih =>
    have hc : c.toNat < 256 := c.toNat_lt
    rw [leNat, List.length_cons, Nat.pow_succ]
    omega

theorem leBytes_leNat (b : Bytes) : leBytes b.length (leNat b) = b := by
  induction b with
  | nil => rfl
  | cons c b ih =>
    have hc : c.toNat < 256 := c.toNat_lt
    have hlow : UInt8.ofNat (c.toNat + 256 * leNat b) = c := by
      refine UInt8.toNat_inj.1 ?_
      rw [UInt8.toNat_ofNat']
      show (c.toNat + 256 * leNat b) % 256 = c.toNat
      omega
    have hhigh : (c.toNat + 256 * leNat b) / 256 = leNat b := by omega
    rw [List.length_cons, leNat, leBytes, hlow, hhigh, ih]

/-- A number in `w` bytes. -/
def natCodec (w : Nat) : Codec Nat UInt8 where
  enc n := leBytes w n
  dec l := if w ≤ l.length then some (leNat (l.take w), l.drop w) else none
  Ok n := n < 256 ^ w
  dec_enc := by
    intro n h r
    have hlen : (leBytes w n).length = w := length_leBytes w n
    rw [if_pos (by rw [List.length_append]; omega), List.take_left' hlen, List.drop_left' hlen,
      leNat_leBytes h]
  dec_split := by
    intro l n r h
    split at h
    · next hw =>
      obtain ⟨rfl, rfl⟩ := Prod.mk.inj (Option.some.inj h)
      have hlen : (l.take w).length = w := List.length_take_of_le hw
      have hback := leBytes_leNat (l.take w)
      rw [hlen] at hback
      rw [hback, List.take_append_drop]
    · cases h

theorem natCodec_some {w n : Nat} {l r : Bytes} (h : (natCodec w).dec l = some (n, r)) :
    w ≤ l.length ∧ n = leNat (l.take w) ∧ n < 256 ^ w := by
  have hdec : (if w ≤ l.length then some (leNat (l.take w), l.drop w) else none) = some (n, r) := h
  split at hdec
  · next hw =>
    obtain ⟨rfl, -⟩ := Prod.mk.inj (Option.some.inj hdec)
    have hlt := leNat_lt (l.take w)
    rw [List.length_take_of_le hw] at hlt
    exact ⟨hw, rfl, hlt⟩
  · cases hdec

theorem toNat_lt_size {w : IntWidth} (v : BitVec (8 * w.size)) : v.toNat < 256 ^ w.size := by
  have hlt := v.isLt
  rw [Nat.pow_mul] at hlt
  exact hlt

/-- An integer of a fixed width. -/
def intCodec (w : IntWidth) : Codec (BitVec (8 * w.size)) UInt8 where
  enc v := (natCodec w.size).enc v.toNat
  dec l := ((natCodec w.size).dec l).map fun p => (BitVec.ofNat _ p.1, p.2)
  Ok _ := True
  dec_enc := by
    intro v _ r
    rw [(natCodec w.size).dec_enc (toNat_lt_size v), Option.map_some, BitVec.ofNat_toNat,
      BitVec.setWidth_eq]
  dec_split := by
    intro l v r h
    obtain ⟨⟨n, r'⟩, hdec, h⟩ := Option.map_eq_some_iff.1 h
    obtain ⟨rfl, rfl⟩ := Prod.mk.inj h
    have hlt : n < 2 ^ (8 * w.size) := by
      rw [Nat.pow_mul]
      exact (natCodec_some hdec).2.2
    rw [BitVec.toNat_ofNat, Nat.mod_eq_of_lt hlt]
    exact (natCodec w.size).dec_split hdec

/-- A single byte. -/
def byteCodec : Codec UInt8 UInt8 where
  enc b := [b]
  dec l := l.head?.map fun b => (b, l.drop 1)
  Ok _ := True
  dec_enc := fun _ _ => rfl
  dec_split := by
    intro l b r h
    rcases l with - | ⟨c, l⟩
    · cases h
    · obtain ⟨rfl, rfl⟩ := Prod.mk.inj (Option.some.inj h)
      rfl

/-- The number of elements of a list, or of bytes of a text. -/
abbrev sizeCodec : Codec Nat UInt8 := natCodec IntWidth.w64.size

/-- How a value is stored. -/
def Elem.codec : (T : Elem) → Codec T.Val UInt8
  | .int w => intCodec w
  | .str => .counted sizeCodec byteCodec

/-- How what one call writes is stored. -/
def Kind.codec : (k : Kind) → Codec k.Val UInt8
  | .one T => T.codec
  | .list T => .counted sizeCodec T.codec

theorem flatMap_byteCodec (b : Bytes) : b.flatMap byteCodec.enc = b := List.flatMap_singleton' b

theorem Elem.enc_str (s : Bytes) : Elem.str.codec.enc s = leBytes 8 s.length ++ s :=
  congrArg (leBytes 8 s.length ++ ·) (flatMap_byteCodec s)

theorem Elem.enc_ne_nil (T : Elem) (v : T.Val) : T.codec.enc v ≠ [] := by
  cases T with
  | int w => cases w <;> exact List.cons_ne_nil _ _
  | str => exact List.cons_ne_nil _ _

theorem Kind.enc_ne_nil (k : Kind) (v : k.Val) : k.codec.enc v ≠ [] := by
  cases k with
  | one T => exact T.enc_ne_nil v
  | list T => exact List.cons_ne_nil _ _

/-! ## Reading what is stored -/

section Stored

variable (mem : Nat → UInt8)

/-- A call reads a value whenever the bytes of one are there, and gets past them. -/
def Reads {α : Type} (m : CmdM α) (C : Codec α UInt8) : Prop :=
  ∀ (c : Cmd) (a : α) (r : Bytes), C.dec c.rest = some (a, r) →
    m.on c = (.ok a, c.advance (C.enc a).length)

theorem Cmd.buf_ne_nil {c : Cmd} {u r : Bytes} (h : c.rest = u ++ r) (hu : u ≠ []) : c.buf ≠ [] := by
  intro hbuf
  rw [Cmd.rest, hbuf, List.drop_nil] at h
  exact hu (List.append_eq_nil_iff.1 h.symm).1

theorem reads_int (w : IntWidth) : Reads (readInt mem w) (intCodec w) := by
  intro c v r h
  have hsplit := (intCodec w).dec_split h
  have hlen : ((intCodec w).enc v).length = w.size := length_leBytes _ _
  have hbuf := Cmd.buf_ne_nil hsplit (Elem.enc_ne_nil (.int w) v)
  have hread := readRaw_inside mem hbuf hsplit
  rw [hlen] at hread
  have hv : BitVec.ofNat (8 * w.size) (leNat ((intCodec w).enc v)) = v := by
    have hback : leNat ((intCodec w).enc v) = v.toNat := leNat_leBytes (toNat_lt_size v)
    rw [hback, BitVec.ofNat_toNat, BitVec.setWidth_eq]
  rw [readInt, CmdM.on_bind_ok hread, CmdM.on_pure, hv, hlen]

theorem reads_size : Reads (readSizeT mem) sizeCodec := by
  intro c n r h
  have hdec : (intCodec .w64).dec c.rest = some (BitVec.ofNat _ n, r) := by
    have hmap : (intCodec .w64).dec c.rest
        = (sizeCodec.dec c.rest).map fun p => (BitVec.ofNat _ p.1, p.2) := rfl
    rw [hmap, h, Option.map_some]
  have hn : n < 2 ^ (8 * IntWidth.w64.size) := (natCodec_some h).2.2
  have hto : (BitVec.ofNat (8 * IntWidth.w64.size) n).toNat = n :=
    (BitVec.toNat_ofNat ..).trans (Nat.mod_eq_of_lt hn)
  rw [readSizeT, CmdM.on_bind_ok (reads_int mem .w64 c _ r hdec), CmdM.on_pure, hto]
  exact congrArg (fun l => (Except.ok n, c.advance l))
    ((length_leBytes ..).trans (length_leBytes ..).symm)

variable {mem}

theorem Reads.rest {α : Type} {m : CmdM α} {C : Codec α UInt8} (hm : Reads m C) {c : Cmd} {a : α}
    {r : Bytes} (h : C.dec c.rest = some (a, r)) :
    ∃ d, m.on c = (.ok a, d) ∧ d = c.advance (C.enc a).length ∧ d.rest = r :=
  ⟨_, hm c a r h, rfl, Cmd.rest_advance (C.dec_split h)⟩

variable (mem)

theorem reads_elem (T : Elem) : Reads (T.read mem) T.codec := by
  cases T with
  | int w => exact reads_int mem w
  | str =>
    intro c s r h
    obtain ⟨n, m, hsize, htext⟩ := Codec.counted_some.1 h
    obtain ⟨rfl, hm⟩ := byteCodec.times_split htext
    rw [flatMap_byteCodec] at hm
    have hbuf : c.buf ≠ [] := Cmd.buf_ne_nil (sizeCodec.dec_split hsize) (List.cons_ne_nil _ _)
    obtain ⟨d, hread, rfl, hrest⟩ := (reads_size mem).rest hsize
    have hbuf : (c.advance (sizeCodec.enc s.length).length).buf ≠ [] := hbuf
    rw [Elem.read, CmdM.on_bind_ok hread, readRaw_inside mem hbuf (hrest.trans hm),
      Cmd.advance_advance, Elem.enc_str, List.length_append]
    rfl

/-- The loop of `read_list`: what it reads comes after what it has. -/
theorem readItems_on (T : Elem) {n : Nat} {c : Cmd} (vs : List T.Val) {as : List T.Val} {r : Bytes}
    (h : T.codec.times n c.rest = some (as, r)) :
    (T.readItems mem n vs).on c = (.ok (vs ++ as), c.advance (as.flatMap T.codec.enc).length) := by
  induction n generalizing c vs as with
  | zero =>
    obtain ⟨rfl, -⟩ := Prod.mk.inj (Option.some.inj h)
    rw [Elem.readItems, CmdM.on_pure, List.append_nil, List.flatMap_nil, List.length_nil,
      Cmd.advance_zero]
  | succ n ih =>
    obtain ⟨a, m, bs, hdec, htimes, rfl⟩ := T.codec.times_succ_some.1 h
    obtain ⟨d, hread, rfl, hrest⟩ := (reads_elem mem T).rest hdec
    rw [← hrest] at htimes
    rw [Elem.readItems, CmdM.on_bind_ok hread, ih (vs ++ [a]) htimes, Cmd.advance_advance,
      List.append_assoc, List.singleton_append, List.flatMap_cons, List.length_append]

theorem reads_kind (k : Kind) : Reads (k.read mem) k.codec := by
  cases k with
  | one T => exact reads_elem mem T
  | list T =>
    intro c as r h
    obtain ⟨n, m, hsize, hitems⟩ := Codec.counted_some.1 h
    obtain ⟨rfl, -⟩ := T.codec.times_split hitems
    obtain ⟨d, hread, rfl, hrest⟩ := (reads_size mem).rest hsize
    rw [← hrest] at hitems
    rw [Kind.read, CmdM.on_bind_ok hread, readItems_on mem T [] hitems, Cmd.advance_advance,
      List.nil_append, ← List.length_append]
    rfl

/-- A sequence of calls reads what is stored, whatever follows it. -/
theorem readAll_on {ks : List Kind} {c : Cmd} {vs : List ((k : Kind) × k.Val)} {r : Bytes}
    (h : Codec.decSeq Kind.codec ks c.rest = some (vs, r)) :
    (readAll mem ks).on c = (.ok vs, c.advance (Codec.encSeq Kind.codec vs).length) := by
  induction ks generalizing c vs with
  | nil =>
    obtain ⟨rfl, -⟩ := Prod.mk.inj (Option.some.inj h)
    rw [readAll, CmdM.on_pure]
    exact congrArg (Prod.mk _) c.advance_zero.symm
  | cons k ks ih =>
    rw [Codec.decSeq] at h
    obtain ⟨⟨a, m⟩, hdec, h⟩ := Option.bind_eq_some_iff.1 h
    obtain ⟨⟨ws, r'⟩, hseq, h⟩ := Option.map_eq_some_iff.1 h
    obtain ⟨rfl, rfl⟩ := Prod.mk.inj h
    obtain ⟨d, hread, rfl, hrest⟩ := (reads_kind mem k).rest hdec
    have hall := ih (c := c.advance (k.codec.enc a).length) (hrest.symm ▸ hseq)
    rw [readAll, CmdM.on_bind_ok hread, CmdM.on_bind_ok hall, CmdM.on_pure, Cmd.advance_advance,
      ← List.length_append]
    rfl

end Stored

/-! ## Writing and reading back -/

/-- A call appends its bytes if the buffer can hold them, and throws if it cannot. -/
def Writes (m : CmdM Unit) (u : Bytes) : Prop :=
  ∀ c : Cmd, (∀ h, m.on c = (.ok (), c.append u h)) ∧
    (¬ (c.buf ++ u).length < 2 ^ 64 → ∃ d, m.on c = (.error .write, d))

theorem writes_raw (u : Bytes) : Writes (writeRaw u) u := by
  intro c
  have hget : CmdM.on get c = (.ok c, c) := rfl
  constructor
  · intro h
    rw [writeRaw, CmdM.on_bind_ok hget, dif_pos h]
    rfl
  · intro h
    rw [writeRaw, CmdM.on_bind_ok hget, dif_neg h]
    exact ⟨c, rfl⟩

theorem writes_nil : Writes (pure ()) [] := by
  intro c
  constructor
  · intro h
    rw [CmdM.on_pure]
    unfold Cmd.append
    congr 1
    simp only [List.append_nil]
  · intro h
    rw [List.append_nil] at h
    exact absurd c.size_lt h

theorem Writes.append {m m' : CmdM Unit} {u u' : Bytes} (hm : Writes m u) (hm' : Writes m' u') :
    Writes (m >>= fun _ => m') (u ++ u') := by
  intro c
  constructor
  · intro h
    have hfirst : (c.buf ++ u).length < 2 ^ 64 := by
      simp only [List.length_append] at h ⊢
      omega
    have hboth : (c.buf ++ u ++ u').length < 2 ^ 64 := by rwa [List.append_assoc]
    rw [CmdM.on_bind_ok ((hm c).1 hfirst), (hm' (c.append u hfirst)).1 hboth]
    unfold Cmd.append
    congr 1
    simp only [List.append_assoc]
  · intro h
    by_cases hfirst : (c.buf ++ u).length < 2 ^ 64
    · have hboth : ¬ (c.buf ++ u ++ u').length < 2 ^ 64 := by rwa [List.append_assoc]
      obtain ⟨d, herr⟩ := (hm' (c.append u hfirst)).2 hboth
      exact ⟨d, (CmdM.on_bind_ok ((hm c).1 hfirst)).trans herr⟩
    · obtain ⟨d, herr⟩ := (hm c).2 hfirst
      exact ⟨d, CmdM.on_bind_error herr⟩

theorem writes_elem (T : Elem) (v : T.Val) : Writes (T.write v) (T.codec.enc v) := by
  cases T with
  | int w => exact writes_raw _
  | str =>
    rw [Elem.enc_str]
    exact (writes_raw _).append (writes_raw _)

theorem writes_items (T : Elem) (vs : List T.Val) :
    Writes (T.writeItems vs) (vs.flatMap T.codec.enc) := by
  induction vs with
  | nil => exact writes_nil
  | cons v vs ih => exact (writes_elem T v).append ih

theorem writes_kind (k : Kind) (v : k.Val) : Writes (k.write v) (k.codec.enc v) := by
  cases k with
  | one T => exact writes_elem T v
  | list T => exact (writes_raw _).append (writes_items T v)

/-- The payload is the values one after another. -/
theorem writes_all (vs : List ((k : Kind) × k.Val)) :
    Writes (writeAll vs) (Codec.encSeq Kind.codec vs) := by
  induction vs with
  | nil => exact writes_nil
  | cons v vs ih => exact (writes_kind v.1 v.2).append ih

/-- A list has no more elements than bytes. -/
theorem length_le_flatMap (T : Elem) (vs : List T.Val) : vs.length ≤ (vs.flatMap T.codec.enc).length := by
  induction vs with
  | nil => exact Nat.le_refl 0
  | cons v vs ih =>
    have hpos : 0 < (T.codec.enc v).length := List.length_pos_iff.2 (T.enc_ne_nil v)
    rw [List.flatMap_cons, List.length_append, List.length_cons]
    omega

theorem Elem.ok_of_length {T : Elem} {v : T.Val} (h : (T.codec.enc v).length < 2 ^ 64) :
    T.codec.Ok v := by
  cases T with
  | int w => exact trivial
  | str =>
    rw [Elem.enc_str, List.length_append] at h
    exact ⟨show v.length < 256 ^ 8 by omega, fun _ _ => trivial⟩

theorem Kind.ok_of_length {k : Kind} {v : k.Val} (h : (k.codec.enc v).length < 2 ^ 64) :
    k.codec.Ok v := by
  cases k with
  | one T => exact Elem.ok_of_length h
  | list T =>
    have henc : ((Kind.list T).codec.enc v).length
        = (leBytes 8 v.length).length + (v.flatMap T.codec.enc).length := List.length_append
    have hcount := length_le_flatMap T v
    refine ⟨show v.length < 256 ^ 8 by omega, fun a ha => Elem.ok_of_length ?_⟩
    have hle := T.codec.length_enc_le ha
    omega

/-- Values that have been written to a new command are read back from it by calls of the same kinds;
    the read position is then at the end, and the payload is what it was. -/
theorem payload_roundTrip (mem : Nat → UInt8) {id : BitVec 32} {vs : List ((k : Kind) × k.Val)}
    {c : Cmd} (h : (writeAll vs).on (Cmd.new id) = (.ok (), c)) :
    (readAll mem (vs.map Sigma.fst)).on c = (.ok vs, c.resetReadPos c.buf.length) := by
  have hwrite := writes_all vs (Cmd.new id)
  have hfits : ((Cmd.new id).buf ++ Codec.encSeq Kind.codec vs).length < 2 ^ 64 := by
    by_contra hbig
    obtain ⟨d, herr⟩ := hwrite.2 hbig
    rw [h] at herr
    cases herr
  rw [hwrite.1 hfits] at h
  have hc : (Cmd.new id).append _ hfits = c := (Prod.mk.inj h).2
  have hbuf : c.buf = Codec.encSeq Kind.codec vs := by
    rw [← hc]
    rfl
  have hpos : c.rpos = 0 := by
    rw [← hc]
    rfl
  have hok : ∀ v ∈ vs, v.1.codec.Ok v.2 := by
    intro v hv
    exact Kind.ok_of_length (Nat.lt_of_le_of_lt (Codec.length_enc_le_encSeq Kind.codec hv) hfits)
  have hdec : Codec.decSeq Kind.codec (vs.map Sigma.fst) c.rest = some (vs, []) := by
    rw [Cmd.rest, hpos, hbuf, List.drop_zero, ← List.append_nil (Codec.encSeq Kind.codec vs)]
    exact Codec.decSeq_encSeq Kind.codec hok []
  rw [readAll_on mem hdec, Cmd.advance, hpos, Nat.zero_add, hbuf]

/-- What a log command is written with, and two lists. -/
def samplePayload : List ((k : Kind) × k.Val) :=
  [⟨.one (.int .w32), 2⟩, ⟨.one .str, bytes "worker"⟩, ⟨.one .str, []⟩,
    ⟨.list (.int .w16), [1, 65535]⟩, ⟨.list .str, [bytes "a", [], bytes "bc"]⟩]

theorem samplePayload_fits :
    ((Cmd.new 2).buf ++ Codec.encSeq Kind.codec samplePayload).length < 2 ^ 64 := by decide

theorem payload_roundTrip_sample :
    ∃ c, (writeAll samplePayload).on (Cmd.new 2) = (.ok (), c) ∧
      (readAll (fun _ => 0) (samplePayload.map Sigma.fst)).on c
        = (.ok samplePayload, c.resetReadPos c.buf.length) :=
  have hwrite := (writes_all samplePayload (Cmd.new 2)).1 samplePayload_fits
  ⟨_, hwrite, payload_roundTrip (fun _ => 0) hwrite⟩

end LibEvmvc
