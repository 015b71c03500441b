import LibEvmvc.Foundation.Chunked

set_option autoImplicit false

/-! # Sending a file in chunks

`connection::_send_file_chunk` is called for every write event while a file is being sent. Each call
reads a block, compresses it if the reply has a compressor, and sends what came out as one chunk;
once a read has hit the end of the file the closing chunk follows. The compressor is zlib's
`deflate`, a parameter: it may take only part of its input when its output space is full, and what it
did not take is not offered again.

`deflate` is told to finish the stream when the read of this very block has hit the end of the file.
A file whose length is a multiple of the block size ends with a read of no bytes at all, and then
there is nothing to compress and nobody is told. -/

namespace LibEvmvc

/-- `EVMVC_READ_BUF_SIZE`, the size of a block and of the compressor's output buffer. -/
def readBufSize : Nat := 10240

/-- What `deflate` returns. -/
inductive ZRet where
  | ok
  | streamEnd
  | failed (code : Int)
  deriving DecidableEq, Repr

/-- What a call of `deflate` did: how much of its input it took, what it wrote, and its state. -/
structure DeflateResult (Z : Type) where
  consumed : Nat
  output : Bytes
  ret : ZRet
  next : Z

/-- `deflate` with the given state, input, flush mode (`Z_FINISH` or not) and output space. -/
abbrev Deflate (Z : Type) := Z → Bytes → Bool → Nat → DeflateResult Z

/-- A call of `deflate` as it was made. -/
structure DeflateCall (Z : Type) extends DeflateResult Z where
  finish : Bool
  input : Bytes

/-- What the call took in. -/
def DeflateCall.taken {Z : Type} (c : DeflateCall Z) : Bytes := c.input.take c.consumed

/-- Whether the code gives up after the call. -/
def DeflateCall.failed {Z : Type} (c : DeflateCall Z) : Bool :=
  match c.ret with
  | .failed _ => true
  | .ok | .streamEnd => false

/-- `file_reply` while it is being sent, with the output of its connection and a record of the calls
    of `deflate`. -/
structure FileReply (Z : Type) where
  unread : Bytes
  eof : Bool
  zs : Option Z
  out : Bytes
  done : Bool
  calls : List (DeflateCall Z)

section Send

variable {Z : Type}

/-- `connection::send_file`, once the head is out. -/
def FileReply.start (file : Bytes) (zs : Option Z) : FileReply Z :=
  { unread := file, eof := false, zs := zs, out := [], done := false, calls := [] }

/-- `connection::_send_chunk`. -/
def FileReply.sendChunk (s : FileReply Z) (chunk : Bytes) : FileReply Z :=
  if chunk.length = 0 then s else { s with out := s.out ++ encodeChunk chunk }

/-- `connection::_send_file_chunk_end`. -/
def FileReply.sendFileChunkEnd (s : FileReply Z) : FileReply Z :=
  { s with out := s.out ++ lastChunk, done := true }

/-- `fread` of one block: a short read is what hits the end of the file. -/
def FileReply.fread (s : FileReply Z) : Bytes × FileReply Z :=
  (s.unread.take readBufSize,
    { s with
      unread := s.unread.drop readBufSize
      eof := s.eof || decide (s.unread.length < readBufSize) })

/-- `deflate` of one block into a buffer of the same size. -/
def deflateBlock (deflate : Deflate Z) (z : Z) (buf : Bytes) (finish : Bool) : DeflateCall Z :=
  { deflate z buf finish readBufSize with finish := finish, input := buf }

/-- `connection::_send_file_chunk`. -/
def FileReply.sendFileChunk (deflate : Deflate Z) (s : FileReply Z) : FileReply Z :=
  let (buf, s) := s.fread
  let last (s : FileReply Z) : FileReply Z := if s.eof then s.sendFileChunkEnd else s
  if 0 < buf.length then
    match s.zs with
    | some z =>
      let c := deflateBlock deflate z buf s.eof
      let s := { s with zs := some c.next, calls := s.calls ++ [c] }
      if c.failed then s.sendFileChunkEnd else last (s.sendChunk c.output)
    | none => last (s.sendChunk buf)
  else last s

/-- The calls write events make until the file has been sent. -/
def FileReply.sendFile (deflate : Deflate Z) : Nat → FileReply Z → FileReply Z
  | 0, s => s
  | fuel + 1, s => if s.done then s else sendFile deflate fuel (s.sendFileChunk deflate)

/-- The reply once the file has been sent: one call for each full block and one for the rest. -/
def sentFile (deflate : Deflate Z) (file : Bytes) (zs : Option Z) : FileReply Z :=
  (FileReply.start file zs).sendFile deflate (file.length / readBufSize + 1)

/-- The body carries the whole file: as it is, or as one finished `deflate` stream over all of it. -/
structure CarriesFile (deflate : Deflate Z) (file : Bytes) (zs : Option Z) : Prop where
  ended : (sentFile deflate file zs).done = true
  plain : zs = none → chunkedPayload (sentFile deflate file zs).out = some file
  stream : ∀ z, zs = some z →
    chunkedPayload (sentFile deflate file zs).out =
      some ((sentFile deflate file zs).calls.flatMap fun c => c.output)
  taken : ∀ z, zs = some z →
    (sentFile deflate file zs).calls.flatMap DeflateCall.taken = file
  finished : ∀ z, zs = some z →
    ∃ c, (sentFile deflate file zs).calls.getLast? = some c ∧ c.finish = true ∧ c.ret = .streamEnd

/-- `deflate` takes in each of the `q` full blocks and the rest in one call each, without running
    out of output space, and ends the stream with the last. -/
def TakesAll (deflate : Deflate Z) : Nat → Z → Bytes → Prop
  | 0, z, rest =>
    let c := deflateBlock deflate z rest true
    rest.length ≤ c.consumed ∧ c.ret = .streamEnd
  | q + 1, z, rest =>
    let c := deflateBlock deflate z (rest.take readBufSize) false
    readBufSize ≤ c.consumed ∧ c.failed = false ∧
      TakesAll deflate q c.next (rest.drop readBufSize)

/-! ## The calls of `deflate` -/

/-- The calls made for `q` full blocks and the rest. -/
def deflateRun (deflate : Deflate Z) : Nat → Z → Bytes → List (DeflateCall Z)
  | 0, z, rest => if rest = [] then [] else [deflateBlock deflate z rest true]
  | q + 1, z, rest =>
    let c := deflateBlock deflate z (rest.take readBufSize) false
    if c.failed then [c] else c :: deflateRun deflate q c.next (rest.drop readBufSize)

theorem readBufSize_pos : 0 < readBufSize := by decide

theorem DeflateCall.taken_length (c : DeflateCall Z) : c.taken.length ≤ c.input.length := by
  rw [DeflateCall.taken, List.length_take]
  exact Nat.min_le_right ..

/-- A call that takes as many bytes as it was given takes all of them. -/
theorem DeflateCall.taken_eq_input (c : DeflateCall Z) :
    c.taken = c.input ↔ c.input.length ≤ c.consumed := by
  rw [DeflateCall.taken, List.take_eq_self_iff]

theorem deflateRun_taken_length (deflate : Deflate Z) (q : Nat) (z : Z) (rest : Bytes) :
    ((deflateRun deflate q z rest).flatMap DeflateCall.taken).length ≤ rest.length := by
  induction q generalizing z rest with
  | zero =>
    simp only [deflateRun]
    split
    · simp
    · rw [List.flatMap_singleton]
      exact DeflateCall.taken_length _
  | succ q ih =>
    have hc := (deflateBlock deflate z (rest.take readBufSize) false).taken_length
    simp only [deflateBlock, List.length_take] at hc
    have hrest := ih (deflateBlock deflate z (rest.take readBufSize) false).next
      (rest.drop readBufSize)
    rw [List.length_drop] at hrest
    simp only [deflateRun]
    split
    · rw [List.flatMap_singleton]
      simp only [deflateBlock]
      omega
    · rw [List.flatMap_cons, List.length_append]
      simp only [deflateBlock] at hrest ⊢
      omega

/-- The whole of `rest` was compressed into a finished stream. -/
def Finished (calls : List (DeflateCall Z)) (rest : Bytes) : Prop :=
  calls.flatMap DeflateCall.taken = rest ∧
    ∃ c, calls.getLast? = some c ∧ c.finish = true ∧ c.ret = .streamEnd

/-- A block that was not the last one was compressed whole, and so was everything after it. -/
theorem finished_cons {c : DeflateCall Z} {calls : List (DeflateCall Z)} {rest : Bytes}
    (hfinish : c.finish = false) (hcalls : (calls.flatMap DeflateCall.taken).length ≤ rest.length) :
    Finished (c :: calls) (c.input ++ rest) ↔ c.input.length ≤ c.consumed ∧ Finished calls rest := by
  constructor
  · rintro ⟨htaken, last, hlast, hfin, hret⟩
    rw [List.flatMap_cons] at htaken
    have hlen := congrArg List.length htaken
    rw [List.length_append, List.length_append] at hlen
    have hc := c.taken_length
    obtain ⟨hhead, htail⟩ := List.append_inj htaken (by omega)
    refine ⟨c.taken_eq_input.1 hhead, htail, last, ?_, hfin, hret⟩
    cases calls with
    | nil =>
      obtain rfl : c = last := by simpa using hlast
      rw [hfinish] at hfin
      cases hfin
    | cons d calls => rwa [List.getLast?_cons_cons] at hlast
  · rintro ⟨hcons, htaken, last, hlast, hfin, hret⟩
    refine ⟨?_, last, ?_, hfin, hret⟩
    · rw [List.flatMap_cons, htaken, c.taken_eq_input.2 hcons]
    · cases calls with
      | nil => cases hlast
      | cons d calls => rwa [List.getLast?_cons_cons]

/-- **When the calls of `deflate` compress all of a file into a finished stream.** -/
theorem deflateRun_finished_iff (deflate : Deflate Z) (q : Nat) (z : Z) (rest : Bytes)
    (hq : rest.length / readBufSize = q) :
    Finished (deflateRun deflate q z rest) rest ↔
      rest.length % readBufSize ≠ 0 ∧ TakesAll deflate q z rest := by
  induction q generalizing z rest with
  | zero =>
    have hlt : rest.length < readBufSize := by
      rwa [Nat.div_eq_zero_iff_lt readBufSize_pos] at hq
    rw [Nat.mod_eq_of_lt hlt]
    simp only [deflateRun, TakesAll]
    split
    · next hnil => simp [hnil, Finished]
    · next hne =>
      have hpos : rest.length ≠ 0 := by simpa using hne
      set c := deflateBlock deflate z rest true with hc
      have hin : c.input = rest := rfl
      have hfin : c.finish = true := rfl
      rw [← hin, ← c.taken_eq_input]
      simp [Finished, hfin, hpos, hin]
  | succ q ih =>
    have hfull : readBufSize ≤ rest.length := by
      have := Nat.div_pos_iff.1 (show 0 < rest.length / readBufSize by omega)
      exact this.2
    set c := deflateBlock deflate z (rest.take readBufSize) false with hc
    have hin : c.input = rest.take readBufSize := rfl
    have hlen : c.input.length = readBufSize := by
      rw [hin, List.length_take, Nat.min_eq_left hfull]
    have hdrop : (rest.drop readBufSize).length / readBufSize = q := by
      rw [List.length_drop]
      simp only [readBufSize] at hq ⊢
      omega
    have hmod : (rest.drop readBufSize).length % readBufSize = rest.length % readBufSize := by
      rw [List.length_drop, Nat.mod_eq_sub_mod hfull]
    have hsplit : rest = c.input ++ rest.drop readBufSize := by
      rw [hin, List.take_append_drop]
    simp only [deflateRun, TakesAll, ← hc]
    by_cases hfailed : c.failed = true
    · -- the call that failed is the last one, and it did not finish anything
      have hnot : ¬ Finished [c] rest := by
        rintro ⟨-, last, hlast, hfin, -⟩
        obtain rfl : c = last := by simpa using hlast
        cases hfin
      simp [hfailed, hnot]
    · have hrun := deflateRun_taken_length deflate q c.next (rest.drop readBufSize)
      have hih := ih c.next (rest.drop readBufSize) hdrop
      have hcons := finished_cons (c := c) rfl hrun
      rw [← hsplit, hlen, hih, hmod] at hcons
      simp only [hfailed, Bool.false_eq_true, if_false, hcons]
      tauto

/-! ## The chunks -/

/-- What of a call's output is sent. -/
def DeflateCall.sent (c : DeflateCall Z) : Bytes := if c.failed then [] else c.output

/-- Chunks that are not empty, written to the output. -/
def Chunks (out out' payload : Bytes) : Prop :=
  ∃ chunks : List Bytes, (∀ c ∈ chunks, c ≠ []) ∧ out' = out ++ chunks.flatMap encodeChunk ∧
    chunks.flatten = payload

theorem Chunks.refl (out : Bytes) : Chunks out out [] := ⟨[], by simp, by simp, rfl⟩

theorem Chunks.trans {a b c p q : Bytes} (h : Chunks a b p) (h' : Chunks b c q) :
    Chunks a c (p ++ q) := by
  obtain ⟨xs, hxs, rfl, rfl⟩ := h
  obtain ⟨ys, hys, rfl, rfl⟩ := h'
  refine ⟨xs ++ ys, ?_, by simp, by simp⟩
  intro x hx
  rcases List.mem_append.1 hx with hmem | hmem
  · exact hxs x hmem
  · exact hys x hmem

theorem sendChunk_chunks (s : FileReply Z) (chunk : Bytes) :
    Chunks s.out (s.sendChunk chunk).out chunk := by
  unfold FileReply.sendChunk
  split
  · next h =>
    obtain rfl : chunk = [] := List.length_eq_zero_iff.1 h
    exact .refl s.out
  · next h =>
    refine ⟨[chunk], ?_, by simp, by simp⟩
    intro c hc
    obtain rfl : c = chunk := by simpa using hc
    intro hnil
    exact h (by rw [hnil]; rfl)

section Frame

variable (s : FileReply Z) (chunk : Bytes)

@[simp] theorem sendChunk_unread : (s.sendChunk chunk).unread = s.unread := by
  unfold FileReply.sendChunk
  split <;> rfl

@[simp] theorem sendChunk_eof : (s.sendChunk chunk).eof = s.eof := by
  unfold FileReply.sendChunk
  split <;> rfl

@[simp] theorem sendChunk_zs : (s.sendChunk chunk).zs = s.zs := by
  unfold FileReply.sendChunk
  split <;> rfl

@[simp] theorem sendChunk_done : (s.sendChunk chunk).done = s.done := by
  unfold FileReply.sendChunk
  split <;> rfl

@[simp] theorem sendChunk_calls : (s.sendChunk chunk).calls = s.calls := by
  unfold FileReply.sendChunk
  split <;> rfl

end Frame

/-- A file that is being sent, with `q` full blocks to go. -/
structure Sending (s : FileReply Z) (q : Nat) : Prop where
  open' : s.done = false
  noEof : s.eof = false
  blocks : s.unread.length / readBufSize = q

theorem Sending.full {s : FileReply Z} {q : Nat} (h : Sending s (q + 1)) :
    readBufSize ≤ s.unread.length := by
  have hpos := Nat.div_pos_iff.1 (show 0 < s.unread.length / readBufSize by rw [h.blocks]; omega)
  exact hpos.2

theorem Sending.short {s : FileReply Z} (h : Sending s 0) : s.unread.length < readBufSize :=
  (Nat.div_eq_zero_iff_lt readBufSize_pos).1 h.blocks

theorem Sending.next_blocks {s : FileReply Z} {q : Nat} (h : Sending s (q + 1)) :
    (s.unread.drop readBufSize).length / readBufSize = q := by
  have hb := h.blocks
  rw [List.length_drop]
  simp only [readBufSize] at hb ⊢
  omega

/-- A read of a full block does not hit the end of the file. -/
theorem fread_full {s : FileReply Z} {q : Nat} (h : Sending s (q + 1)) :
    s.fread = (s.unread.take readBufSize, { s with unread := s.unread.drop readBufSize }) := by
  have hfull := h.full
  simp [FileReply.fread, h.noEof, Nat.not_lt.2 hfull]

/-- A short read gets the rest and hits the end of the file. -/
theorem fread_short {s : FileReply Z} (h : Sending s 0) :
    s.fread = (s.unread, { s with unread := [], eof := true }) := by
  have hshort := h.short
  simp [FileReply.fread, hshort, List.take_of_length_le (Nat.le_of_lt hshort),
    List.drop_eq_nil_of_le (Nat.le_of_lt hshort)]

theorem sendFile_done (deflate : Deflate Z) (fuel : Nat) (s : FileReply Z) (h : s.done = true) :
    s.sendFile deflate fuel = s := by
  cases fuel with
  | zero => rfl
  | succ fuel => rw [FileReply.sendFile, if_pos h]

theorem sendFile_step (deflate : Deflate Z) (fuel : Nat) (s : FileReply Z) (h : s.done = false) :
    s.sendFile deflate (fuel + 1) = (s.sendFileChunk deflate).sendFile deflate fuel := by
  rw [FileReply.sendFile, if_neg (by simp [h])]

/-- The last call when there is no compressor. -/
theorem sendFileChunk_plain_short (deflate : Deflate Z) {s : FileReply Z} (h : Sending s 0)
    (hz : s.zs = none) :
    s.sendFileChunk deflate =
      FileReply.sendFileChunkEnd
        (FileReply.sendChunk { s with unread := [], eof := true } s.unread) := by
  unfold FileReply.sendFileChunk
  rw [fread_short h]
  simp only [hz, sendChunk_eof, if_true]
  split
  · rfl
  · next hnil =>
    have hempty : s.unread.length = 0 := by omega
    simp only [FileReply.sendChunk, hempty, if_true]

/-- Any other call when there is no compressor. -/
theorem sendFileChunk_plain_full (deflate : Deflate Z) {s : FileReply Z} {q : Nat}
    (h : Sending s (q + 1)) (hz : s.zs = none) :
    s.sendFileChunk deflate =
      FileReply.sendChunk { s with unread := s.unread.drop readBufSize }
        (s.unread.take readBufSize) := by
  have hpos : 0 < (s.unread.take readBufSize).length := by
    rw [List.length_take, Nat.min_eq_left h.full]
    exact readBufSize_pos
  unfold FileReply.sendFileChunk
  rw [fread_full h]
  simp only [hz, hpos, if_true, sendChunk_eof, h.noEof, Bool.false_eq_true, if_false]

/-- **Without a compressor the chunks carry the file.** -/
theorem sendFile_plain (deflate : Deflate Z) (q : Nat) (s : FileReply Z) (h : Sending s q)
    (hz : s.zs = none) :
    (s.sendFile deflate (q + 1)).done = true ∧
      ∃ mid, Chunks s.out mid s.unread ∧ (s.sendFile deflate (q + 1)).out = mid ++ lastChunk := by
  induction q generalizing s with
  | zero =>
    rw [sendFile_step deflate 0 s h.open', sendFileChunk_plain_short deflate h hz]
    exact ⟨rfl, _, sendChunk_chunks { s with unread := [], eof := true } s.unread, rfl⟩
  | succ q ih =>
    rw [sendFile_step deflate (q + 1) s h.open', sendFileChunk_plain_full deflate h hz]
    set s₁ : FileReply Z := { s with unread := s.unread.drop readBufSize } with hs₁
    have hsend : Sending (s₁.sendChunk (s.unread.take readBufSize)) q :=
      ⟨by rw [sendChunk_done]; exact h.open', by rw [sendChunk_eof]; exact h.noEof,
        by rw [sendChunk_unread]; exact h.next_blocks⟩
    obtain ⟨hdone, mid, hmid, hout⟩ := ih _ hsend (by rw [sendChunk_zs]; exact hz)
    refine ⟨hdone, mid, ?_, hout⟩
    have hall := (sendChunk_chunks s₁ (s.unread.take readBufSize)).trans hmid
    rwa [sendChunk_unread, List.take_append_drop] at hall

/-- The last call when there is a compressor: with nothing left to read it is not asked at all. -/
theorem sendFileChunk_deflate_short (deflate : Deflate Z) {s : FileReply Z} {z : Z}
    (h : Sending s 0) (hz : s.zs = some z) :
    ∃ mid, Chunks s.out mid ((deflateRun deflate 0 z s.unread).flatMap DeflateCall.sent) ∧
      (s.sendFileChunk deflate).out = mid ++ lastChunk ∧
      (s.sendFileChunk deflate).done = true ∧
      (s.sendFileChunk deflate).calls = s.calls ++ deflateRun deflate 0 z s.unread := by
  unfold FileReply.sendFileChunk
  rw [fread_short h]
  simp only [hz, deflateRun]
  by_cases hnil : s.unread = []
  · simp only [hnil, List.length_nil, Nat.lt_irrefl, if_false, if_true, List.flatMap_nil]
    exact ⟨s.out, .refl _, rfl, rfl, by simp [FileReply.sendFileChunkEnd]⟩
  · have hpos : 0 < s.unread.length := List.length_pos_iff.2 hnil
    simp only [hnil, hpos, if_true, if_false, List.flatMap_singleton]
    by_cases hfailed : (deflateBlock deflate z s.unread true).failed = true
    · simp only [hfailed, if_true, DeflateCall.sent]
      exact ⟨s.out, .refl _, rfl, rfl, rfl⟩
    · simp only [hfailed, Bool.false_eq_true, if_false, DeflateCall.sent, sendChunk_eof, if_true]
      refine ⟨_, sendChunk_chunks
        { s with
          unread := [], eof := true, zs := some (deflateBlock deflate z s.unread true).next
          calls := s.calls ++ [deflateBlock deflate z s.unread true] }
        (deflateBlock deflate z s.unread true).output, rfl, rfl, ?_⟩
      simp [FileReply.sendFileChunkEnd]

/-- Any other call when there is a compressor. -/
theorem sendFileChunk_deflate_full (deflate : Deflate Z) {s : FileReply Z} {z : Z} {q : Nat}
    (h : Sending s (q + 1)) (hz : s.zs = some z) :
    let c := deflateBlock deflate z (s.unread.take readBufSize) false
    let s₁ : FileReply Z :=
      { s with unread := s.unread.drop readBufSize, zs := some c.next, calls := s.calls ++ [c] }
    s.sendFileChunk deflate = if c.failed then s₁.sendFileChunkEnd else s₁.sendChunk c.output := by
  have hpos : 0 < (s.unread.take readBufSize).length := by
    rw [List.length_take, Nat.min_eq_left h.full]
    exact readBufSize_pos
  unfold FileReply.sendFileChunk
  rw [fread_full h]
  simp only [hz, hpos, if_true, sendChunk_eof, h.noEof, Bool.false_eq_true, if_false]

/-- **With a compressor the chunks carry what its calls wrote**, and the calls are those of
    `deflateRun`. -/
theorem sendFile_deflate (deflate : Deflate Z) (q : Nat) (s : FileReply Z) (z : Z)
    (h : Sending s q) (hz : s.zs = some z) :
    (s.sendFile deflate (q + 1)).done = true ∧
      (s.sendFile deflate (q + 1)).calls = s.calls ++ deflateRun deflate q z s.unread ∧
      ∃ mid, Chunks s.out mid ((deflateRun deflate q z s.unread).flatMap DeflateCall.sent) ∧
        (s.sendFile deflate (q + 1)).out = mid ++ lastChunk := by
  induction q generalizing s z with
  | zero =>
    obtain ⟨mid, hmid, hout, hdone, hcalls⟩ := sendFileChunk_deflate_short deflate h hz
    rw [sendFile_step deflate 0 s h.open']
    exact ⟨hdone, hcalls, mid, hmid, hout⟩
  | succ q ih =>
    rw [sendFile_step deflate (q + 1) s h.open', sendFileChunk_deflate_full deflate h hz]
    simp only [deflateRun]
    set c := deflateBlock deflate z (s.unread.take readBufSize) false with hc
    set s₁ : FileReply Z :=
      { s with unread := s.unread.drop readBufSize, zs := some c.next, calls := s.calls ++ [c] }
      with hs₁
    by_cases hfailed : c.failed = true
    · -- the code gives up: the rest of the file is not even read
      simp only [hfailed, if_true]
      rw [sendFile_done deflate _ _ rfl]
      refine ⟨rfl, rfl, s.out, ?_, rfl⟩
      simp only [List.flatMap_singleton, DeflateCall.sent, hfailed, if_true]
      exact .refl s.out
    · have hsend : Sending (s₁.sendChunk c.output) q :=
        ⟨by rw [sendChunk_done]; exact h.open', by rw [sendChunk_eof]; exact h.noEof,
          by rw [sendChunk_unread]; exact h.next_blocks⟩
      obtain ⟨hdone, hcalls, mid, hmid, hout⟩ := ih _ c.next hsend (by rw [sendChunk_zs])
      rw [sendChunk_calls, sendChunk_unread] at hcalls
      rw [sendChunk_unread] at hmid
      simp only [hfailed, Bool.false_eq_true, if_false]
      refine ⟨hdone, by rw [hcalls]; simp [hs₁], mid, ?_, hout⟩
      have hsent : c.sent = c.output := by simp [DeflateCall.sent, hfailed]
      rw [List.flatMap_cons, hsent]
      exact (sendChunk_chunks s₁ c.output).trans hmid

/-- In a run that ends its stream no call failed, so all that was written was sent. -/
theorem deflateRun_sent (deflate : Deflate Z) (q : Nat) (z : Z) (rest : Bytes)
    (h : ∃ c, (deflateRun deflate q z rest).getLast? = some c ∧ c.ret = .streamEnd) :
    (deflateRun deflate q z rest).flatMap DeflateCall.sent =
      (deflateRun deflate q z rest).flatMap fun c => c.output := by
  induction q generalizing z rest with
  | zero =>
    simp only [deflateRun] at h ⊢
    split
    · rfl
    · next hne =>
      rw [if_neg hne] at h
      obtain ⟨c, hlast, hret⟩ := h
      obtain rfl : deflateBlock deflate z rest true = c := by simpa using hlast
      simp [DeflateCall.sent, DeflateCall.failed, hret]
  | succ q ih =>
    simp only [deflateRun] at h ⊢
    set c := deflateBlock deflate z (rest.take readBufSize) false
    by_cases hfailed : c.failed = true
    · simp only [hfailed, if_true] at h
      obtain ⟨d, hlast, hret⟩ := h
      obtain rfl : c = d := by simpa using hlast
      simp [DeflateCall.failed, hret] at hfailed
    · simp only [hfailed, Bool.false_eq_true, if_false] at h ⊢
      rw [List.flatMap_cons, List.flatMap_cons]
      have hhead : c.sent = c.output := by simp [DeflateCall.sent, hfailed]
      rw [hhead]
      cases hrun : deflateRun deflate q c.next (rest.drop readBufSize) with
      | nil => rfl
      | cons d calls =>
        rw [hrun, List.getLast?_cons_cons, ← hrun] at h
        rw [← hrun, ih c.next (rest.drop readBufSize) h]

/-- What has been sent and compressed when the file is through. -/
theorem sentFile_deflate (deflate : Deflate Z) (file : Bytes) (z : Z) :
    (sentFile deflate file (some z)).done = true ∧
      (sentFile deflate file (some z)).calls =
        deflateRun deflate (file.length / readBufSize) z file ∧
      chunkedPayload (sentFile deflate file (some z)).out =
        some ((deflateRun deflate (file.length / readBufSize) z file).flatMap DeflateCall.sent) := by
  have hstart : Sending (FileReply.start file (some z)) (file.length / readBufSize) := ⟨rfl, rfl, rfl⟩
  obtain ⟨hdone, hcalls, mid, ⟨chunks, hne, hmid, hflat⟩, hout⟩ :=
    sendFile_deflate deflate _ _ z hstart rfl
  refine ⟨hdone, hcalls, ?_⟩
  rw [sentFile, hout, hmid, FileReply.start, List.nil_append, chunkedPayload_encode chunks hne, hflat]
  rfl

/-- A file that was carried was compressed into a finished stream. -/
theorem CarriesFile.finishedRun {deflate : Deflate Z} {file : Bytes} {z : Z}
    (h : CarriesFile deflate file (some z)) :
    Finished (deflateRun deflate (file.length / readBufSize) z file) file := by
  rw [← (sentFile_deflate deflate file z).2.1]
  exact ⟨h.taken z rfl, h.finished z rfl⟩

/-- **The chunked body carries the whole file exactly if** there is no compressor, or the length of
    the file is not a multiple of the block size and `deflate` takes in every block it is handed. -/
theorem carriesFile_iff (deflate : Deflate Z) (file : Bytes) (zs : Option Z) :
    CarriesFile deflate file zs ↔
      ∀ z, zs = some z → file.length % readBufSize ≠ 0 ∧
        TakesAll deflate (file.length / readBufSize) z file := by
  cases zs with
  | none =>
    have hstart : Sending (FileReply.start file (none : Option Z)) (file.length / readBufSize) :=
      ⟨rfl, rfl, rfl⟩
    obtain ⟨hdone, mid, ⟨chunks, hne, hmid, hflat⟩, hout⟩ :=
      sendFile_plain deflate _ _ hstart rfl
    simp only [reduceCtorEq, false_implies, implies_true, iff_true]
    refine ⟨hdone, fun _ => ?_, by simp, by simp, by simp⟩
    rw [sentFile, hout, hmid, FileReply.start, List.nil_append, chunkedPayload_encode chunks hne,
      hflat]
    rfl
  | some z =>
    obtain ⟨hdone, hcalls, hpayload⟩ := sentFile_deflate deflate file z
    have hiff := deflateRun_finished_iff deflate _ z file rfl
    constructor
    · rintro h z' ⟨⟩
      exact hiff.1 h.finishedRun
    · intro h
      obtain ⟨htaken, c, hlast, hfin, hret⟩ := hiff.2 (h z rfl)
      refine ⟨hdone, by simp, ?_, ?_, ?_⟩
      · intro z' _
        rw [hpayload, hcalls, deflateRun_sent deflate _ z file ⟨c, hlast, hret⟩]
      · intro z' _
        rw [hcalls, htaken]
      · intro z' _
        exact ⟨c, by rw [hcalls, hlast], hfin, hret⟩

end Send

/-- A compressor that stores what it gets and never runs out of space. -/
def storeAll : Deflate Unit := fun _ input finish _ =>
  { consumed := input.length, output := input, ret := if finish then .streamEnd else .ok, next := () }

/-- A file of exactly one block never gets its stream finished, whatever the compressor can hold. -/
theorem one_block_file_not_finished :
    ¬ ∀ (deflate : Deflate Unit) (file : Bytes) (zs : Option Unit),
      CarriesFile deflate file zs := by
  intro h
  have hfinished := (h storeAll (List.replicate 10240 97) (some ())).finishedRun
  have hiff := deflateRun_finished_iff storeAll _ () (List.replicate 10240 97) rfl
  exact (hiff.1 hfinished).1 (by rw [List.length_replicate]; rfl)

end LibEvmvc
