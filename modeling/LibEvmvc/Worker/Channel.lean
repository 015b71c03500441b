import Mathlib.Algebra.Group.Nat.Defs
import LibEvmvc.Foundation.Bytes
import LibEvmvc.Foundation.Framing

set_option autoImplicit false

/-! # The command channel

The master and a worker send each other commands through a pipe. `_sendcmd` writes the identifier, the
length of the payload and the payload, each with a write of its own; `channel_cmd_read` collects what
it reads and hands a command to `parse_cmd` when it has all of it. Not every call of `parse_cmd` returns:
one may end the process, or throw out of the loop (`parseCmdReturns`).

Both ends run on one machine: an `int` has four bytes and a `size_t` eight, the least significant one
first. -/

namespace LibEvmvc

/-! ## Numbers in memory -/

/-- A number in `w` bytes, the least significant one first. -/
def leBytes : Nat → Nat → Bytes
  | 0, _ => []
  | w + 1, n => UInt8.ofNat n :: leBytes w (n / 256)

/-- The number in a piece of memory. -/
def leNat : Bytes → Nat
  | [] => 0
  | b :: bs => b.toNat + 256 * leNat bs

theorem length_leBytes (w n : Nat) : (leBytes w n).length = w := by
  induction w generalizing n with
  | zero => rfl
  | succ w ih => rw [leBytes, List.length_cons, ih]

theorem leNat_leBytes {w n : Nat} (h : n < 256 ^ w) : leNat (leBytes w n) = n := by
  induction w generalizing n with
  | zero =>
    rw [Nat.pow_zero] at h
    exact (Nat.lt_one_iff.1 h).symm
  | succ w ih =>
    have hdiv : n / 256 < 256 ^ w := by
      rw [Nat.pow_succ] at h
      exact Nat.div_lt_of_lt_mul (by rw [Nat.mul_comm]; exact h)
    rw [leBytes, leNat, ih hdiv, UInt8.toNat_ofNat']
    exact Nat.mod_add_div n 256

/-! ## Commands -/

def cmdPing : Int := 0
def cmdPong : Int := 1
def cmdLog : Int := 2
def cmdClose : Int := 3
def cmdCloseApp : Int := 4
def cmdUserId : Int := 100

/-- What `parse_cmd` tells apart. -/
inductive CmdKind where
  | ping
  | pong
  | log
  | close
  | closeApp
  | unknown
  | user
  deriving DecidableEq, Repr

def cmdKind (id : Int) : CmdKind :=
  if id < cmdUserId then
    if id = cmdPing then .ping
    else if id = cmdPong then .pong
    else if id = cmdClose then .close
    else if id = cmdCloseApp then .closeApp
    else if id = cmdLog then .log
    else .unknown
  else .user

/-! ## Sending -/

/-- A command: its identifier, an `int`, and its payload. No object in memory has `2 ^ 63` bytes. -/
structure Command where
  id : BitVec 32
  payload : Bytes
  size_lt : payload.length < 2 ^ 63

/-- A call of `_sendcmd`, and how many bytes the pipe takes at each of its three writes before it
    refuses. -/
structure SendCall where
  cmd : Command
  idRoom : Nat
  lenRoom : Nat
  payloadRoom : Nat

/-- `md::files::writen`: all bytes, or those that are taken before a write fails, and then `-1`. -/
def writen (room : Nat) (data : Bytes) : Int × Bytes :=
  if data.length ≤ room then (data.length, data) else (-1, data.take room)

/-- `channel::_sendcmd`: what it returns, and what it has put into the pipe. -/
def sendcmd (call : SendCall) : Int × Bytes :=
  let (n, sent) := writen call.idRoom (leBytes 4 call.cmd.id.toNat)
  if n = -1 then (-1, sent)
  else
    let tn := n
    let (n, w) := writen call.lenRoom (leBytes 8 call.cmd.payload.length)
    let sent := sent ++ w
    if n = -1 then (-1, sent)
    else
      let tn := tn + n
      if 0 < call.cmd.payload.length then
        let (n, w) := writen call.payloadRoom call.cmd.payload
        let sent := sent ++ w
        if n = -1 then (-1, sent)
        else (tn + n, sent)
      else (tn, sent)

/-- What a list of calls puts into the pipe. -/
def written (calls : List SendCall) : Bytes := calls.flatMap fun call => (sendcmd call).2

/-- The bytes of a command. -/
def Command.encode (c : Command) : Bytes :=
  leBytes 4 c.id.toNat ++ leBytes 8 c.payload.length ++ c.payload

/-- The pipe takes all of the call. -/
def SendCall.Fits (call : SendCall) : Prop :=
  4 ≤ call.idRoom ∧ 8 ≤ call.lenRoom ∧ call.cmd.payload.length ≤ call.payloadRoom

section Sending

/-- A write takes all bytes, or fails with some of them left. -/
theorem writen_cases (room : Nat) (data : Bytes) :
    (data.length ≤ room ∧ writen room data = ((data.length : Int), data)) ∨
      (room < data.length ∧ writen room data = (-1, data.take room)) := by
  unfold writen
  split
  · next h => exact .inl ⟨h, rfl⟩
  · next h => exact .inr ⟨by omega, rfl⟩

/-- A part of the middle piece is missing, and all that follows it. -/
theorem append_take_part (pre data post : Bytes) {k : Nat} (hk : k < data.length) :
    pre ++ data.take k <+: pre ++ data ++ post ∧ pre ++ data.take k ≠ pre ++ data ++ post := by
  constructor
  · rw [List.append_assoc]
    exact (List.prefix_append_right_inj _).2 ((List.take_prefix k data).trans (List.prefix_append _ _))
  · intro h
    have hlen := congrArg List.length h
    simp only [List.length_append, List.length_take] at hlen
    omega

theorem natCast_ne_neg_one (n : Nat) : ¬ ((n : Int) = -1) := by omega

/-- **A call sends the whole command, or it returns -1 and has sent a part of it.** -/
theorem sendcmd_cases (call : SendCall) :
    (call.Fits ∧ (sendcmd call).1 ≠ -1 ∧ (sendcmd call).2 = call.cmd.encode) ∨
      (¬ call.Fits ∧ (sendcmd call).1 = -1 ∧ (call.idRoom = 0 → (sendcmd call).2 = []) ∧
        (sendcmd call).2 <+: call.cmd.encode ∧ (sendcmd call).2 ≠ call.cmd.encode) := by
  unfold sendcmd SendCall.Fits
  obtain ⟨hroom, hid⟩ | ⟨hroom, hid⟩ := writen_cases call.idRoom (leBytes 4 call.cmd.id.toNat)
  · rw [hid]
    rw [length_leBytes] at hroom
    obtain ⟨hroom', hln⟩ | ⟨hroom', hln⟩ :=
      writen_cases call.lenRoom (leBytes 8 call.cmd.payload.length)
    · rw [hln]
      rw [length_leBytes] at hroom'
      simp only [natCast_ne_neg_one, if_false]
      split
      · obtain ⟨hroom'', hp⟩ | ⟨hroom'', hp⟩ := writen_cases call.payloadRoom call.cmd.payload
        · rw [hp]
          simp only [natCast_ne_neg_one, if_false]
          exact .inl ⟨⟨hroom, hroom', hroom''⟩, by omega, rfl⟩
        · rw [hp]
          simp only [if_true]
          have h := append_take_part
            (leBytes 4 call.cmd.id.toNat ++ leBytes 8 call.cmd.payload.length) _ [] hroom''
          rw [List.append_nil] at h
          exact .inr ⟨by omega, trivial, by omega, h⟩
      · next hempty =>
        have hnil : call.cmd.payload = [] := List.length_eq_zero_iff.1 (by omega)
        refine .inl ⟨⟨hroom, hroom', by omega⟩, by simp only [length_leBytes]; omega, ?_⟩
        rw [Command.encode, hnil, List.append_nil]
    · rw [hln]
      rw [length_leBytes] at hroom'
      simp only [natCast_ne_neg_one, if_false, if_true]
      refine .inr ⟨by omega, trivial, by omega, ?_⟩
      exact append_take_part (leBytes 4 call.cmd.id.toNat) _ call.cmd.payload (by
        rw [length_leBytes]; exact hroom')
  · rw [hid]
    simp only [if_true]
    have h := append_take_part [] _ (leBytes 8 call.cmd.payload.length ++ call.cmd.payload) hroom
    rw [List.nil_append, List.nil_append, ← List.append_assoc] at h
    rw [length_leBytes] at hroom
    refine .inr ⟨by omega, trivial, ?_, h⟩
    intro hzero
    rw [hzero, List.take_zero]

end Sending

/-! ## Receiving -/

/-- The arguments of a call of `parse_cmd`: the identifier, the bytes behind the pointer (there are
    none for a null pointer) and the length. -/
structure ParseCall where
  cmdId : BitVec 32
  p : Option Bytes
  plen : Nat
  deriving DecidableEq, Repr

/-- `EVMVC_CMD_HEADER_SIZE` -/
def cmdHeaderSize : Nat := 12

/-- `evbuffer_pullup`. The size is signed there: a negative one stands for the whole buffer, and there
    is no pointer to no bytes or to more than there are. -/
def pullup (buf : Bytes) (size : Nat) : Option Bytes :=
  let size := if size < 2 ^ 63 then size else buf.length
  if size = 0 ∨ buf.length < size then none else some (buf.take size)

/-- One round of the inner loop of `channel_cmd_read`: the command at the beginning of the buffer, if
    all of it is there, and the buffer without it. The sum of the sizes is a `size_t`. -/
def nextCmd (buf : Bytes) : Option (ParseCall × Bytes) :=
  let bl := buf.length
  if bl < cmdHeaderSize then none
  else
    let t := BitVec.ofNat 32 (leNat (buf.take 4))
    let ps := leNat ((buf.drop 4).take 8)
    if bl < (cmdHeaderSize + ps) % 2 ^ 64 then none
    else
      let buf := buf.drop cmdHeaderSize
      if ps = 0 then some (⟨t, none, ps⟩, buf)
      else some (⟨t, pullup buf ps, ps⟩, buf.drop ps)

/-- What a read of the pipe gives: bytes (none at its end), nothing yet, or an error. -/
inductive PipeRead where
  | bytes (b : Bytes)
  | again
  | failed (err : Nat)
  deriving DecidableEq, Repr

/-- The receiving side of a channel: what has been read and not parsed, whether the event is there that
    calls `channel_cmd_read`, the calls of `parse_cmd` and the errors logged so far, and whether the last
    of these calls has ended the process or thrown. -/
structure Channel where
  rcmdBuf : Bytes
  rcmdEv : Bool
  calls : List ParseCall
  errors : List Nat
  left : Bool
  deriving DecidableEq, Repr

/-- A channel when it is opened. -/
def openedChannel : Channel :=
  { rcmdBuf := [], rcmdEv := true, calls := [], errors := [], left := false }

section Receiving

-- whether the last call of `parse_cmd` returns, given all calls so far
variable (returns : List ParseCall → Bool)

/-- The inner loop of `channel_cmd_read`. The header is drained before the call, the payload after it. -/
def parseCmds : Nat → Channel → Channel
  | 0, chan => chan
  | fuel + 1, chan =>
    match nextCmd chan.rcmdBuf with
    | none => chan
    | some (call, rest) =>
      let chan := { chan with calls := chan.calls ++ [call] }
      if returns chan.calls then parseCmds fuel { chan with rcmdBuf := rest }
      else { chan with rcmdBuf := chan.rcmdBuf.drop cmdHeaderSize, left := true }

/-- `l > 0`: the bytes go to the buffer, and the commands that are complete to `parse_cmd`. -/
def Channel.received (chan : Channel) (b : Bytes) : Channel :=
  parseCmds returns (chan.rcmdBuf ++ b).length { chan with rcmdBuf := chan.rcmdBuf ++ b }

/-- `channel_cmd_read`, with what the reads of the pipe will give: the channel after it, and the reads
    it has not made. -/
def channelCmdRead : Channel → List PipeRead → Channel × List PipeRead
  | chan, [] => (chan, [])
  | chan, .again :: reads => (chan, reads)
  | chan, .failed err :: reads => ({ chan with errors := chan.errors ++ [err] }, reads)
  | chan, .bytes [] :: reads => ({ chan with rcmdEv := false }, reads)
  | chan, .bytes (c :: b) :: reads =>
    let chan := chan.received returns (c :: b)
    if chan.left then (chan, reads) else channelCmdRead chan reads

/-- The event loop calls `channel_cmd_read` as long as the pipe is readable and the event is there. -/
def channelEvents : Nat → Channel → List PipeRead → Channel
  | 0, chan, _ => chan
  | fuel + 1, chan, reads =>
    if reads = [] ∨ chan.rcmdEv = false ∨ chan.left = true then chan
    else channelEvents fuel (channelCmdRead returns chan reads).1 (channelCmdRead returns chan reads).2

end Receiving

/-- Every call returns. -/
def always : List ParseCall → Bool := fun _ => true

/-- Whether `parse_cmd` returns in the process of a running worker without a `_stopped_cb`, given whether
    the registered parsers do. -/
def parseCmdReturns (parsers : ParseCall → Bool) (call : ParseCall) : Bool :=
  match cmdKind call.cmdId.toInt with
  -- `stop` ends with `exit(0)`
  | .close => false
  -- `read` of a command without a payload throws
  | .log => call.plen != 0
  | .user => parsers call
  | .ping | .pong | .closeApp | .unknown => true

/-- The same for the last of some calls. -/
def workerReturns (parsers : ParseCall → Bool) (calls : List ParseCall) : Bool :=
  calls.getLast?.all (parseCmdReturns parsers)

/-- The bytes a read delivers. -/
def PipeRead.data : PipeRead → Bytes
  | .bytes b => b
  | .again => []
  | .failed _ => []

/-- The bytes that were read. -/
def delivered (reads : List PipeRead) : Bytes := reads.flatMap PipeRead.data

/-- The reads of a pipe that is open: the ones that deliver something deliver 1 to 4096 bytes. -/
def OpenReads (reads : List PipeRead) : Prop :=
  ∀ b, PipeRead.bytes b ∈ reads → 1 ≤ b.length ∧ b.length ≤ 4096

/-- A read of an open pipe. -/
def PipeRead.fromOpen : PipeRead → Bool
  | .bytes b => 1 ≤ b.length && b.length ≤ 4096
  | .again => true
  | .failed _ => true

theorem openReads_of_all {reads : List PipeRead} (h : reads.all PipeRead.fromOpen = true) :
    OpenReads reads := by
  intro b hb
  have hread := List.all_eq_true.1 h _ hb
  simpa [PipeRead.fromOpen] using hread

/-- The call of `parse_cmd` for a command. -/
def Command.call (c : Command) : ParseCall where
  cmdId := c.id
  p := if c.payload = [] then none else some c.payload
  plen := c.payload.length

/-! ## One command -/

section Framing

variable (c : Command)

theorem Command.length_encode : c.encode.length = cmdHeaderSize + c.payload.length := by
  rw [Command.encode, List.length_append, List.length_append, length_leBytes, length_leBytes]
  rfl

/-- Every round of the loop takes the header of a command off the buffer at least. -/
theorem nextCmd_shorter (b : Bytes) (call : ParseCall) (r : Bytes) (h : nextCmd b = some (call, r)) :
    r.length < b.length := by
  unfold nextCmd at h
  simp only at h
  split_ifs at h with hhead hbody hps
  · cases h
    simp only [List.length_drop, cmdHeaderSize] at hhead ⊢
    omega
  · cases h
    simp only [List.length_drop, cmdHeaderSize] at hhead ⊢
    omega

/-- The header of a command that has come in with all of its header. -/
theorem leNat_header (r : Bytes) :
    BitVec.ofNat 32 (leNat ((leBytes 4 c.id.toNat ++ leBytes 8 c.payload.length ++ r).take 4)) = c.id ∧
      leNat (((leBytes 4 c.id.toNat ++ leBytes 8 c.payload.length ++ r).drop 4).take 8)
        = c.payload.length := by
  have hid : (leBytes 4 c.id.toNat).length = 4 := length_leBytes ..
  have hlen : (leBytes 8 c.payload.length).length = 8 := length_leBytes ..
  have hsize := c.size_lt
  rw [List.append_assoc]
  constructor
  · rw [List.take_left' hid, leNat_leBytes c.id.isLt, BitVec.ofNat_toNat, BitVec.setWidth_eq]
  · rw [List.drop_left' hid, List.take_left' hlen]
    exact leNat_leBytes (by omega)

/-- A command that is complete is handed over as it was sent. -/
theorem nextCmd_encode (r : Bytes) : nextCmd (c.encode ++ r) = some (c.call, r) := by
  have hsize := c.size_lt
  obtain ⟨hid, hps⟩ := leNat_header c (c.payload ++ r)
  rw [← List.append_assoc] at hid hps
  have hdrop : (c.encode ++ r).drop cmdHeaderSize = c.payload ++ r := by
    rw [Command.encode, List.append_assoc]
    exact List.drop_left' (by rw [List.length_append, length_leBytes, length_leBytes]; rfl)
  have hlen : (c.encode ++ r).length = cmdHeaderSize + c.payload.length + r.length := by
    rw [List.length_append, Command.length_encode]
  have hmod : (cmdHeaderSize + c.payload.length) % 2 ^ 64 = cmdHeaderSize + c.payload.length :=
    Nat.mod_eq_of_lt (by rw [cmdHeaderSize]; omega)
  unfold nextCmd
  simp only
  rw [if_neg (by rw [hlen]; omega), hdrop]
  rw [← Command.encode] at hid hps
  rw [hid, hps, hmod, if_neg (by rw [hlen]; omega)]
  unfold Command.call
  split
  · next hzero =>
    have hnil := List.length_eq_zero_iff.1 hzero
    rw [if_pos hnil, hnil, List.nil_append]
  · next hzero =>
    have hne : c.payload ≠ [] := fun h => hzero (List.length_eq_zero_iff.2 h)
    have hpull : pullup (c.payload ++ r) c.payload.length = some c.payload := by
      unfold pullup
      simp only
      rw [if_pos hsize, if_neg, List.take_left' rfl]
      rw [List.length_append]
      omega
    rw [if_neg hne, hpull, List.drop_left' rfl]

/-- A command that is not complete stays in the buffer. -/
theorem nextCmd_partial (b : Bytes) (hb : b <+: c.encode) (hne : b ≠ c.encode) : nextCmd b = none := by
  have hsize := c.size_lt
  have hlt : b.length < cmdHeaderSize + c.payload.length := by
    rw [← Command.length_encode]
    exact Nat.lt_of_le_of_ne hb.length_le fun h => hne (hb.eq_of_length h)
  unfold nextCmd
  simp only
  by_cases hhead : b.length < cmdHeaderSize
  · rw [if_pos hhead]
  · -- the header is there, and it announces more than there is
    obtain ⟨r, rfl⟩ : leBytes 4 c.id.toNat ++ leBytes 8 c.payload.length <+: b := by
      refine List.prefix_of_prefix_length_le (List.prefix_append _ c.payload) hb ?_
      rw [List.length_append, length_leBytes, length_leBytes]
      exact Nat.le_of_not_lt hhead
    rw [if_neg hhead, (leNat_header c r).2, Nat.mod_eq_of_lt (by rw [cmdHeaderSize]; omega), if_pos hlt]

end Framing

/-- The two ends of a channel agree on how a command is written. -/
def cmdFraming : Framing Command UInt8 ParseCall where
  enc := Command.encode
  out := Command.call
  cut := nextCmd
  cut_shorter := nextCmd_shorter
  cut_enc := nextCmd_encode
  cut_partial := nextCmd_partial

/-! ## Calls that do not return -/

section Returns

/-- If every call returns, the inner loop cuts off what is complete. -/
theorem parseCmds_always (fuel : Nat) (chan : Channel) :
    parseCmds always fuel chan = { chan with
      rcmdBuf := (cutAll nextCmd fuel chan.rcmdBuf).2
      calls := chan.calls ++ (cutAll nextCmd fuel chan.rcmdBuf).1 } := by
  induction fuel generalizing chan with
  | zero => simp [parseCmds, cutAll]
  | succ fuel ih =>
    rw [parseCmds, cutAll]
    cases nextCmd chan.rcmdBuf with
    | none => simp
    | some p => simp [always, ih]

theorem received_always (chan : Channel) (b : Bytes) : chan.received always b = { chan with
    rcmdBuf := (cutAll nextCmd (chan.rcmdBuf ++ b).length (chan.rcmdBuf ++ b)).2
    calls := chan.calls ++ (cutAll nextCmd (chan.rcmdBuf ++ b).length (chan.rcmdBuf ++ b)).1 } :=
  parseCmds_always ..

theorem calls_parseCmds (fuel : Nat) (chan : Channel) :
    chan.calls <+: (parseCmds always fuel chan).calls := by
  rw [parseCmds_always]
  exact List.prefix_append _ _

theorem calls_channelCmdRead (reads : List PipeRead) (chan : Channel) :
    chan.calls <+: (channelCmdRead always chan reads).1.calls := by
  induction reads generalizing chan with
  | nil => exact List.prefix_rfl
  | cons r reads ih =>
    match r with
    | .again => exact List.prefix_rfl
    | .failed err => exact List.prefix_rfl
    | .bytes [] => exact List.prefix_rfl
    | .bytes (c :: b) =>
      rw [channelCmdRead]
      have hnow : chan.calls <+: (chan.received always (c :: b)).calls := by
        rw [received_always]
        exact List.prefix_append _ _
      split
      · exact hnow
      · exact hnow.trans (ih _)

theorem calls_channelEvents (fuel : Nat) (reads : List PipeRead) (chan : Channel) :
    chan.calls <+: (channelEvents always fuel chan reads).calls := by
  induction fuel generalizing reads chan with
  | zero => exact List.prefix_rfl
  | succ fuel ih =>
    rw [channelEvents]
    split
    · exact List.prefix_rfl
    · exact (calls_channelCmdRead reads chan).trans (ih _ _)

variable (returns : List ParseCall → Bool)

/-- `chan` has come as far as `chan'`, whose calls all return, or up to a call that does not. -/
structure Channel.Follows (chan chan' : Channel) : Prop where
  calls : chan.calls <+: chan'.calls
  same : chan.left = false → chan = chan'
  last : chan.left = true → chan.calls ≠ [] ∧ returns chan.calls = false
  returned : ∀ made, made <+: chan.calls → made ≠ [] →
    returns made = true ∨ made = chan.calls ∧ chan.left = true

theorem follows_opened : openedChannel.Follows returns openedChannel where
  calls := List.prefix_rfl
  same _ := rfl
  last h := absurd h Bool.false_ne_true
  returned _ hmade hne := absurd (List.prefix_nil.1 hmade) hne

variable {returns}

/-- A channel that has left the loop stays behind. -/
theorem Channel.Follows.later {chan chan' chan'' : Channel} (h : chan.Follows returns chan')
    (hleft : chan.left = true) (hgrows : chan'.calls <+: chan''.calls) :
    chan.Follows returns chan'' where
  calls := h.calls.trans hgrows
  same hstays := absurd (hleft.symm.trans hstays) (by simp)
  last := h.last
  returned := h.returned

theorem parseCmds_follows (fuel : Nat) {chan : Channel} (h : chan.Follows returns chan)
    (hleft : chan.left = false) :
    (parseCmds returns fuel chan).Follows returns (parseCmds always fuel chan) := by
  induction fuel generalizing chan with
  | zero => exact h
  | succ fuel ih =>
    have hreturned : ∀ made, made <+: chan.calls → made ≠ [] → returns made = true := by
      intro made hmade hne
      refine (h.returned made hmade hne).resolve_right ?_
      rw [hleft]
      simp
    rw [parseCmds, parseCmds]
    cases nextCmd chan.rcmdBuf with
    | none => exact h
    | some p =>
      obtain ⟨call, rest⟩ := p
      simp only [always, if_true]
      by_cases hret : returns (chan.calls ++ [call]) = true
      · rw [if_pos hret]
        refine ih ⟨List.prefix_rfl, fun _ => rfl, fun hl => ?_, ?_⟩ hleft
        · rw [hleft] at hl
          cases hl
        · intro made hmade hne
          rcases List.prefix_concat_iff.1 hmade with rfl | hearlier
          · exact .inl hret
          · exact .inl (hreturned made hearlier hne)
      · rw [if_neg hret]
        refine ⟨calls_parseCmds fuel { chan with rcmdBuf := rest, calls := chan.calls ++ [call] },
          fun hl => ?_, fun _ => ⟨by simp, by simpa using hret⟩, ?_⟩
        · cases hl
        · intro made hmade hne
          rcases List.prefix_concat_iff.1 hmade with rfl | hearlier
          · exact .inr ⟨rfl, rfl⟩
          · exact .inl (hreturned made hearlier hne)

theorem received_follows {chan : Channel} (h : chan.Follows returns chan) (hleft : chan.left = false)
    (b : Bytes) : (chan.received returns b).Follows returns (chan.received always b) :=
  parseCmds_follows _ ⟨List.prefix_rfl, fun _ => rfl, h.last, h.returned⟩ hleft

theorem channelCmdRead_follows (reads : List PipeRead) {chan : Channel}
    (h : chan.Follows returns chan) (hleft : chan.left = false) :
    (channelCmdRead returns chan reads).1.Follows returns (channelCmdRead always chan reads).1 ∧
      ((channelCmdRead returns chan reads).1.left = false →
        (channelCmdRead returns chan reads).2 = (channelCmdRead always chan reads).2) := by
  induction reads generalizing chan with
  | nil => exact ⟨h, fun _ => rfl⟩
  | cons r reads ih =>
    match r with
    | .again => exact ⟨h, fun _ => rfl⟩
    | .failed err => exact ⟨⟨h.calls, fun _ => rfl, h.last, h.returned⟩, fun _ => rfl⟩
    | .bytes [] => exact ⟨⟨h.calls, fun _ => rfl, h.last, h.returned⟩, fun _ => rfl⟩
    | .bytes (c :: b) =>
      have hnow := received_follows h hleft (c :: b)
      have hstays : (chan.received always (c :: b)).left = false := by
        rw [received_always]
        exact hleft
      rw [channelCmdRead, channelCmdRead]
      cases hl : (chan.received returns (c :: b)).left with
      | false =>
        have hsame := hnow.same hl
        rw [hsame] at hnow
        rw [hsame, hstays]
        exact ih hnow hstays
      | true =>
        simp only [hstays, Bool.false_eq_true, if_true, if_false]
        refine ⟨hnow.later hl (calls_channelCmdRead ..), fun hback => ?_⟩
        rw [hl] at hback
        cases hback

/-- **The channel does what it would do if every call returned, up to the first that does not.** -/
theorem channelEvents_follows (fuel : Nat) (reads : List PipeRead) {chan : Channel}
    (h : chan.Follows returns chan) (hleft : chan.left = false) :
    (channelEvents returns fuel chan reads).Follows returns (channelEvents always fuel chan reads) := by
  induction fuel generalizing reads chan with
  | zero => exact h
  | succ fuel ih =>
    rw [channelEvents, channelEvents]
    split
    · exact h
    · obtain ⟨hnow, hreads⟩ := channelCmdRead_follows reads h hleft
      cases hl : (channelCmdRead returns chan reads).1.left with
      | false =>
        have hsame := hnow.same hl
        rw [hsame] at hnow hl
        rw [hsame, hreads (by rw [hsame]; exact hl)]
        exact ih _ hnow hl
      | true =>
        have hstop : channelEvents returns fuel (channelCmdRead returns chan reads).1
            (channelCmdRead returns chan reads).2 = (channelCmdRead returns chan reads).1 := by
          cases fuel with
          | zero => rfl
          | succ fuel =>
            rw [channelEvents]
            exact if_pos (.inr (.inr hl))
        rw [hstop]
        exact hnow.later hl (calls_channelEvents ..)

/-- The inner loop ends because no command is complete, whatever the buffer holds. -/
theorem nextCmd_received {chan : Channel} (h : chan.Follows returns chan) (hleft : chan.left = false)
    (b : Bytes) (hstays : (chan.received returns b).left = false) :
    nextCmd (chan.received returns b).rcmdBuf = none := by
  rw [(received_follows h hleft b).same hstays, received_always]
  show cmdFraming.cut (cutAll cmdFraming.cut _ (chan.rcmdBuf ++ b)).2 = none
  exact Framing.cut_cutAll _ _ (Nat.le_refl _)

end Returns

/-! ## Runs -/

section Runs

variable {cmds : List Command}

/-- The channel has parsed the commands that end in `D`, the beginning of what was sent, and keeps the
    part of the next one. -/
def Channel.Reads (cmds : List Command) (D : Bytes) (chan : Channel) : Prop :=
  cmdFraming.Fed cmds D chan.calls chan.rcmdBuf ∧ chan.rcmdEv = true ∧ chan.left = false

theorem OpenReads.tail {r : PipeRead} {reads : List PipeRead} (h : OpenReads (r :: reads)) :
    OpenReads reads :=
  fun b hb => h b (List.mem_cons_of_mem _ hb)

theorem delivered_cons (r : PipeRead) (reads : List PipeRead) :
    delivered (r :: reads) = r.data ++ delivered reads :=
  List.flatMap_cons ..

theorem received_reads {D : Bytes} {chan : Channel} (h : chan.Reads cmds D) (b : Bytes)
    (hD : D ++ b <+: cmdFraming.encAll cmds) : (chan.received always b).Reads cmds (D ++ b) := by
  rw [received_always]
  exact ⟨h.1.feed b hD (Nat.le_refl _), h.2⟩

/-- One call of `channel_cmd_read`. It makes one read at least. -/
theorem channelCmdRead_reads (reads : List PipeRead) (hopen : OpenReads reads) {D : Bytes}
    {chan : Channel} (h : chan.Reads cmds D)
    (hD : D ++ delivered reads <+: cmdFraming.encAll cmds) :
    ∃ D', (channelCmdRead always chan reads).1.Reads cmds D' ∧
      D ++ delivered reads = D' ++ delivered (channelCmdRead always chan reads).2 ∧
      OpenReads (channelCmdRead always chan reads).2 ∧
      (channelCmdRead always chan reads).2.length ≤ reads.length - 1 := by
  induction reads generalizing D chan with
  | nil => exact ⟨D, h, rfl, hopen, Nat.le_refl _⟩
  | cons r reads ih =>
    match r with
    | .again => exact ⟨D, h, rfl, hopen.tail, Nat.le_refl _⟩
    | .failed err => exact ⟨D, h, rfl, hopen.tail, Nat.le_refl _⟩
    | .bytes [] =>
      have hpos := (hopen [] (List.mem_cons_self ..)).1
      exact absurd hpos (Nat.not_lt_zero 0)
    | .bytes (c :: b) =>
      rw [delivered_cons, ← List.append_assoc] at hD
      have hnow := received_reads h (c :: b) ((List.prefix_append _ _).trans hD)
      obtain ⟨D', hreads, hdata, hopen', hlen⟩ := ih hopen.tail hnow hD
      have hread : channelCmdRead always chan (.bytes (c :: b) :: reads)
          = channelCmdRead always (chan.received always (c :: b)) reads := by
        rw [channelCmdRead]
        simp only [hnow.2.2, Bool.false_eq_true, if_false]
      rw [hread]
      refine ⟨D', hreads, ?_, hopen', ?_⟩
      · rw [delivered_cons, ← List.append_assoc]
        exact hdata
      · exact Nat.le_trans hlen (Nat.sub_le _ _)

/-- **However the bytes come in, the channel has parsed the commands that end in them.** -/
theorem channelEvents_reads (fuel : Nat) (reads : List PipeRead) (hopen : OpenReads reads) {D : Bytes}
    {chan : Channel} (h : chan.Reads cmds D) (hD : D ++ delivered reads <+: cmdFraming.encAll cmds)
    (hfuel : reads.length ≤ fuel) :
    (channelEvents always fuel chan reads).Reads cmds (D ++ delivered reads) := by
  induction fuel generalizing reads D chan with
  | zero =>
    have hnil := List.length_eq_zero_iff.1 (Nat.le_zero.1 hfuel)
    subst hnil
    rw [delivered, List.flatMap_nil, List.append_nil]
    exact h
  | succ fuel ih =>
    rw [channelEvents]
    split
    · next hstop =>
      rcases hstop with hnil | hev | hleft
      · subst hnil
        rw [delivered, List.flatMap_nil, List.append_nil]
        exact h
      · rw [h.2.1] at hev
        cases hev
      · rw [h.2.2] at hleft
        cases hleft
    · obtain ⟨D', hreads, hdata, hopen', hlen⟩ := channelCmdRead_reads reads hopen h hD
      rw [hdata] at hD ⊢
      exact ih _ hopen' hreads hD (by omega)

theorem opened_reads (cmds : List Command) : openedChannel.Reads cmds [] :=
  ⟨Framing.Fed.nil cmds, rfl, rfl⟩

/-- Calls without a write error send their commands. -/
theorem written_ok {calls : List SendCall} (hok : ∀ call ∈ calls, (sendcmd call).1 ≠ -1) :
    written calls = cmdFraming.encAll (calls.map SendCall.cmd) := by
  induction calls with
  | nil => rfl
  | cons call calls ih =>
    have hsent : (sendcmd call).2 = call.cmd.encode := by
      obtain ⟨-, -, h⟩ | ⟨-, h, -⟩ := sendcmd_cases call
      · exact h
      · exact absurd h (hok call (List.mem_cons_self ..))
    rw [List.map_cons, Framing.encAll_cons, ← ih fun x hx => hok x (List.mem_cons_of_mem _ hx), written,
      List.flatMap_cons, hsent]
    rfl

end Runs

/-- The commands `done` have been handed to `parse_cmd` in order, each of them once, up to the first call
    that does not return. If they all do, `part` is in the buffer. -/
structure Channel.Parsed (returns : List ParseCall → Bool) (done : List Command) (part : Bytes)
    (chan : Channel) : Prop where
  calls : chan.calls <+: done.map Command.call
  all : chan.left = false → chan.calls = done.map Command.call ∧ chan.rcmdBuf = part
  last : chan.left = true → chan.calls ≠ [] ∧ returns chan.calls = false
  returned : ∀ made, made <+: chan.calls → made ≠ [] →
    returns made = true ∨ made = chan.calls ∧ chan.left = true

/-- **The commands that were sent without a write error are parsed one by one, each as soon as its last
    byte has been read, up to the first call that does not return**: of what the reads have delivered so
    far, everything up to the last byte of a command has been handed over, and the bytes of the next
    command are in the buffer. -/
theorem channel_parses_sent (returns : List ParseCall → Bool) (calls : List SendCall)
    (hok : ∀ call ∈ calls, (sendcmd call).1 ≠ -1)
    (reads : List PipeRead) (hopen : OpenReads reads) (hpipe : delivered reads <+: written calls) :
    written calls = calls.flatMap (fun call => call.cmd.encode) ∧
    ∃ done rest part, calls.map SendCall.cmd = done ++ rest ∧
      delivered reads = done.flatMap Command.encode ++ part ∧
      (channelEvents returns reads.length openedChannel reads).Parsed returns done part ∧
      (delivered reads = written calls → rest = []) ∧ (rest = [] → part = []) ∧
      ∀ c rest', rest = c :: rest' → part <+: c.encode ∧ part ≠ c.encode := by
  have hsent : written calls = (calls.map SendCall.cmd).flatMap Command.encode := written_ok hok
  refine ⟨hsent.trans (List.flatMap_map ..), ?_⟩
  rw [written_ok hok] at hpipe
  have hreads := channelEvents_reads reads.length reads hopen (opened_reads (calls.map SendCall.cmd))
    hpipe (Nat.le_refl _)
  generalize hchan : channelEvents always reads.length openedChannel reads = chan at hreads
  obtain ⟨done, rest, hcmds, hcalls, hdata, hnone, hpart⟩ := hreads.1.next hpipe
  have hfollows := channelEvents_follows reads.length reads (follows_opened returns) rfl
  rw [hchan] at hfollows
  refine ⟨done, rest, _, hcmds, hdata, ?_, fun hall => ?_, hnone, hpart⟩
  · exact
      { calls := hcalls ▸ hfollows.calls
        all := fun hstays => by rw [hfollows.same hstays]; exact ⟨hcalls, rfl⟩
        last := hfollows.last
        returned := hfollows.returned }
  · -- all bytes are there, so no part of a command is left
    cases rest with
    | nil => rfl
    | cons c rest =>
      obtain ⟨hpre, hne⟩ := hpart c rest rfl
      rw [hsent, hcmds, List.flatMap_append] at hall
      have hbuf := List.append_cancel_left (hdata.symm.trans hall)
      rw [List.flatMap_cons] at hbuf
      have hlen := congrArg List.length hbuf
      rw [List.length_append] at hlen
      have hlong : (cmdFraming.enc c).length ≤ chan.rcmdBuf.length := by
        rw [hlen]
        exact Nat.le_add_right _ _
      exact absurd (hpre.eq_of_length (Nat.le_antisymm hpre.length_le hlong)) hne

/-- A command with one byte and one with none, and room for both of them. -/
def sampleCalls : List SendCall :=
  [⟨⟨7, [1], by decide⟩, 4, 8, 1⟩, ⟨⟨8, [], by decide⟩, 4, 8, 0⟩]

/-- The first read ends in the second header. -/
theorem channel_parses_sample :
    let returns := workerReturns fun _ => true
    let reads := [.bytes ((written sampleCalls).take 15), .again]
    written sampleCalls = sampleCalls.flatMap (fun call => call.cmd.encode) ∧
    ∃ done rest part, sampleCalls.map SendCall.cmd = done ++ rest ∧
      delivered reads = done.flatMap Command.encode ++ part ∧
      (channelEvents returns 2 openedChannel reads).Parsed returns done part ∧
      (delivered reads = written sampleCalls → rest = []) ∧ (rest = [] → part = []) ∧
      ∀ c rest', rest = c :: rest' → part <+: c.encode ∧ part ≠ c.encode := by
  intro returns reads
  exact channel_parses_sent returns sampleCalls (forall_mem_of_all (by decide)) reads
    (openReads_of_all (by decide)) (by decide)

/-- A worker is told to close, and sent another command. -/
def closeFirst : List SendCall :=
  [⟨⟨3, [], by decide⟩, 4, 8, 0⟩, ⟨⟨0, [], by decide⟩, 4, 8, 0⟩]

/-- The process ends with the first of them. -/
theorem close_ends_parsing :
    ¬ ∀ (calls : List SendCall) (reads : List PipeRead), (∀ call ∈ calls, (sendcmd call).1 ≠ -1) →
      OpenReads reads → delivered reads = written calls →
      (channelEvents (workerReturns fun _ => true) reads.length openedChannel reads).calls
        = calls.map fun call => call.cmd.call := by
  intro hall
  have hcalls := hall closeFirst [.bytes (written closeFirst)] (forall_mem_of_all (by decide))
    (openReads_of_all (by decide)) (by decide)
  revert hcalls
  decide

/-! ## Write errors -/

/-- The pipe takes a byte of the call, and refuses another one. -/
def SendCall.Torn (call : SendCall) : Prop := call.idRoom ≠ 0 ∧ ¬ call.Fits

/-- The pipe takes nothing of a call that comes after one it has taken a part of. -/
def NothingAfterTorn (calls : List SendCall) : Prop :=
  calls.Pairwise fun call next => call.Torn → next.idRoom = 0

/-- The commands of the calls that did not return -1. -/
def acceptedCmds (calls : List SendCall) : List Command :=
  (calls.filter fun call => (sendcmd call).1 ≠ -1).map SendCall.cmd

section WriteErrors

theorem accepted_cons_sent {call : SendCall} {calls : List SendCall} (h : (sendcmd call).1 ≠ -1) :
    acceptedCmds (call :: calls) = call.cmd :: acceptedCmds calls := by
  rw [acceptedCmds, List.filter_cons_of_pos (by simpa using h), List.map_cons]
  rfl

theorem accepted_cons_failed {call : SendCall} {calls : List SendCall} (h : (sendcmd call).1 = -1) :
    acceptedCmds (call :: calls) = acceptedCmds calls := by
  rw [acceptedCmds, List.filter_cons_of_neg (by simpa using h)]
  rfl

/-- Calls the pipe takes nothing of. -/
theorem written_silent {calls : List SendCall} (h : ∀ call ∈ calls, call.idRoom = 0) :
    written calls = [] ∧ acceptedCmds calls = [] := by
  induction calls with
  | nil => exact ⟨rfl, rfl⟩
  | cons call calls ih =>
    have hroom := h call (List.mem_cons_self ..)
    obtain ⟨hw, ha⟩ := ih fun x hx => h x (List.mem_cons_of_mem _ hx)
    obtain ⟨⟨hfits, -⟩, -⟩ | ⟨-, hret, hnone, -⟩ := sendcmd_cases call
    · omega
    · rw [accepted_cons_failed hret, ha, written, List.flatMap_cons, hnone hroom]
      exact ⟨hw, rfl⟩

/-- What is written, if nothing comes after a torn call: the commands that were accepted, and a part of
    one more. -/
theorem written_torn (calls : List SendCall) (h : NothingAfterTorn calls) :
    ∃ rest p, written calls = cmdFraming.encAll (acceptedCmds calls) ++ p ∧
      cmdFraming.complete p.length rest = [] ∧ p <+: cmdFraming.encAll rest := by
  induction calls with
  | nil => exact ⟨[], [], rfl, rfl, List.prefix_refl _⟩
  | cons call calls ih =>
    obtain ⟨hcall, hcalls⟩ := List.pairwise_cons.1 h
    have hwritten : written (call :: calls) = (sendcmd call).2 ++ written calls := List.flatMap_cons ..
    rw [hwritten]
    obtain ⟨-, hret, hsent⟩ | ⟨hfits, hret, hnone, hpre, hne⟩ := sendcmd_cases call
    · obtain ⟨rest, p, hw, hp⟩ := ih hcalls
      refine ⟨rest, p, ?_, hp⟩
      rw [accepted_cons_sent hret, hsent, hw, Framing.encAll_cons, List.append_assoc]
      rfl
    · rw [accepted_cons_failed hret]
      by_cases hroom : call.idRoom = 0
      · rw [hnone hroom, List.nil_append]
        exact ih hcalls
      · -- the call is torn, and there is nothing behind it
        obtain ⟨hw, ha⟩ := written_silent fun next hnext => hcall next hnext ⟨hroom, hfits⟩
        rw [hw, ha, List.append_nil]
        refine ⟨[call.cmd], (sendcmd call).2, rfl, Framing.complete_partial hpre hne, ?_⟩
        rw [Framing.encAll_cons]
        exact hpre.trans (List.prefix_append _ _)

end WriteErrors

/-- **As long as nothing is written behind a torn call, the peer finds the commands of the calls that
    did not return -1**, after every call and however the bytes come in. -/
theorem channel_parses_accepted (calls : List SendCall) (h : NothingAfterTorn calls) (k : Nat)
    (reads : List PipeRead) (hopen : OpenReads reads)
    (hpipe : delivered reads = written (calls.take k)) :
    (channelEvents always reads.length openedChannel reads).calls
      = (acceptedCmds (calls.take k)).map Command.call := by
  obtain ⟨rest, p, hw, hnone, hpre⟩ :=
    written_torn (calls.take k) (h.sublist (List.take_sublist k calls))
  rw [hw] at hpipe
  have hstream : [] ++ delivered reads <+: cmdFraming.encAll (acceptedCmds (calls.take k) ++ rest) := by
    rw [List.nil_append, hpipe, Framing.encAll_append]
    exact (List.prefix_append_right_inj _).2 hpre
  have hreads := channelEvents_reads reads.length reads hopen (opened_reads _) hstream (Nat.le_refl _)
  rw [List.nil_append, hpipe] at hreads
  exact (hreads.1.found_of_unfinished hnone).1

/-- A command that is sent, one that the pipe refuses at once, and one that is torn. -/
def tornLast : List SendCall :=
  [⟨⟨7, [1], by decide⟩, 4, 8, 1⟩, ⟨⟨8, [], by decide⟩, 0, 0, 0⟩, ⟨⟨9, [2, 3], by decide⟩, 4, 8, 1⟩]

theorem channel_parses_tornLast :
    (channelEvents always 1 openedChannel [.bytes (written tornLast)]).calls
      = (acceptedCmds tornLast).map Command.call := by
  refine channel_parses_accepted tornLast ?_ 3 [.bytes (written tornLast)]
    (openReads_of_all (by decide)) (by decide)
  simp [NothingAfterTorn, tornLast, SendCall.Torn, SendCall.Fits]

/-- A call is torn after its identifier, and the next one is sent. -/
def tornFirst : List SendCall :=
  [⟨⟨7, [], by decide⟩, 4, 0, 0⟩, ⟨⟨8, [], by decide⟩, 4, 8, 0⟩]

/-- The length that the peer sees is the identifier of the second command, and it waits for the
    payload. -/
theorem torn_misframes :
    ¬ ∀ (calls : List SendCall) (reads : List PipeRead), OpenReads reads →
      delivered reads = written calls →
      (channelEvents always reads.length openedChannel reads).calls
        = (acceptedCmds calls).map Command.call := by
  intro hall
  have hcalls := hall tornFirst [.bytes (written tornFirst)] (openReads_of_all (by decide)) (by decide)
  revert hcalls
  decide

end LibEvmvc
