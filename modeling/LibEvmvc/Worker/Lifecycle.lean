import Mathlib.Logic.Function.Iterate
import LibEvmvc.Foundation.Modify
import LibEvmvc.Foundation.Runs
import LibEvmvc.Worker.Channel

set_option autoImplicit false

/-! # Stopping the workers

The master keeps an object for each worker, the worker's process one of its own, and commands go both
ways through two pipes (`worker_t`, `app_t`). A worker does not stop by itself: an interrupt makes it
ask the master, whose event loop then ends and whose `stop` tells every worker to close.

A worker that closes gives its channel away first and then calls back, and ends its process when the
callback has come back. Whatever uses the channel in between has none. -/

namespace LibEvmvc

/-- `running_state` -/
inductive RunningState where
  | stopped
  | starting
  | running
  | stopping
  deriving DecidableEq, Repr

/-- A worker, seen from both sides. -/
structure WorkerPair where
  /-- `_status` in the master -/
  status : RunningState
  /-- The master has its `_channel`, and its ends of the pipes are open. -/
  channel : Bool
  /-- `_status` in the process of the worker -/
  childStatus : RunningState
  /-- The process of the worker has its `_channel`. -/
  childChannel : Bool
  exited : Bool
  /-- It has used a channel that it had released. -/
  crashed : Bool
  ptoc : List Int
  ctop : List Int
  /-- All that the master has sent to it. -/
  sent : List Int
  /-- The master has used a channel that it had released; what it does then is of no account. -/
  misused : Bool
  deriving DecidableEq, Repr

namespace WorkerPair

/-- A worker that was started. -/
def started : WorkerPair := ⟨.running, true, .running, true, false, false, [], [], [], false⟩

/-! ## The process of a worker

`ok` says if the pipe takes what is sent, and for a log entry also if it is logged at all. -/

/-- `_channel->sendcmd` -/
def childSend (w : WorkerPair) (id : Int) (ok : Bool) : WorkerPair :=
  if w.childChannel = false then { w with exited := true, crashed := true }
  else if ok ∧ w.channel then { w with ctop := w.ctop ++ [id] }
  else w

/-- `worker_t::stop` in a worker. It throws when it is stopped or stopping. `stoppedCb` says if the
    program has given a callback; without one the process ends here. -/
def childStop (stoppedCb : Bool) (w : WorkerPair) (ok : Bool) : WorkerPair :=
  if w.childStatus = .stopped ∨ w.childStatus = .stopping then w
  else
    let w := { w with childStatus := .stopping }
    let w := w.childSend cmdLog ok
    let w := { w with childChannel := false }
    if stoppedCb then w else { w with exited := true }

/-- `parse_cmd` in a worker. Commands of the program go to its parsers; none is warned about, since the
    app was not running yet when the process was forked. -/
def childParse (stoppedCb : Bool) (w : WorkerPair) (id : Int) (ok : Bool) : WorkerPair :=
  match cmdKind id with
  | .ping => w.childSend cmdPong ok
  | .pong => w
  | .close => if w.childStatus = .running then w.childStop stoppedCb ok else w
  | .closeApp => w
  | .log => w.childSend cmdLog ok
  | .unknown => w.childSend cmdLog ok
  | .user => w

/-- The worker reads a command. -/
def childRead (stoppedCb : Bool) (ok : Bool) (w : WorkerPair) : WorkerPair :=
  match w.exited, w.ptoc with
  | false, id :: rest => { w with ptoc := rest }.childParse stoppedCb id ok
  | _, _ => w

/-- `sig_received` with `SIGINT`: `close_service` -/
def interrupt (ok : Bool) (w : WorkerPair) : WorkerPair :=
  if w.exited = false ∧ w.childStatus = .running then w.childSend cmdCloseApp ok else w

/-- The callback of a stop comes back. -/
def childExit (w : WorkerPair) : WorkerPair :=
  if w.childStatus = .stopping then { w with exited := true } else w

/-- What a process does as long as there is one. -/
def whileThere (f : WorkerPair → WorkerPair) (w : WorkerPair) : WorkerPair := if w.exited then w else f w

/-! ## The master -/

/-- `_channel->sendcmd` -/
def masterSend (w : WorkerPair) (id : Int) (ok : Bool) : WorkerPair :=
  if w.channel = false then { w with misused := true }
  else if ok then { w with ptoc := w.ptoc ++ [id], sent := w.sent ++ [id] }
  else w

/-- `close_channels`, which releases the channel -/
def closeChannels (w : WorkerPair) : WorkerPair :=
  if w.channel = false then { w with misused := true } else { w with channel := false, ctop := [] }

/-- A command of the worker is read. -/
def popCtop (w : WorkerPair) : WorkerPair := { w with ctop := w.ctop.tail }

/-- `worker_t::stop` in the master. It throws when the worker is stopped or stopping, and does not look
    at what `sendcmd` returns. -/
def masterStop (force ok : Bool) (w : WorkerPair) : WorkerPair :=
  if w.status = .stopped ∨ w.status = .stopping then w
  else if force then { w.closeChannels with status := .stopped }
  else { w.masterSend cmdClose ok with status := .stopped }

end WorkerPair

/-- The app of the master. `asked` says that its event loop was told to end, `cleared` that it has given
    its workers away. -/
structure AppState where
  status : RunningState
  asked : Bool
  cleared : Bool
  workers : List WorkerPair
  deriving DecidableEq, Repr

inductive LifeAct where
  | interrupt (i : Nat) (ok : Bool)
  /-- The program in a worker calls `app_t::stop`. -/
  | childStopsApp (i : Nat) (ok : Bool)
  /-- The callback of its start has failed. -/
  | childStops (i : Nat) (ok : Bool)
  | childSends (i : Nat) (id : Int) (ok : Bool)
  | childExits (i : Nat)
  /-- The process is killed. -/
  | childDies (i : Nat)
  | childReads (i : Nat) (ok : Bool)
  | masterReads (i : Nat) (ok : Bool)
  | masterSends (i : Nat) (id : Int) (ok : Bool)
  | stopWorker (i : Nat) (force ok : Bool)
  /-- `app_t::stop` up to its wait. `failed` are the workers whose pipes do not take the command. -/
  | stopApp (failed : List Nat)
  /-- The rest of `app_t::stop`. -/
  | endStop
  deriving DecidableEq, Repr

namespace AppState

def started (n : Nat) : AppState := ⟨.running, false, false, List.replicate n WorkerPair.started⟩

def onWorker (s : AppState) (i : Nat) (f : WorkerPair → WorkerPair) : AppState :=
  { s with workers := s.workers.modify i f }

/-- `parse_cmd` in the master, for a command that a worker has sent. -/
def masterParse (s : AppState) (i : Nat) (id : Int) (ok : Bool) : AppState :=
  match cmdKind id with
  | .ping => s.onWorker i fun w => w.masterSend cmdPong ok
  | .close => s.onWorker i fun w => { w with status := .stopped }
  | .closeApp => { s with asked := true }
  | _ => s

/-- The master reads a command of a worker. -/
def masterRead (s : AppState) (i : Nat) (ok : Bool) : AppState :=
  match s.workers[i]? with
  | some w =>
    match w.channel, w.ctop with
    | true, id :: _ => (s.onWorker i WorkerPair.popCtop).masterParse i id ok
    | _, _ => s
  | none => s

/-- `app_t::stop`: the workers that run are told to close. -/
def stopApp (s : AppState) (failed : List Nat) : AppState :=
  { s with
    status := .stopping
    workers := s.workers.mapIdx fun i w =>
      if s.cleared = false ∧ w.status = .running then w.masterStop false (!failed.contains i) else w }

/-- The rest of `app_t::stop`: the channels are closed, and the list of the workers is cleared. -/
def endStop (s : AppState) : AppState :=
  if s.status = .stopping then
    { s with
      status := .stopped
      cleared := true
      workers := s.workers.map fun w => if s.cleared then w else w.closeChannels }
  else s

def step (stoppedCb : Bool) (s : AppState) : LifeAct → AppState
  | .interrupt i ok => s.onWorker i (WorkerPair.interrupt ok)
  | .childStopsApp i ok => s.onWorker i (WorkerPair.whileThere fun w => w.childSend cmdCloseApp ok)
  | .childStops i ok => s.onWorker i (WorkerPair.whileThere fun w => w.childStop stoppedCb ok)
  | .childSends i id ok => s.onWorker i (WorkerPair.whileThere fun w => w.childSend id ok)
  | .childExits i => s.onWorker i WorkerPair.childExit
  | .childDies i => s.onWorker i fun w => { w with exited := true }
  | .childReads i ok => s.onWorker i (WorkerPair.childRead stoppedCb ok)
  | .masterReads i ok => s.masterRead i ok
  | .masterSends i id ok => s.onWorker i fun w => w.masterSend id ok
  | .stopWorker i force ok => s.onWorker i (WorkerPair.masterStop force ok)
  | .stopApp failed => s.stopApp failed
  | .endStop => s.endStop

def run (stoppedCb : Bool) (s : AppState) (as : List LifeAct) : AppState := as.foldl (step stoppedCb) s

end AppState

/-! ## What each operation does to a worker -/

namespace WorkerPair

variable {w : WorkerPair}

section

variable (w : WorkerPair) (id : Int) (ok : Bool)

@[simp] theorem ptoc_childSend : (w.childSend id ok).ptoc = w.ptoc := by
  unfold childSend
  split_ifs <;> rfl

@[simp] theorem status_childSend : (w.childSend id ok).status = w.status := by
  unfold childSend
  split_ifs <;> rfl

@[simp] theorem channel_childSend : (w.childSend id ok).channel = w.channel := by
  unfold childSend
  split_ifs <;> rfl

@[simp] theorem sent_childSend : (w.childSend id ok).sent = w.sent := by
  unfold childSend
  split_ifs <;> rfl

@[simp] theorem childStatus_childSend : (w.childSend id ok).childStatus = w.childStatus := by
  unfold childSend
  split_ifs <;> rfl

@[simp] theorem childChannel_childSend : (w.childSend id ok).childChannel = w.childChannel := by
  unfold childSend
  split_ifs <;> rfl

end

theorem childSend_eq (h : w.childChannel = true) (id : Int) (ok : Bool) :
    w.childSend id ok = if ok ∧ w.channel then { w with ctop := w.ctop ++ [id] } else w :=
  if_neg (by simp [h])

theorem mem_ctop_childSend {id id' : Int} {ok : Bool} (h : id' ∈ (w.childSend id ok).ctop) :
    id' ∈ w.ctop ∨ id' = id := by
  unfold childSend at h
  split_ifs at h
  · exact .inl h
  · simpa using h
  · exact .inl h

theorem cmdKind_eq_close {id : Int} (h : cmdKind id = .close) : id = cmdClose := by
  unfold cmdKind at h
  split_ifs at h
  assumption

/-- What `stop` does to a worker that runs. -/
theorem childStop_running (h : w.childStatus = .running) (stoppedCb ok : Bool) :
    (w.childStop stoppedCb ok).ptoc = w.ptoc ∧ (w.childStop stoppedCb ok).sent = w.sent ∧
      (w.childStop stoppedCb ok).status = w.status ∧
      (w.childStop stoppedCb ok).channel = w.channel ∧
      (w.childStop stoppedCb ok).childStatus = .stopping ∧
      (w.childStop stoppedCb ok).childChannel = false ∧
      ∀ id ∈ (w.childStop stoppedCb ok).ctop, id ∈ w.ctop ∨ id = cmdLog := by
  have hctop (id : Int)
      (hid : id ∈ (({ w with childStatus := .stopping } : WorkerPair).childSend cmdLog ok).ctop) :
      id ∈ w.ctop ∨ id = cmdLog := mem_ctop_childSend (w := { w with childStatus := .stopping }) hid
  unfold childStop
  rw [if_neg (by simp [h])]
  cases stoppedCb <;> simpa using hctop

/-- Any other command leaves the status of a worker as it is. -/
theorem childParse_other {id : Int} (h : id ≠ cmdClose) (stoppedCb ok : Bool) :
    (w.childParse stoppedCb id ok).ptoc = w.ptoc ∧ (w.childParse stoppedCb id ok).sent = w.sent ∧
      (w.childParse stoppedCb id ok).status = w.status ∧
      (w.childParse stoppedCb id ok).channel = w.channel ∧
      (w.childParse stoppedCb id ok).childStatus = w.childStatus ∧
      ∀ id' ∈ (w.childParse stoppedCb id ok).ctop, id' ∈ w.ctop ∨ id' = cmdPong ∨ id' = cmdLog := by
  have hsame : ∀ id' ∈ w.ctop, id' ∈ w.ctop ∨ id' = cmdPong ∨ id' = cmdLog := fun _ => .inl
  unfold childParse
  cases hk : cmdKind id with
  | ping => simpa using fun id' hid => (mem_ctop_childSend hid).imp_right .inl
  | pong => exact ⟨rfl, rfl, rfl, rfl, rfl, hsame⟩
  | log => simpa using fun id' hid => (mem_ctop_childSend hid).imp_right .inr
  | close => exact absurd (cmdKind_eq_close hk) h
  | closeApp => exact ⟨rfl, rfl, rfl, rfl, rfl, hsame⟩
  | unknown => simpa using fun id' hid => (mem_ctop_childSend hid).imp_right .inr
  | user => exact ⟨rfl, rfl, rfl, rfl, rfl, hsame⟩

/-- What a worker does that reads: nothing, it closes, it passes over a second command to close, or it
    answers another one. -/
inductive Reads (stoppedCb ok : Bool) (w : WorkerPair) : WorkerPair → Prop where
  | nothing (h : w.exited = true ∨ w.ptoc = []) : Reads stoppedCb ok w w
  | closes {rest : List Int} (hthere : w.exited = false) (hptoc : w.ptoc = cmdClose :: rest)
      (hrunning : w.childStatus = .running) :
      Reads stoppedCb ok w (({ w with ptoc := rest } : WorkerPair).childStop stoppedCb ok)
  | passes {rest : List Int} (hthere : w.exited = false) (hptoc : w.ptoc = cmdClose :: rest)
      (hclosing : w.childStatus ≠ .running) : Reads stoppedCb ok w { w with ptoc := rest }
  | answers {id : Int} {rest : List Int} (hthere : w.exited = false) (hptoc : w.ptoc = id :: rest)
      (hid : id ≠ cmdClose) :
      Reads stoppedCb ok w (({ w with ptoc := rest } : WorkerPair).childParse stoppedCb id ok)

theorem reads_childRead (stoppedCb ok : Bool) (w : WorkerPair) :
    Reads stoppedCb ok w (w.childRead stoppedCb ok) := by
  unfold childRead
  split
  · next id rest hthere hptoc =>
    by_cases hid : id = cmdClose
    · subst hid
      by_cases hrunning : w.childStatus = .running
      · have hparse : ({ w with ptoc := rest } : WorkerPair).childParse stoppedCb cmdClose ok =
            ({ w with ptoc := rest } : WorkerPair).childStop stoppedCb ok := if_pos hrunning
        rw [hparse]
        exact .closes hthere hptoc hrunning
      · have hparse : ({ w with ptoc := rest } : WorkerPair).childParse stoppedCb cmdClose ok =
            { w with ptoc := rest } := if_neg hrunning
        rw [hparse]
        exact .passes hthere hptoc hrunning
    · exact .answers hthere hptoc hid
  · next hnot =>
    refine .nothing ?_
    cases hexited : w.exited with
    | true => exact .inl rfl
    | false =>
      cases hptoc : w.ptoc with
      | nil => exact .inr rfl
      | cons id rest => exact absurd hptoc (hnot id rest hexited)

end WorkerPair

/-! ## Who has been told to close -/

/-- No longer running. -/
def RunningState.ended (st : RunningState) : Nat := if st = .running then 0 else 1

namespace WorkerPair

variable {w w' : WorkerPair}

/-- The commands to close that are on their way, and the one that the worker has followed. -/
def told (w : WorkerPair) : Nat := w.ptoc.count cmdClose + w.childStatus.ended

/-- What an operation leaves as it is that has to do with closing. -/
structure Quiet (w w' : WorkerPair) : Prop where
  told : w'.told = w.told
  sent : w'.sent.count cmdClose = w.sent.count cmdClose
  status : w'.status = w.status
  channel : w'.channel = w.channel
  ctop : ∀ id ∈ w'.ctop, id ∈ w.ctop ∨ id ≠ cmdClose

theorem Quiet.refl (w : WorkerPair) : Quiet w w := ⟨rfl, rfl, rfl, rfl, fun _ => .inl⟩

theorem quiet_childSend {id : Int} (h : id ≠ cmdClose) (ok : Bool) : Quiet w (w.childSend id ok) where
  told := by simp [told]
  sent := by simp
  status := by simp
  channel := by simp
  ctop id' hmem := by
    rcases mem_ctop_childSend hmem with hid | rfl
    · exact .inl hid
    · exact .inr h

theorem Quiet.whileThere {f : WorkerPair → WorkerPair} (h : Quiet w (f w)) : Quiet w (w.whileThere f) := by
  unfold WorkerPair.whileThere
  split
  · exact .refl w
  · exact h

theorem quiet_interrupt (ok : Bool) : Quiet w (w.interrupt ok) := by
  unfold interrupt
  split
  · exact quiet_childSend (by decide) ok
  · exact .refl w

/-- A worker that reads follows a command to close, unless it has followed one. -/
theorem quiet_childRead (h : w.told ≤ 1) (stoppedCb ok : Bool) : Quiet w (w.childRead stoppedCb ok) := by
  have hreads := reads_childRead stoppedCb ok w
  generalize w.childRead stoppedCb ok = w' at hreads ⊢
  cases hreads with
  | nothing => exact .refl w
  | @closes rest hthere hptoc hrunning =>
    obtain ⟨hptoc', hsent, hstatus, hchannel, hchild, -, hctop⟩ :=
      childStop_running (w := { w with ptoc := rest }) hrunning stoppedCb ok
    refine ⟨?_, congrArg _ hsent, hstatus, hchannel, fun id hid => (hctop id hid).imp_right ?_⟩
    · rw [told, hptoc', hchild, told, hptoc, List.count_cons_self, hrunning]
      rfl
    · rintro rfl
      decide
  | @passes rest hthere hptoc hclosing =>
    have hended : w.childStatus.ended = 1 := if_neg hclosing
    rw [told, hptoc, List.count_cons_self, hended] at h
    omega
  | @answers id rest hthere hptoc hid =>
    obtain ⟨hptoc', hsent, hstatus, hchannel, hchild, hctop⟩ :=
      childParse_other (w := { w with ptoc := rest }) hid stoppedCb ok
    refine ⟨?_, congrArg _ hsent, hstatus, hchannel, fun id hid => (hctop id hid).imp_right ?_⟩
    · rw [told, hptoc', hchild, told, hptoc, List.count_cons_of_ne hid]
    · rintro (rfl | rfl) <;> decide

theorem quiet_masterSend {id : Int} (h : id ≠ cmdClose) (ok : Bool) : Quiet w (w.masterSend id ok) := by
  unfold masterSend
  split_ifs
  · exact ⟨rfl, rfl, rfl, rfl, fun _ => .inl⟩
  · refine ⟨?_, ?_, rfl, rfl, fun _ => .inl⟩
    · simp [told, List.count_append, h]
    · simp [List.count_append, h]
  · exact .refl w

theorem quiet_childExit : Quiet w w.childExit := by
  unfold childExit
  split
  · exact ⟨rfl, rfl, rfl, rfl, fun _ => .inl⟩
  · exact .refl w

theorem quiet_popCtop : Quiet w w.popCtop := ⟨rfl, rfl, rfl, rfl, fun _ hid => .inl (List.mem_of_mem_tail hid)⟩

theorem ended_le (st : RunningState) : st.ended ≤ 1 := by
  unfold RunningState.ended
  split <;> omega

theorem ended_eq_zero {st : RunningState} : st.ended = 0 ↔ st = .running := by
  unfold RunningState.ended
  split <;> simp [*]

theorem ended_eq_one {st : RunningState} : st.ended = 1 ↔ st ≠ .running := by
  unfold RunningState.ended
  split <;> simp [*]

/-- At most one command to close, and none for a worker that runs in the eyes of the master. -/
structure Agrees (w : WorkerPair) : Prop where
  told : w.told ≤ w.status.ended
  sent : w.sent.count cmdClose = w.told
  known : w.status = .running ∨ w.status = .stopped

theorem Agrees.quiet (h : w.Agrees) (hq : Quiet w w') : w'.Agrees := by
  refine ⟨?_, ?_, ?_⟩
  · rw [hq.told, hq.status]
    exact h.told
  · rw [hq.told, hq.sent]
    exact h.sent
  · rw [hq.status]
    exact h.known

theorem Agrees.told_le (h : w.Agrees) : w.told ≤ 1 := Nat.le_trans h.told (ended_le w.status)

/-- The master does not take it for running any more. -/
theorem Agrees.stopped (h : w.Agrees) : Agrees { w with status := .stopped } :=
  ⟨h.told_le, h.sent, .inr rfl⟩

theorem Agrees.closeChannels (h : w.Agrees) : w.closeChannels.Agrees := by
  unfold WorkerPair.closeChannels
  split
  · exact ⟨h.told, h.sent, h.known⟩
  · exact ⟨h.told, h.sent, h.known⟩

theorem masterStop_not_running (h : w.Agrees) (hnot : w.status ≠ .running) (force ok : Bool) :
    w.masterStop force ok = w := if_pos (.inl (h.known.resolve_left hnot))

/-- Whom the master takes for running it may tell. -/
theorem masterStop_running (hrunning : w.status = .running) (force ok : Bool) :
    w.masterStop force ok =
      if force then { w.closeChannels with status := .stopped }
      else { w.masterSend cmdClose ok with status := .stopped } := if_neg (by simp [hrunning])

theorem told_masterSend_close (ok : Bool) :
    (w.masterSend cmdClose ok).told = (w.told + if ok ∧ w.channel then 1 else 0) ∧
      (w.masterSend cmdClose ok).sent.count cmdClose
        = w.sent.count cmdClose + if ok ∧ w.channel then 1 else 0 := by
  unfold masterSend
  cases w.channel with
  | false => simp [told]
  | true =>
    cases ok with
    | false => simp
    | true =>
      simp only [told, List.count_append, List.count_singleton_self, Bool.true_eq_false, if_false, if_true,
        and_self, and_true]
      omega

theorem Agrees.masterStop (h : w.Agrees) (force ok : Bool) : (w.masterStop force ok).Agrees := by
  by_cases hrunning : w.status = .running
  · rw [masterStop_running hrunning]
    split
    · exact h.closeChannels.stopped
    · have hnone : w.told ≤ 0 := by simpa [hrunning, RunningState.ended] using h.told
      obtain ⟨htold, hsent⟩ := told_masterSend_close (w := w) ok
      refine ⟨?_, ?_, .inr rfl⟩
      · show (w.masterSend cmdClose ok).told ≤ 1
        rw [htold]
        split <;> omega
      · show (w.masterSend cmdClose ok).sent.count cmdClose = (w.masterSend cmdClose ok).told
        rw [htold, hsent, h.sent]
  · rwa [masterStop_not_running h hrunning]

end WorkerPair

namespace AppState

variable {s : AppState} {P : WorkerPair → Prop}

/-- What the master reads can be answered, can ask it to end, or can say that a worker has stopped. -/
theorem forall_masterRead (h : ∀ w ∈ s.workers, P w) (i : Nat) (ok : Bool)
    (hpop : ∀ w, P w → P w.popCtop) (hpong : ∀ w, P w → P (w.masterSend cmdPong ok))
    (hclose : (∃ w ∈ s.workers, cmdClose ∈ w.ctop) → ∀ w, P w → P { w with status := .stopped }) :
    ∀ w ∈ (s.masterRead i ok).workers, P w := by
  unfold masterRead
  split
  · next w hw =>
    split
    · next id rest hchannel hctop =>
      have hpopped : ∀ w ∈ (s.onWorker i WorkerPair.popCtop).workers, P w :=
        forall_modify h i fun w _ => hpop w
      unfold masterParse
      split
      · exact forall_modify hpopped i fun w _ => hpong w
      · next hkind =>
        have hmem : cmdClose ∈ w.ctop := by
          rw [hctop, WorkerPair.cmdKind_eq_close hkind]
          exact List.mem_cons_self
        exact forall_modify hpopped i fun v _ => hclose ⟨w, List.mem_of_getElem? hw, hmem⟩ v
      · exact hpopped
      · exact hpopped
    · exact h
  · exact h

theorem forall_stopApp (h : ∀ w ∈ s.workers, P w) (failed : List Nat)
    (hstop : ∀ w i, P w → P (w.masterStop false (!failed.contains i))) :
    ∀ w ∈ (s.stopApp failed).workers, P w := by
  intro w hw
  obtain ⟨i, hi, rfl⟩ := List.mem_mapIdx.1 hw
  have hold := h _ (List.getElem_mem hi)
  split
  · exact hstop _ i hold
  · exact hold

theorem forall_endStop (h : ∀ w ∈ s.workers, P w)
    (hclosed : s.status = .stopping → ∀ w, P w → P w.closeChannels) : ∀ w ∈ s.endStop.workers, P w := by
  unfold endStop
  split
  · next hstopping =>
    intro w hw
    obtain ⟨w, hmem, rfl⟩ := List.mem_map.1 hw
    split
    · exact h w hmem
    · exact hclosed hstopping w (h w hmem)
  · exact h

end AppState

/-- The program gives no commands to close by itself, and no worker stops by itself. -/
def LifeAct.Own : LifeAct → Prop
  | .masterSends _ id _ => id ≠ cmdClose
  | .childStops _ _ => False
  | _ => True

namespace AppState

variable {s : AppState}

theorem agrees_step (h : ∀ w ∈ s.workers, w.Agrees) {a : LifeAct} (ha : a.Own) (stoppedCb : Bool) :
    ∀ w ∈ (step stoppedCb s a).workers, w.Agrees := by
  cases a with
  | interrupt i ok => exact forall_modify h i fun w _ hw => hw.quiet (WorkerPair.quiet_interrupt ok)
  | childStopsApp i ok =>
    exact forall_modify h i fun w _ hw =>
      hw.quiet (WorkerPair.Quiet.whileThere (WorkerPair.quiet_childSend (by decide) ok))
  | childStops i ok => exact ha.elim
  | childSends i id ok =>
    refine forall_modify h i fun w _ hw => ?_
    unfold WorkerPair.whileThere
    split
    · exact hw
    · exact ⟨by simpa [WorkerPair.told] using hw.told, by simpa [WorkerPair.told] using hw.sent,
        by simpa using hw.known⟩
  | childExits i => exact forall_modify h i fun w _ hw => hw.quiet WorkerPair.quiet_childExit
  | childDies i => exact forall_modify h i fun w _ hw => ⟨hw.told, hw.sent, hw.known⟩
  | childReads i ok =>
    exact forall_modify h i fun w _ hw => hw.quiet (WorkerPair.quiet_childRead hw.told_le stoppedCb ok)
  | masterReads i ok =>
    exact forall_masterRead h i ok (fun w hw => hw.quiet WorkerPair.quiet_popCtop)
      (fun w hw => hw.quiet (WorkerPair.quiet_masterSend (by decide) ok)) fun _ w hw => hw.stopped
  | masterSends i id ok =>
    exact forall_modify h i fun w _ hw => hw.quiet (WorkerPair.quiet_masterSend ha ok)
  | stopWorker i force ok => exact forall_modify h i fun w _ hw => hw.masterStop force ok
  | stopApp failed => exact forall_stopApp h failed fun w i hw => hw.masterStop false _
  | endStop => exact forall_endStop h fun _ w hw => hw.closeChannels

theorem agrees_run (h : ∀ w ∈ s.workers, w.Agrees) (stoppedCb : Bool) (as : List LifeAct)
    (has : ∀ a ∈ as, a.Own) : ∀ w ∈ (run stoppedCb s as).workers, w.Agrees :=
  as.foldlRecOn (motive := fun s : AppState => ∀ w ∈ s.workers, w.Agrees) (step stoppedCb) h
    fun _ hs a ha => agrees_step hs (has a ha) stoppedCb

theorem started_forall {P : WorkerPair → Prop} (h : P WorkerPair.started) (n : Nat) :
    ∀ w ∈ (started n).workers, P w := by
  intro w hw
  rwa [List.eq_of_mem_replicate hw]

/-- **Master and workers agree on who has been told to close**, in every run in which the program does
    not send that command itself and no worker stops by itself: a worker closes only after the master
    has sent it the command, which it does once at most. One that runs in the eyes of the master has not
    closed and has not been told to. -/
theorem close_agreed (n : Nat) (stoppedCb : Bool) (as : List LifeAct) (has : ∀ a ∈ as, a.Own) :
    ∀ w ∈ (run stoppedCb (started n) as).workers,
      (w.status = .running → w.childStatus = .running ∧ cmdClose ∉ w.sent) ∧
        w.sent.count cmdClose ≤ 1 ∧
        (w.childStatus ≠ .running → w.status = .stopped ∧ cmdClose ∈ w.sent ∧ cmdClose ∉ w.ptoc) := by
  intro w hw
  have hagrees := agrees_run (started_forall ⟨by decide, by decide, .inl rfl⟩ n) stoppedCb as has w hw
  have htold := hagrees.told
  have hle := hagrees.told_le
  have hsent := hagrees.sent
  rw [WorkerPair.told] at htold hle hsent
  refine ⟨fun hrunning => ?_, by omega, fun hclosed => ?_⟩
  · rw [WorkerPair.ended_eq_zero.2 hrunning] at htold
    exact ⟨WorkerPair.ended_eq_zero.1 (by omega), List.count_eq_zero.1 (by omega)⟩
  · rw [WorkerPair.ended_eq_one.2 hclosed] at htold hle hsent
    refine ⟨hagrees.known.resolve_left fun hrunning => ?_, List.count_pos_iff.1 (by omega),
      List.count_eq_zero.1 (by omega)⟩
    rw [WorkerPair.ended_eq_zero.2 hrunning] at htold
    omega

theorem close_agreed_two :
    (run false (started 2) [.interrupt 0 true, .masterReads 0 true, .stopApp [1],
        .childReads 0 true]).workers.map WorkerPair.childStatus = [.stopping, .running] ∧
      ∀ w ∈ (run false (started 2) [.interrupt 0 true, .masterReads 0 true, .stopApp [1],
          .childReads 0 true]).workers,
        (w.status = .running → w.childStatus = .running ∧ cmdClose ∉ w.sent) ∧
          w.sent.count cmdClose ≤ 1 ∧
          (w.childStatus ≠ .running → w.status = .stopped ∧ cmdClose ∈ w.sent ∧ cmdClose ∉ w.ptoc) :=
  ⟨by decide, close_agreed 2 false
    [.interrupt 0 true, .masterReads 0 true, .stopApp [1], .childReads 0 true] (by simp [LifeAct.Own])⟩

end AppState

/-! ## The channel of a worker -/

namespace WorkerPair

variable {w : WorkerPair} {stoppedCb : Bool}

/-- A worker that runs has its channel, and one that does not has ended or waits for its callback. -/
structure Safe (stoppedCb : Bool) (w : WorkerPair) : Prop where
  known : w.childStatus = .running ∨ w.childStatus = .stopping
  has : w.childStatus = .running → w.childChannel = true
  waits : w.childStatus ≠ .running → stoppedCb = true ∨ w.exited = true
  crashed : w.crashed = true → stoppedCb = true ∧ w.childStatus ≠ .running

theorem Safe.childSend (h : w.Safe stoppedCb) (hthere : w.exited = false) (id : Int) (ok : Bool) :
    (w.childSend id ok).Safe stoppedCb := by
  unfold WorkerPair.childSend
  split_ifs with hnone
  · have hclosing : w.childStatus ≠ .running := by
      intro hrunning
      rw [h.has hrunning] at hnone
      cases hnone
    have hcb : stoppedCb = true := (h.waits hclosing).resolve_right (by simp [hthere])
    exact ⟨h.known, fun hrunning => absurd hrunning hclosing, fun _ => .inr rfl, fun _ => ⟨hcb, hclosing⟩⟩
  · exact ⟨h.known, h.has, h.waits, h.crashed⟩
  · exact h

theorem Safe.childStop (h : w.Safe stoppedCb) (ok : Bool) : (w.childStop stoppedCb ok).Safe stoppedCb := by
  by_cases hrunning : w.childStatus = .running
  · have hcrashed : w.crashed = false := by
      rw [Bool.eq_false_iff]
      exact fun hc => (h.crashed hc).2 hrunning
    have hnot : RunningState.stopping ≠ RunningState.running := by decide
    have hchannel : ({ w with childStatus := .stopping } : WorkerPair).childChannel = true := h.has hrunning
    have hsend : (({ w with childStatus := .stopping } : WorkerPair).childSend cmdLog ok).childStatus =
          .stopping ∧
        (({ w with childStatus := .stopping } : WorkerPair).childSend cmdLog ok).crashed = false := by
      rw [childSend_eq hchannel]
      split <;> exact ⟨rfl, hcrashed⟩
    unfold WorkerPair.childStop
    rw [if_neg (by simp [hrunning])]
    cases stoppedCb with
    | true =>
      refine ⟨.inr hsend.1, fun hr => absurd (hsend.1.symm.trans hr) hnot, fun _ => .inl rfl, fun hc => ?_⟩
      exact absurd (hsend.2.symm.trans hc) Bool.false_ne_true
    | false =>
      refine ⟨.inr hsend.1, fun hr => absurd (hsend.1.symm.trans hr) hnot, fun _ => .inr rfl, fun hc => ?_⟩
      exact absurd (hsend.2.symm.trans hc) Bool.false_ne_true
  · have hstop : w.childStop stoppedCb ok = w := if_pos (.inr (h.known.resolve_left hrunning))
    rwa [hstop]

theorem Safe.childRead (h : w.Safe stoppedCb) (ok : Bool) : (w.childRead stoppedCb ok).Safe stoppedCb := by
  have hreads := reads_childRead stoppedCb ok w
  generalize w.childRead stoppedCb ok = w' at hreads ⊢
  have hpop (rest : List Int) : ({ w with ptoc := rest } : WorkerPair).Safe stoppedCb :=
    ⟨h.known, h.has, h.waits, h.crashed⟩
  cases hreads with
  | nothing => exact h
  | @closes rest hthere hptoc hrunning => exact (hpop rest).childStop ok
  | @passes rest hthere hptoc hclosing => exact hpop rest
  | @answers id rest hthere hptoc hid =>
    unfold WorkerPair.childParse
    cases hkind : cmdKind id with
    | ping => exact (hpop rest).childSend hthere cmdPong ok
    | pong => exact hpop rest
    | log => exact (hpop rest).childSend hthere cmdLog ok
    | close => exact absurd (cmdKind_eq_close hkind) hid
    | closeApp => exact hpop rest
    | unknown => exact (hpop rest).childSend hthere cmdLog ok
    | user => exact hpop rest

theorem Safe.whileThere {f : WorkerPair → WorkerPair} (h : w.Safe stoppedCb)
    (hf : w.exited = false → (f w).Safe stoppedCb) : (w.whileThere f).Safe stoppedCb := by
  unfold WorkerPair.whileThere
  split
  · exact h
  · next hthere => exact hf (Bool.eq_false_iff.2 hthere)

/-- The master does nothing to the process of a worker. -/
theorem Safe.masterSend (h : w.Safe stoppedCb) (id : Int) (ok : Bool) :
    (w.masterSend id ok).Safe stoppedCb := by
  unfold WorkerPair.masterSend
  split_ifs
  · exact ⟨h.known, h.has, h.waits, h.crashed⟩
  · exact ⟨h.known, h.has, h.waits, h.crashed⟩
  · exact h

theorem Safe.closeChannels (h : w.Safe stoppedCb) : w.closeChannels.Safe stoppedCb := by
  unfold WorkerPair.closeChannels
  split
  · exact ⟨h.known, h.has, h.waits, h.crashed⟩
  · exact ⟨h.known, h.has, h.waits, h.crashed⟩

theorem Safe.masterStop (h : w.Safe stoppedCb) (force ok : Bool) :
    (w.masterStop force ok).Safe stoppedCb := by
  have hsend := h.masterSend cmdClose ok
  have hclose := h.closeChannels
  unfold WorkerPair.masterStop
  split_ifs
  · exact h
  · exact ⟨hclose.known, hclose.has, hclose.waits, hclose.crashed⟩
  · exact ⟨hsend.known, hsend.has, hsend.waits, hsend.crashed⟩

end WorkerPair

namespace AppState

variable {s : AppState} {stoppedCb : Bool}

theorem safe_step (h : ∀ w ∈ s.workers, w.Safe stoppedCb) (a : LifeAct) :
    ∀ w ∈ (step stoppedCb s a).workers, w.Safe stoppedCb := by
  cases a with
  | interrupt i ok =>
    refine forall_modify h i fun w _ hw => ?_
    unfold WorkerPair.interrupt
    split
    · next hthere => exact hw.childSend hthere.1 _ _
    · exact hw
  | childStopsApp i ok =>
    exact forall_modify h i fun w _ hw => hw.whileThere fun hthere => hw.childSend hthere _ _
  | childStops i ok => exact forall_modify h i fun w _ hw => hw.whileThere fun _ => hw.childStop ok
  | childSends i id ok =>
    exact forall_modify h i fun w _ hw => hw.whileThere fun hthere => hw.childSend hthere _ _
  | childExits i =>
    refine forall_modify h i fun w _ hw => ?_
    unfold WorkerPair.childExit
    split
    · exact ⟨hw.known, hw.has, fun _ => .inr rfl, hw.crashed⟩
    · exact hw
  | childDies i => exact forall_modify h i fun w _ hw => ⟨hw.known, hw.has, fun _ => .inr rfl, hw.crashed⟩
  | childReads i ok => exact forall_modify h i fun w _ hw => hw.childRead ok
  | masterReads i ok =>
    exact forall_masterRead h i ok (fun w hw => ⟨hw.known, hw.has, hw.waits, hw.crashed⟩)
      (fun w hw => hw.masterSend _ ok) fun _ w hw => ⟨hw.known, hw.has, hw.waits, hw.crashed⟩
  | masterSends i id ok => exact forall_modify h i fun w _ hw => hw.masterSend id ok
  | stopWorker i force ok => exact forall_modify h i fun w _ hw => hw.masterStop force ok
  | stopApp failed => exact forall_stopApp h failed fun w i hw => hw.masterStop false _
  | endStop => exact forall_endStop h fun _ w hw => hw.closeChannels

theorem safe_run (h : ∀ w ∈ s.workers, w.Safe stoppedCb) (as : List LifeAct) :
    ∀ w ∈ (run stoppedCb s as).workers, w.Safe stoppedCb :=
  as.foldlRecOn (motive := fun s : AppState => ∀ w ∈ s.workers, w.Safe stoppedCb) (step stoppedCb) h
    fun _ hs a _ => safe_step hs a

theorem started_safe (n : Nat) (stoppedCb : Bool) : ∀ w ∈ (started n).workers, w.Safe stoppedCb :=
  started_forall ⟨.inl rfl, fun _ => rfl, fun h => absurd rfl h, fun h => absurd h Bool.false_ne_true⟩ n

end AppState

/-! ## The channel of the master -/

namespace WorkerPair

variable {w w' : WorkerPair} {st : RunningState} {cleared : Bool}

/-- The master has the channel until its app gives the workers away, and has told them to stop by then. `st`
    is the status of the app. -/
structure Kept (st : RunningState) (cleared : Bool) (w : WorkerPair) : Prop where
  misused : w.misused = false
  known : w.status = .running ∨ w.status = .stopped
  channel : cleared = false → w.channel = true
  stopping : st ≠ .running → w.status ≠ .running

/-- What the master has of a worker is the same. -/
structure MasterSame (w w' : WorkerPair) : Prop where
  misused : w'.misused = w.misused
  status : w'.status = w.status
  channel : w'.channel = w.channel

theorem MasterSame.refl (w : WorkerPair) : MasterSame w w := ⟨rfl, rfl, rfl⟩

theorem MasterSame.kept (h : MasterSame w w') (hw : w.Kept st cleared) : w'.Kept st cleared :=
  ⟨h.misused.trans hw.misused, by rw [h.status]; exact hw.known, by rw [h.channel]; exact hw.channel,
    by rw [h.status]; exact hw.stopping⟩

theorem same_childSend (w : WorkerPair) (id : Int) (ok : Bool) : MasterSame w (w.childSend id ok) := by
  unfold childSend
  split_ifs <;> exact ⟨rfl, rfl, rfl⟩

theorem same_childStop (w : WorkerPair) (stoppedCb ok : Bool) :
    MasterSame w (w.childStop stoppedCb ok) := by
  have hsend := same_childSend { w with childStatus := .stopping } cmdLog ok
  unfold childStop
  split
  · exact .refl w
  · cases stoppedCb <;> exact ⟨hsend.misused, hsend.status, hsend.channel⟩

theorem same_childRead (w : WorkerPair) (stoppedCb ok : Bool) :
    MasterSame w (w.childRead stoppedCb ok) := by
  unfold childRead
  split
  · next id rest _ _ =>
    have hpop : MasterSame w { w with ptoc := rest } := ⟨rfl, rfl, rfl⟩
    have hparse : MasterSame { w with ptoc := rest }
        (({ w with ptoc := rest } : WorkerPair).childParse stoppedCb id ok) := by
      unfold childParse
      split
      · exact same_childSend _ _ _
      · exact .refl _
      · split
        · exact same_childStop _ _ _
        · exact .refl _
      · exact .refl _
      · exact same_childSend _ _ _
      · exact same_childSend _ _ _
      · exact .refl _
    exact ⟨hparse.misused.trans hpop.misused, hparse.status.trans hpop.status,
      hparse.channel.trans hpop.channel⟩
  · exact .refl w

theorem MasterSame.whileThere {f : WorkerPair → WorkerPair} (h : MasterSame w (f w)) :
    MasterSame w (w.whileThere f) := by
  unfold WorkerPair.whileThere
  split
  · exact .refl w
  · exact h

/-- What is sent over a channel that is there. -/
theorem same_masterSend (h : w.channel = true) (id : Int) (ok : Bool) :
    MasterSame w (w.masterSend id ok) := by
  unfold masterSend
  rw [if_neg (by simp [h])]
  split <;> exact ⟨rfl, rfl, rfl⟩

theorem Kept.masterStop (hw : w.Kept st cleared) (hthere : w.status = .running → w.channel = true)
    (ok : Bool) : (w.masterStop false ok).Kept st cleared := by
  by_cases hrunning : w.status = .running
  · have hsend := (same_masterSend (hthere hrunning) cmdClose ok).kept hw
    rw [masterStop_running hrunning, if_neg Bool.false_ne_true]
    exact ⟨hsend.misused, .inr rfl, hsend.channel, fun _ hr => RunningState.noConfusion hr⟩
  · have hnone : w.masterStop false ok = w := if_pos (.inl (hw.known.resolve_left hrunning))
    rwa [hnone]

end WorkerPair

namespace AppState

variable {s : AppState} {stoppedCb : Bool}

/-- The master stops no worker by force, and sends nothing when its stop is over. -/
def Gentle (s : AppState) : LifeAct → Prop
  | .stopWorker _ force _ => force = false
  | .masterSends _ _ _ => s.cleared = false
  | _ => True

/-- The master has what it uses. -/
structure Kept (s : AppState) : Prop where
  workers : ∀ w ∈ s.workers, w.Kept s.status s.cleared
  cleared : s.cleared = true → s.status ≠ .running

/-- A worker that runs in the eyes of the master has not been given away. -/
theorem Kept.there (h : s.Kept) {w : WorkerPair} (hw : w ∈ s.workers) (hrunning : w.status = .running) :
    w.channel = true := by
  have hkept := h.workers w hw
  refine hkept.channel (Bool.eq_false_iff.2 fun hcleared => ?_)
  exact hkept.stopping (h.cleared hcleared) hrunning

theorem Kept.same {f : WorkerPair → WorkerPair} (h : s.Kept) (i : Nat)
    (hf : ∀ w, s.workers[i]? = some w → WorkerPair.MasterSame w (f w)) : (s.onWorker i f).Kept :=
  ⟨forall_modify h.workers i fun w hw hkept => (hf w hw).kept hkept, h.cleared⟩

theorem Kept.masterRead (h : s.Kept) (i : Nat) (ok : Bool) : (s.masterRead i ok).Kept := by
  unfold AppState.masterRead
  split
  · next w hw =>
    split
    · next id rest hchannel hctop =>
      have hpopped : (s.onWorker i WorkerPair.popCtop).Kept := h.same i fun w _ => ⟨rfl, rfl, rfl⟩
      unfold masterParse
      split
      · refine hpopped.same i fun v hv => WorkerPair.same_masterSend ?_ _ _
        rw [onWorker, List.getElem?_modify_eq, hw] at hv
        obtain rfl : w.popCtop = v := Option.some.inj hv
        exact hchannel
      · refine ⟨forall_modify hpopped.workers i fun v _ hv => ?_, hpopped.cleared⟩
        exact ⟨hv.misused, .inr rfl, hv.channel, fun _ hr => RunningState.noConfusion hr⟩
      · exact ⟨hpopped.workers, hpopped.cleared⟩
      · exact hpopped
    · exact h
  · exact h

theorem Kept.stopApp (h : s.Kept) (failed : List Nat) : (s.stopApp failed).Kept := by
  refine ⟨fun w hw => ?_, fun _ hr => RunningState.noConfusion hr⟩
  obtain ⟨i, hi, rfl⟩ := List.mem_mapIdx.1 hw
  have hmem := List.getElem_mem hi
  have hkept := h.workers _ hmem
  have hstopped {w : WorkerPair} (hw : w.Kept s.status s.cleared) (hnot : w.status ≠ .running) :
      w.Kept .stopping s.cleared := ⟨hw.misused, hw.known, hw.channel, fun _ => hnot⟩
  split
  · next hrunning =>
    refine hstopped (hkept.masterStop (h.there hmem) _) ?_
    rw [WorkerPair.masterStop_running hrunning.2]
    split <;> exact fun hr => RunningState.noConfusion hr
  · next hnot =>
    refine hstopped hkept fun hrunning => hnot ⟨Bool.eq_false_iff.2 fun hcleared => ?_, hrunning⟩
    exact hkept.stopping (h.cleared hcleared) hrunning

theorem Kept.endStop (h : s.Kept) : s.endStop.Kept := by
  unfold AppState.endStop
  split
  · next hstopping =>
    have hnot : s.status ≠ .running := by
      rw [hstopping]
      decide
    refine ⟨fun w hw => ?_, fun _ hr => RunningState.noConfusion hr⟩
    obtain ⟨w, hmem, rfl⟩ := List.mem_map.1 hw
    have hkept := h.workers w hmem
    have hstatus := hkept.stopping hnot
    split
    · exact ⟨hkept.misused, hkept.known, fun hc => absurd hc.symm Bool.false_ne_true, fun _ => hstatus⟩
    · next hcleared =>
      have hthere := hkept.channel (Bool.eq_false_iff.2 hcleared)
      unfold WorkerPair.closeChannels
      rw [if_neg (by simp [hthere])]
      exact ⟨hkept.misused, hkept.known, fun hc => absurd hc.symm Bool.false_ne_true, fun _ => hstatus⟩
  · exact h

theorem Kept.step (h : s.Kept) (a : LifeAct) (ha : s.Gentle a) : (step stoppedCb s a).Kept := by
  cases a with
  | interrupt i ok =>
    refine h.same i fun w _ => ?_
    unfold WorkerPair.interrupt
    split
    · exact WorkerPair.same_childSend _ _ _
    · exact .refl w
  | childStopsApp i ok => exact h.same i fun w _ => (WorkerPair.same_childSend w _ ok).whileThere
  | childStops i ok => exact h.same i fun w _ => (WorkerPair.same_childStop w stoppedCb ok).whileThere
  | childSends i id ok => exact h.same i fun w _ => (WorkerPair.same_childSend w id ok).whileThere
  | childExits i =>
    refine h.same i fun w _ => ?_
    unfold WorkerPair.childExit
    split
    · exact ⟨rfl, rfl, rfl⟩
    · exact .refl w
  | childDies i => exact h.same i fun w _ => ⟨rfl, rfl, rfl⟩
  | childReads i ok => exact h.same i fun w _ => WorkerPair.same_childRead w stoppedCb ok
  | masterReads i ok => exact h.masterRead i ok
  | masterSends i id ok =>
    refine h.same i fun w hw => WorkerPair.same_masterSend ?_ id ok
    exact (h.workers w (List.mem_of_getElem? hw)).channel ha
  | stopWorker i force ok =>
    obtain rfl : force = false := ha
    refine ⟨forall_modify h.workers i fun w hw hkept => ?_, h.cleared⟩
    exact hkept.masterStop (h.there (List.mem_of_getElem? hw)) ok
  | stopApp failed => exact h.stopApp failed
  | endStop => exact h.endStop

theorem started_kept (n : Nat) : (started n).Kept :=
  ⟨started_forall ⟨rfl, .inl rfl, fun _ => rfl, fun h => absurd rfl h⟩ n,
    fun h => absurd h Bool.false_ne_true⟩

/-- **A worker that runs has its channel**: in every run, its process uses a channel that it has released
    only while it waits for the callback that the program has given for its stop, and never when there is
    none. The master uses no channel that it has released if it stops no worker by force and sends nothing
    when its stop is over. -/
theorem released_unused (n : Nat) (stoppedCb : Bool) (as : List LifeAct) :
    (∀ w ∈ (run stoppedCb (started n) as).workers,
      (w.childStatus = .running → w.childChannel = true) ∧
        (w.crashed = true → stoppedCb = true ∧ w.childStatus = .stopping)) ∧
    (EachStep (step stoppedCb) Gentle (started n) as →
      ∀ w ∈ (run stoppedCb (started n) as).workers, w.misused = false) := by
  refine ⟨fun w hw => ?_, fun has w hw => ?_⟩
  · have hsafe := safe_run (started_safe n stoppedCb) as w hw
    exact ⟨hsafe.has, fun hc =>
      ⟨(hsafe.crashed hc).1, hsafe.known.resolve_left (hsafe.crashed hc).2⟩⟩
  · have hkept : (run stoppedCb (started n) as).Kept :=
      has.invariant (fun _ a hs ha => hs.step a ha) (started_kept n)
    exact (hkept.workers w hw).misused

/-- The program's callback for the stop calls `app_t::stop`, and a channel is used that was released. -/
theorem released_unused_callback :
    (run true (started 1) [.stopApp [], .childReads 0 true, .childStopsApp 0 true]).workers.map
        WorkerPair.crashed = [true] ∧
      (∀ w ∈ (run true (started 1) [.stopApp [], .childReads 0 true, .childStopsApp 0 true]).workers,
        (w.childStatus = .running → w.childChannel = true) ∧
          (w.crashed = true → true = true ∧ w.childStatus = .stopping)) ∧
      ∀ w ∈ (run true (started 1) [.stopApp [], .childReads 0 true, .childStopsApp 0 true]).workers,
        w.misused = false :=
  ⟨by decide, (released_unused 1 true [.stopApp [], .childReads 0 true, .childStopsApp 0 true]).1,
    (released_unused 1 true [.stopApp [], .childReads 0 true, .childStopsApp 0 true]).2
      ⟨trivial, trivial, trivial, trivial⟩⟩

/-- A worker has been stopped by force when the app stops. -/
example : (run false (started 1) [.stopWorker 0 true true, .stopApp [], .endStop]).workers.map
    WorkerPair.misused = [true] := by decide

end AppState

/-! ## Closing all of them -/

namespace WorkerPair

variable {w w' : WorkerPair} {stoppedCb : Bool}

/-- Whom the master does not take for running has been told to close. -/
structure Hears (w : WorkerPair) : Prop where
  told : w.told = w.status.ended
  sent : w.sent.count cmdClose = w.told
  known : w.status = .running ∨ w.status = .stopped
  channel : w.status = .running → w.channel = true
  back : cmdClose ∉ w.ctop

theorem Hears.agrees (h : w.Hears) : w.Agrees := ⟨Nat.le_of_eq h.told, h.sent, h.known⟩

theorem Hears.quiet (h : w.Hears) (hq : Quiet w w') : w'.Hears := by
  refine ⟨?_, ?_, ?_, ?_, fun hmem => ?_⟩
  · rw [hq.told, hq.status, h.told]
  · rw [hq.told, hq.sent, h.sent]
  · rw [hq.status]
    exact h.known
  · rw [hq.status, hq.channel]
    exact h.channel
  · rcases hq.ctop _ hmem with hold | hnew
    · exact h.back hold
    · exact hnew rfl

theorem Hears.masterStop (h : w.Hears) : (w.masterStop false true).Hears := by
  by_cases hrunning : w.status = .running
  · rw [masterStop_running hrunning, if_neg Bool.false_ne_true]
    have hnone : w.told = 0 := by rw [h.told, ended_eq_zero.2 hrunning]
    obtain ⟨htold, hsent⟩ := told_masterSend_close (w := w) true
    rw [if_pos (by simp [h.channel hrunning]), hnone] at htold
    rw [if_pos (by simp [h.channel hrunning]), h.sent, hnone] at hsent
    refine ⟨htold, hsent.trans htold.symm, .inr rfl, fun hr => RunningState.noConfusion hr, ?_⟩
    unfold masterSend
    split_ifs <;> exact h.back
  · rwa [masterStop_not_running h.agrees hrunning]

/-- A worker that does not run any more does not run again. -/
theorem childRead_ended (h : w.childStatus ≠ .running) (ok : Bool) :
    (w.childRead stoppedCb ok).childStatus ≠ .running := by
  have hreads := reads_childRead stoppedCb ok w
  generalize w.childRead stoppedCb ok = w' at hreads ⊢
  cases hreads with
  | nothing => exact h
  | @closes rest hthere hptoc hrunning => exact absurd hrunning h
  | @passes rest hthere hptoc hclosing => exact h
  | @answers id rest hthere hptoc hid =>
    rwa [(childParse_other (w := { w with ptoc := rest }) hid stoppedCb ok).2.2.2.2.1]

/-- A worker that runs and reads is through with a command, and if it still runs it goes on. -/
theorem childRead_running (hsafe : w.Safe stoppedCb) (hrunning : w.childStatus = .running)
    (hthere : w.exited = false) (ok : Bool) :
    (w.childRead stoppedCb ok).ptoc = w.ptoc.tail ∧
      ((w.childRead stoppedCb ok).childStatus = .running →
        (w.childRead stoppedCb ok).exited = false) := by
  have hreads := reads_childRead stoppedCb ok w
  generalize w.childRead stoppedCb ok = w' at hreads ⊢
  cases hreads with
  | nothing h =>
    refine ⟨?_, fun _ => hthere⟩
    rw [h.resolve_left (by simp [hthere])]
    rfl
  | @closes rest _ hptoc _ =>
    obtain ⟨hptoc', -, -, -, hchild, -⟩ :=
      childStop_running (w := { w with ptoc := rest }) hrunning stoppedCb ok
    refine ⟨by rw [hptoc', hptoc]; rfl, fun hr => ?_⟩
    rw [hchild] at hr
    cases hr
  | @passes rest _ hptoc hclosing => exact absurd hrunning hclosing
  | @answers id rest _ hptoc hid =>
    refine ⟨by rw [(childParse_other (w := { w with ptoc := rest }) hid stoppedCb ok).1, hptoc]; rfl,
      fun _ => ?_⟩
    have hchannel : ({ w with ptoc := rest } : WorkerPair).childChannel = true := hsafe.has hrunning
    have hsend (id : Int) :
        (({ w with ptoc := rest } : WorkerPair).childSend id ok).exited = false := by
      rw [childSend_eq hchannel]
      split <;> exact hthere
    unfold childParse
    cases hkind : cmdKind id with
    | ping => exact hsend cmdPong
    | pong => exact hthere
    | log => exact hsend cmdLog
    | close => exact absurd (cmdKind_eq_close hkind) hid
    | closeApp => exact hthere
    | unknown => exact hsend cmdLog
    | user => exact hthere

theorem childReads_ended (h : w.childStatus ≠ .running) (ok : Bool) (k : Nat) :
    ((childRead stoppedCb ok)^[k] w).childStatus ≠ .running := by
  induction k generalizing w with
  | zero => exact h
  | succ k ih => exact ih (childRead_ended h ok)

/-- A worker that has been told to close closes when it has read all there is. -/
theorem childReads_close (hsafe : w.Safe stoppedCb) (htold : w.told = 1)
    (hthere : w.childStatus = .running → w.exited = false) (ok : Bool) {k : Nat}
    (hk : w.ptoc.length ≤ k) : ((childRead stoppedCb ok)^[k] w).childStatus ≠ .running := by
  induction k generalizing w with
  | zero =>
    have hnil : w.ptoc = [] := List.length_eq_zero_iff.1 (Nat.le_zero.1 hk)
    rw [told, hnil, List.count_nil, Nat.zero_add] at htold
    exact ended_eq_one.1 htold
  | succ k ih =>
    rw [Function.iterate_succ_apply]
    by_cases hrunning : w.childStatus = .running
    · obtain ⟨hptoc, hstays⟩ := childRead_running hsafe hrunning (hthere hrunning) ok
      refine ih (hsafe.childRead ok) ?_ hstays ?_
      · rw [(quiet_childRead (Nat.le_of_eq htold) stoppedCb ok).told, htold]
      · rw [hptoc, List.length_tail]
        omega
    · exact childReads_ended (childRead_ended hrunning ok) ok k

end WorkerPair

/-- The program gives no commands to close by itself, no worker stops by itself, and whom the master
    stops it tells. -/
def LifeAct.Telling : LifeAct → Prop
  | .masterSends _ id _ => id ≠ cmdClose
  | .childSends _ id _ => id ≠ cmdClose
  | .childStops _ _ => False
  | .stopWorker _ force ok => force = false ∧ ok = true
  | .stopApp failed => failed = []
  | _ => True

namespace AppState

variable {s : AppState} {stoppedCb : Bool}

/-- All workers hear, and the master takes none for running when it stops. -/
structure Hearing (s : AppState) : Prop where
  hears : ∀ w ∈ s.workers, w.Hears
  stopping : s.status ≠ .running → ∀ w ∈ s.workers, w.status ≠ .running
  cleared : s.cleared = true → s.status ≠ .running

theorem Hearing.onWorker {f : WorkerPair → WorkerPair} (h : s.Hearing) (i : Nat)
    (hf : ∀ w, w.Hears → (f w).Hears ∧ (w.status ≠ .running → (f w).status ≠ .running)) :
    (s.onWorker i f).Hearing :=
  ⟨forall_modify h.hears i fun w _ hw => (hf w hw).1, fun hs w hw => by
    rcases mem_modify hw with hmem | ⟨b, hb, rfl⟩
    · exact h.stopping hs w hmem
    · have hmem := List.mem_of_getElem? hb
      exact (hf b (h.hears b hmem)).2 (h.stopping hs b hmem), h.cleared⟩

theorem Hearing.quiet {f : WorkerPair → WorkerPair} (h : s.Hearing) (i : Nat)
    (hf : ∀ w, w.Hears → WorkerPair.Quiet w (f w)) : (s.onWorker i f).Hearing :=
  h.onWorker i fun w hw => ⟨hw.quiet (hf w hw), fun hst => by rwa [(hf w hw).status]⟩

theorem Hearing.masterRead (h : s.Hearing) (i : Nat) (ok : Bool) : (s.masterRead i ok).Hearing := by
  unfold AppState.masterRead
  split
  · next w hw =>
    split
    · next id rest hchannel hctop =>
      have hpopped : (s.onWorker i WorkerPair.popCtop).Hearing :=
        h.quiet i fun w _ => WorkerPair.quiet_popCtop
      unfold masterParse
      split
      · exact hpopped.quiet i fun w _ => WorkerPair.quiet_masterSend (by decide) ok
      · next hkind =>
        -- no worker sends this
        refine absurd ?_ (h.hears w (List.mem_of_getElem? hw)).back
        rw [hctop, WorkerPair.cmdKind_eq_close hkind]
        exact List.mem_cons_self
      · exact ⟨hpopped.hears, hpopped.stopping, hpopped.cleared⟩
      · exact hpopped
    · exact h
  · exact h

theorem Hearing.stopApp (h : s.Hearing) : (s.stopApp []).Hearing := by
  refine ⟨forall_stopApp h.hears [] fun w i hw => hw.masterStop, fun _ w hw => ?_,
    fun _ hr => RunningState.noConfusion hr⟩
  obtain ⟨i, hi, rfl⟩ := List.mem_mapIdx.1 hw
  split
  · next hrunning =>
    rw [WorkerPair.masterStop_running hrunning.2]
    split <;> exact fun hr => RunningState.noConfusion hr
  · next hnot =>
    -- a worker that is not told to stop has been stopped, or was given away when the others were
    rw [not_and] at hnot
    by_cases hcleared : s.cleared = true
    · exact h.stopping (h.cleared hcleared) _ (List.getElem_mem hi)
    · exact hnot (Bool.eq_false_iff.2 hcleared)

theorem Hearing.endStop (h : s.Hearing) : s.endStop.Hearing := by
  unfold AppState.endStop
  split
  · next hstopping =>
    have hnot : s.status ≠ .running := by
      rw [hstopping]
      decide
    have hclosed : ∀ w ∈ s.workers, w.closeChannels.Hears ∧ w.closeChannels.status ≠ .running := by
      intro w hmem
      have hw := h.hears w hmem
      have hstatus := h.stopping hnot w hmem
      unfold WorkerPair.closeChannels
      split
      · exact ⟨⟨hw.told, hw.sent, hw.known, fun hr => absurd hr hstatus, hw.back⟩, hstatus⟩
      · exact ⟨⟨hw.told, hw.sent, hw.known, fun hr => absurd hr hstatus, List.not_mem_nil⟩, hstatus⟩
    refine ⟨fun w hw => ?_, fun _ w hw => ?_, fun _ hr => RunningState.noConfusion hr⟩
    · obtain ⟨w, hmem, rfl⟩ := List.mem_map.1 hw
      split
      · exact h.hears w hmem
      · exact (hclosed w hmem).1
    · obtain ⟨w, hmem, rfl⟩ := List.mem_map.1 hw
      split
      · exact h.stopping hnot w hmem
      · exact (hclosed w hmem).2
  · exact h

theorem Hearing.step (h : s.Hearing) {a : LifeAct} (ha : a.Telling) : (step stoppedCb s a).Hearing := by
  cases a with
  | interrupt i ok => exact h.quiet i fun w _ => WorkerPair.quiet_interrupt ok
  | childStopsApp i ok =>
    exact h.quiet i fun w _ => WorkerPair.Quiet.whileThere (WorkerPair.quiet_childSend (by decide) ok)
  | childStops i ok => exact ha.elim
  | childSends i id ok =>
    exact h.quiet i fun w _ => WorkerPair.Quiet.whileThere (WorkerPair.quiet_childSend ha ok)
  | childExits i => exact h.quiet i fun w _ => WorkerPair.quiet_childExit
  | childDies i => exact h.quiet i fun w _ => ⟨rfl, rfl, rfl, rfl, fun _ => .inl⟩
  | childReads i ok =>
    exact h.quiet i fun w hw => WorkerPair.quiet_childRead hw.agrees.told_le stoppedCb ok
  | masterReads i ok => exact h.masterRead i ok
  | masterSends i id ok => exact h.quiet i fun w _ => WorkerPair.quiet_masterSend ha ok
  | stopWorker i force ok =>
    obtain ⟨rfl, rfl⟩ := ha
    refine h.onWorker i fun w hw => ⟨hw.masterStop, fun hnot => ?_⟩
    rwa [WorkerPair.masterStop_not_running hw.agrees hnot]
  | stopApp failed =>
    obtain rfl : failed = [] := ha
    exact h.stopApp
  | endStop => exact h.endStop

theorem hearing_run (h : s.Hearing) (as : List LifeAct) (has : ∀ a ∈ as, a.Telling) :
    (run stoppedCb s as).Hearing :=
  as.foldlRecOn (step stoppedCb) h fun _ hs a ha => hs.step (has a ha)

theorem started_hearing (n : Nat) : (started n).Hearing :=
  ⟨started_forall ⟨by decide, by decide, .inl rfl, fun _ => rfl, List.not_mem_nil⟩ n,
    fun h => absurd rfl h, fun h => absurd h Bool.false_ne_true⟩

theorem run_childReads (i : Nat) (ok : Bool) (k : Nat) :
    (run stoppedCb s (List.replicate k (.childReads i ok))).workers[i]? =
      s.workers[i]?.map (WorkerPair.childRead stoppedCb ok)^[k] := by
  induction k generalizing s with
  | zero => simp [run]
  | succ k ih =>
    rw [List.replicate_succ]
    refine (ih (s := s.onWorker i (WorkerPair.childRead stoppedCb ok))).trans ?_
    rw [onWorker, List.getElem?_modify_eq, Option.map_eq_map, Option.map_map]
    rfl

/-- **Who is told to close closes.** In every run in which the master tells whom it stops, a worker that
    it does not take for running any more, and whose process is still there, stops once it has read what
    is on its way to it, whatever that is. Its process is then gone, or the program has it wait. -/
theorem close_followed (n : Nat) (stoppedCb : Bool) (as : List LifeAct) (has : ∀ a ∈ as, a.Telling)
    (i : Nat) (w : WorkerPair) (hw : (run stoppedCb (started n) as).workers[i]? = some w)
    (hstopped : w.status ≠ .running) (hthere : w.exited = false) (ok : Bool) :
    ∃ w', (run stoppedCb (run stoppedCb (started n) as)
        (List.replicate w.ptoc.length (.childReads i ok))).workers[i]? = some w' ∧
      w'.childStatus = .stopping ∧ (stoppedCb = true ∨ w'.exited = true) := by
  have hmem := List.mem_of_getElem? hw
  have hsafe := safe_run (started_safe n stoppedCb) as
  have hhears := (hearing_run (started_hearing n) as has).hears w hmem
  have htold : w.told = 1 := hhears.told.trans (WorkerPair.ended_eq_one.2 hstopped)
  have hread : (run stoppedCb (run stoppedCb (started n) as)
      (List.replicate w.ptoc.length (.childReads i ok))).workers[i]? =
        some ((WorkerPair.childRead stoppedCb ok)^[w.ptoc.length] w) := by
    rw [run_childReads, hw, Option.map_some]
  have hclosed := WorkerPair.childReads_close (hsafe w hmem) htold (fun _ => hthere) ok (Nat.le_refl _)
  have hsafe' := safe_run hsafe (List.replicate w.ptoc.length (.childReads i ok)) _
    (List.mem_of_getElem? hread)
  exact ⟨_, hread, hsafe'.known.resolve_left hclosed, hsafe'.waits hclosed⟩

theorem close_followed_second :
    ∃ w', (run false (run false (started 2) [.interrupt 0 true, .masterReads 0 true, .stopApp []])
        [.childReads 1 true]).workers[1]? = some w' ∧
      w'.childStatus = .stopping ∧ (false = true ∨ w'.exited = true) :=
  close_followed 2 false [.interrupt 0 true, .masterReads 0 true, .stopApp []] (by simp [LifeAct.Telling]) 1
    ⟨.stopped, true, .running, true, false, false, [cmdClose], [], [cmdClose], false⟩ (by decide) (by decide) rfl true

/-! ## Asking the master -/

theorem masterRead_front {i : Nat} {w : WorkerPair} {id : Int} {rest : List Int}
    (hw : s.workers[i]? = some w) (hchannel : w.channel = true) (hctop : w.ctop = id :: rest) (ok : Bool) :
    ((s.masterRead i ok).asked = true ∨ id ≠ cmdCloseApp) ∧
      ∃ w', (s.masterRead i ok).workers[i]? = some w' ∧ w'.channel = true ∧ w'.ctop = rest := by
  have hpop : (s.onWorker i WorkerPair.popCtop).workers[i]? = some w.popCtop := by
    rw [onWorker, List.getElem?_modify_eq, hw]
    rfl
  have hrest : w.popCtop.ctop = rest := by rw [WorkerPair.popCtop, hctop, List.tail_cons]
  have hkept (f : WorkerPair → WorkerPair) (hf : (f w.popCtop).channel = true ∧ (f w.popCtop).ctop = rest) :
      ∃ w', ((s.onWorker i WorkerPair.popCtop).onWorker i f).workers[i]? = some w' ∧
        w'.channel = true ∧ w'.ctop = rest := by
    refine ⟨f w.popCtop, ?_, hf⟩
    rw [onWorker, List.getElem?_modify_eq, hpop]
    rfl
  have hnot (hkind : cmdKind id ≠ .closeApp) : id ≠ cmdCloseApp := by
    rintro rfl
    exact hkind rfl
  unfold AppState.masterRead
  simp only [hw, hchannel, hctop]
  unfold masterParse
  split
  · next hkind =>
    refine ⟨.inr (hnot (by simp [hkind])), hkept _ ?_⟩
    unfold WorkerPair.masterSend
    split_ifs <;> exact ⟨hchannel, hrest⟩
  · next hkind => exact ⟨.inr (hnot (by simp [hkind])), hkept _ ⟨hchannel, hrest⟩⟩
  · exact ⟨.inl rfl, _, hpop, hchannel, hrest⟩
  · next hkind => exact ⟨.inr (hnot hkind), _, hpop, hchannel, hrest⟩

theorem asked_masterRead (h : s.asked = true) (i : Nat) (ok : Bool) : (s.masterRead i ok).asked = true := by
  unfold AppState.masterRead
  split
  · split
    · unfold masterParse
      split
      · exact h
      · exact h
      · rfl
      · exact h
    · exact h
  · exact h

theorem masterReads_asked (h : s.asked = true) (i : Nat) (ok : Bool) (k : Nat) :
    (run stoppedCb s (List.replicate k (.masterReads i ok))).asked = true := by
  induction k generalizing s with
  | zero => exact h
  | succ k ih => exact ih (asked_masterRead h i ok)

/-- What a worker asks for reaches the master behind what it has sent before. -/
theorem masterReads_ask {i : Nat} {w : WorkerPair} (hw : s.workers[i]? = some w)
    (hchannel : w.channel = true) (hasks : cmdCloseApp ∈ w.ctop) (ok : Bool) :
    (run stoppedCb s (List.replicate w.ctop.length (.masterReads i ok))).asked = true := by
  generalize hctop : w.ctop = ids at hasks ⊢
  induction ids generalizing s w with
  | nil => exact absurd hasks List.not_mem_nil
  | cons id rest ih =>
    obtain ⟨hasked, w', hw', hchannel', hctop'⟩ := masterRead_front hw hchannel hctop ok
    by_cases hid : id = cmdCloseApp
    · exact masterReads_asked (hasked.resolve_right (absurd hid)) i ok rest.length
    · exact ih hw' hchannel' hctop' ((List.mem_cons.1 hasks).resolve_left (Ne.symm hid))

/-- **An interrupt of a worker ends the master's loop**: from any state of a run, if the worker runs and
    its pipe takes the command, the master is asked to end when it has read what the worker has sent. -/
theorem interrupt_asks (n : Nat) (stoppedCb : Bool) (as : List LifeAct) (i : Nat) (w : WorkerPair)
    (hw : (run stoppedCb (started n) as).workers[i]? = some w) (hrunning : w.childStatus = .running)
    (hthere : w.exited = false) (hchannel : w.channel = true) (ok : Bool) :
    (run stoppedCb (run stoppedCb (started n) as)
      (.interrupt i true :: List.replicate (w.ctop.length + 1) (.masterReads i ok))).asked = true := by
  have hchild := (safe_run (started_safe n stoppedCb) as w (List.mem_of_getElem? hw)).has hrunning
  have hsend : w.interrupt true = { w with ctop := w.ctop ++ [cmdCloseApp] } := by
    rw [WorkerPair.interrupt, if_pos ⟨hthere, hrunning⟩, WorkerPair.childSend_eq hchild,
      if_pos ⟨rfl, hchannel⟩]
  have hw' : ((run stoppedCb (started n) as).onWorker i (WorkerPair.interrupt true)).workers[i]? =
      some { w with ctop := w.ctop ++ [cmdCloseApp] } := by
    rw [onWorker, List.getElem?_modify_eq, hw, ← hsend]
    rfl
  have hask : (run stoppedCb _ (List.replicate (w.ctop ++ [cmdCloseApp]).length (.masterReads i ok))).asked =
      true := masterReads_ask hw' hchannel (by simp) ok
  rwa [List.length_append] at hask

theorem interrupt_asks_behind_ping :
    (run false (run false (started 2) [.childSends 0 cmdPing true])
      [.interrupt 0 true, .masterReads 0 true, .masterReads 0 true]).asked = true :=
  interrupt_asks 2 false [.childSends 0 cmdPing true] 0
    ⟨.running, true, .running, true, false, false, [], [cmdPing], [], false⟩ (by decide) rfl rfl rfl true

end AppState

end LibEvmvc
