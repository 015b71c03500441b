import LibEvmvc.Foundation.Modify
import LibEvmvc.Foundation.Runs
import LibEvmvc.Foundation.Turns
import LibEvmvc.Http.Url
import LibEvmvc.Worker.Servers

set_option autoImplicit false

/-! # Handing sockets to the workers

The master accepts connections and hands each one to the next worker in turn, as a message over that
worker's unix socket (`listener::master_listen_cb`). The worker receives the messages and makes its
connections of them (`on_http_worker_accept`, `_revc_sock`). Each attempt to send is a step of its own,
so the workers go on in between.

The search for a worker goes around until it meets one that can take the socket. It stops after one
round only if the worker it began with is not for http (`selectWorker_returns_iff`).

A message is sent over the connection that the worker has accepted when it was started. A connection
that the master makes anew is one nobody accepts: the worker has closed its listener. Once that fails,
`usock` is -1 for good. -/

namespace LibEvmvc

inductive WorkerType where
  | http
  | cache
  deriving DecidableEq, Repr

/-- `ctrl_msg_data`, and the descriptor that goes with it. -/
structure CtrlMsg where
  srvId : Nat
  iproto : UrlScheme
  sock : Nat
  deriving DecidableEq, Repr

/-- A connection that a worker has made. -/
structure WorkerConn where
  sock : Nat
  server : Option ServerOptions
  scheme : UrlScheme
  deriving DecidableEq, Repr

/-- A worker: what the master has of it, what is on the way to it, and its process. -/
structure HttpWorker where
  workType : WorkerType
  /-- `is_valid`: the channel has not been released. -/
  valid : Bool
  usock : Int
  /-- The master has connected to it a second time. -/
  renewed : Bool
  /-- Sent, and not received yet. -/
  pipe : List CtrlMsg
  /-- Sent over a connection that nobody accepts. -/
  astray : List CtrlMsg
  /-- Not received when the process ended. -/
  lost : List CtrlMsg
  alive : Bool
  conns : List WorkerConn
  deriving DecidableEq, Repr

namespace HttpWorker

/-- The test of the search. -/
def available (w : HttpWorker) : Bool := decide (w.workType = .http) && w.valid

/-- A message that `sendmsg` has taken. -/
def sent (m : CtrlMsg) (w : HttpWorker) : HttpWorker :=
  if w.renewed then { w with astray := w.astray ++ [m] } else { w with pipe := w.pipe ++ [m] }

/-- What `unix_connect` returns for it is its connection from now on. -/
def renew (usock : Int) (w : HttpWorker) : HttpWorker := { w with usock := usock, renewed := true }

/-- The master releases its channel. -/
def release (w : HttpWorker) : HttpWorker := { w with valid := false }

/-- `_revc_sock` -/
def revcSock (servers : Servers) (m : CtrlMsg) : WorkerConn :=
  ⟨m.sock, servers.findServerById m.srvId, m.iproto⟩

/-- One round of `on_http_worker_accept`. -/
def receive (servers : Servers) (w : HttpWorker) : HttpWorker :=
  match w.alive, w.pipe with
  | true, m :: rest => { w with pipe := rest, conns := w.conns ++ [revcSock servers m] }
  | _, _ => w

/-- The process ends, and the kernel drops what it has not received. -/
def ended (w : HttpWorker) : HttpWorker :=
  { w with alive := false, lost := w.lost ++ w.pipe, pipe := [] }

/-- The sockets that were handed to it. -/
def sockets (w : HttpWorker) : List Nat :=
  w.conns.map WorkerConn.sock ++ (w.pipe ++ w.astray ++ w.lost).map CtrlMsg.sock

end HttpWorker

/-- The loop of the search, from `rridx` on: the worker that was found, and `rridx` after it. It is
    `none` while the loop goes on after so many rounds. -/
def selectLoop (workers : List HttpWorker) (curIdx : Nat) : Nat → Nat → Option (Option Nat × Nat)
  | 0, _ => none
  | rounds + 1, rridx =>
    if workers[rridx]?.any HttpWorker.available then some (some rridx, rridx)
    else
      let rridx := nextPlace workers.length rridx
      if rridx = curIdx ∧ workers[rridx]?.any (fun w => w.workType ≠ .http) then some (none, rridx)
      else selectLoop workers curIdx rounds rridx

/-- `select prefered worker`, with the counter as it was left the last time. -/
def selectWorker (workers : List HttpWorker) (rounds rridx : Nat) : Option (Option Nat × Nat) :=
  let rridx := nextPlace workers.length rridx
  selectLoop workers rridx rounds rridx

/-! ## The search -/

section Search

variable {workers : List HttpWorker} {curIdx : Nat} {seen ahead rest : List Nat} {r j : Nat}

/-- A worker at this place can take a socket. -/
def opens (workers : List HttpWorker) (i : Nat) : Bool := workers[i]?.any HttpWorker.available

/-- The worker at this place is not for http. -/
def otherwise (workers : List HttpWorker) (i : Nat) : Bool := workers[i]?.any fun w => w.workType ≠ .http

theorem selectLoop_opens (h : opens workers r = true) (rounds : Nat) :
    selectLoop workers curIdx (rounds + 1) r = some (some r, r) := by
  rw [selectLoop]
  exact if_pos h

theorem selectLoop_closed (h : opens workers r = false) (rounds : Nat) :
    selectLoop workers curIdx (rounds + 1) r =
      if nextPlace workers.length r = curIdx ∧ otherwise workers (nextPlace workers.length r) = true then
        some (none, nextPlace workers.length r)
      else selectLoop workers curIdx rounds (nextPlace workers.length r) := by
  rw [selectLoop]
  exact if_neg (by rw [← opens, h]; exact Bool.false_ne_true)

/-- The loop goes around until it meets a place that is open. -/
theorem selectLoop_found (hcur : curIdx < workers.length)
    (hcircle : circle workers.length curIdx = seen ++ r :: ahead)
    (hfind : (r :: ahead).find? (opens workers) = some j) {rounds : Nat} (hr : ahead.length < rounds) :
    selectLoop workers curIdx rounds r = some (some j, j) := by
  obtain ⟨rounds, rfl⟩ : ∃ k, rounds = k + 1 := ⟨rounds - 1, by omega⟩
  rw [List.find?_cons] at hfind
  induction ahead generalizing seen r rounds with
  | nil =>
    cases hopen : opens workers r with
    | true =>
      simp only [hopen, Option.some.injEq] at hfind
      rw [selectLoop_opens hopen, hfind]
    | false => simp [hopen] at hfind
  | cons k ahead ih =>
    cases hopen : opens workers r with
    | true =>
      simp only [hopen, Option.some.injEq] at hfind
      rw [selectLoop_opens hopen, hfind]
    | false =>
      simp only [hopen, List.find?_cons] at hfind
      have hnext := nextPlace_inner hcircle
      rw [selectLoop_closed hopen, hnext, if_neg fun h => ne_first hcur hcircle h.1]
      rw [List.length_cons] at hr
      obtain ⟨rounds, rfl⟩ : ∃ k, rounds = k + 1 := ⟨rounds - 1, by omega⟩
      have hnextcircle : circle workers.length curIdx = (seen ++ [r]) ++ k :: ahead := by
        rw [hcircle]
        simp
      exact ih hnextcircle hfind rounds (by omega)

/-- Without an open place it comes back to where it began, and stops there if that worker is not for
    http. -/
theorem selectLoop_around (hcur : curIdx < workers.length)
    (hcircle : circle workers.length curIdx = seen ++ r :: ahead)
    (hclosed : ∀ i ∈ r :: ahead, opens workers i = false) (hother : otherwise workers curIdx = true)
    {rounds : Nat} (hr : ahead.length < rounds) :
    selectLoop workers curIdx rounds r = some (none, curIdx) := by
  obtain ⟨rounds, rfl⟩ : ∃ k, rounds = k + 1 := ⟨rounds - 1, by omega⟩
  have hopen := hclosed r List.mem_cons_self
  induction ahead generalizing seen r rounds with
  | nil => rw [selectLoop_closed hopen, nextPlace_last hcur hcircle, if_pos ⟨rfl, hother⟩]
  | cons k ahead ih =>
    rw [selectLoop_closed hopen, nextPlace_inner hcircle, if_neg fun h => ne_first hcur hcircle h.1]
    rw [List.length_cons] at hr
    obtain ⟨rounds, rfl⟩ : ∃ k, rounds = k + 1 := ⟨rounds - 1, by omega⟩
    have hnextcircle : circle workers.length curIdx = (seen ++ [r]) ++ k :: ahead := by
      rw [hcircle]
      simp
    exact ih hnextcircle (fun i hi => hclosed i (List.mem_cons_of_mem _ hi)) rounds (by omega)
      (hclosed k (by simp))

/-- Else it goes around for ever. -/
theorem selectLoop_stuck (hclosed : ∀ i < workers.length, opens workers i = false)
    (hother : otherwise workers curIdx = false) (rounds : Nat) (hr : r < workers.length) :
    selectLoop workers curIdx rounds r = none := by
  induction rounds generalizing r with
  | zero => rfl
  | succ rounds ih =>
    rw [selectLoop_closed (hclosed r hr), if_neg]
    · exact ih (nextPlace_lt (Nat.zero_lt_of_lt hr) r)
    · rintro ⟨hnext, htrue⟩
      rw [hnext, hother] at htrue
      exact Bool.false_ne_true htrue

variable {rridx : Nat}

theorem circle_next (hne : workers ≠ []) (rridx : Nat) :
    ∃ ahead, circle workers.length (nextPlace workers.length rridx) =
      nextPlace workers.length rridx :: ahead ∧ ahead.length + 1 = workers.length := by
  have hlt := nextPlace_lt (List.length_pos_iff.2 hne) rridx
  obtain ⟨ahead, hahead⟩ := List.head?_eq_some_iff.1 (head?_circle hlt)
  refine ⟨ahead, hahead, ?_⟩
  rw [← List.length_cons, ← hahead, circle, List.length_rotate, List.length_range]

theorem selectWorker_found (h : waiting workers.length (opens workers) rridx = j :: rest) {rounds : Nat}
    (hr : workers.length ≤ rounds) : selectWorker workers rounds rridx = some (some j, j) := by
  have hj : j < workers.length := (mem_waiting.1 (by rw [h]; exact List.mem_cons_self)).1
  obtain ⟨ahead, hahead, hlen⟩ := circle_next (List.length_pos_iff.1 (Nat.zero_lt_of_lt hj)) rridx
  have hcircle : circle workers.length (nextPlace workers.length rridx) =
      [] ++ nextPlace workers.length rridx :: ahead := hahead
  refine selectLoop_found (nextPlace_lt (Nat.zero_lt_of_lt hj) rridx) hcircle ?_ (by omega)
  rw [← List.head?_filter, ← hahead, ← waiting, h, List.head?_cons]

theorem closed_of_waiting (h : waiting workers.length (opens workers) rridx = []) {i : Nat}
    (hi : i < workers.length) : opens workers i = false := by
  rw [Bool.eq_false_iff]
  intro hopen
  have hmem : i ∈ waiting workers.length (opens workers) rridx := mem_waiting.2 ⟨hi, hopen⟩
  rw [h] at hmem
  exact List.not_mem_nil hmem

theorem selectWorker_around (hne : workers ≠ [])
    (h : waiting workers.length (opens workers) rridx = [])
    (hother : otherwise workers (nextPlace workers.length rridx) = true) {rounds : Nat}
    (hr : workers.length ≤ rounds) :
    selectWorker workers rounds rridx = some (none, nextPlace workers.length rridx) := by
  obtain ⟨ahead, hahead, hlen⟩ := circle_next hne rridx
  have hcircle : circle workers.length (nextPlace workers.length rridx) =
      [] ++ nextPlace workers.length rridx :: ahead := hahead
  refine selectLoop_around (nextPlace_lt (List.length_pos_iff.2 hne) rridx) hcircle (fun i hi => ?_)
    hother (by omega)
  rw [← hahead, mem_circle] at hi
  exact closed_of_waiting h hi

theorem opens_iff {i : Nat} : opens workers i = true ↔ ∃ w, workers[i]? = some w ∧ w.available = true := by
  rw [opens, Option.any_eq_true]

/-- Somebody waits exactly if a worker is available. -/
theorem waiting_ne_nil_iff (rridx : Nat) :
    waiting workers.length (opens workers) rridx ≠ [] ↔ ∃ w ∈ workers, w.available = true := by
  constructor
  · intro h
    obtain ⟨i, hi⟩ := List.exists_mem_of_ne_nil _ h
    obtain ⟨w, hw, hav⟩ := opens_iff.1 (mem_waiting.1 hi).2
    exact ⟨w, List.mem_of_getElem? hw, hav⟩
  · rintro ⟨w, hw, hav⟩ h
    obtain ⟨i, hi, rfl⟩ := List.getElem_of_mem hw
    have hopen : opens workers i = true := opens_iff.2 ⟨_, List.getElem?_eq_getElem hi, hav⟩
    rw [closed_of_waiting h hi] at hopen
    exact Bool.false_ne_true hopen

/-- **The search ends exactly if** a worker is available, or the one it begins with is not for http. -/
theorem selectWorker_returns_iff (hne : workers ≠ []) (rridx : Nat) :
    (∃ rounds found, selectWorker workers rounds rridx = some found) ↔
      (∃ w ∈ workers, w.available = true) ∨
        otherwise workers (nextPlace workers.length rridx) = true := by
  rw [← waiting_ne_nil_iff rridx]
  cases hwait : waiting workers.length (opens workers) rridx with
  | cons j rest =>
    exact ⟨fun _ => .inl (List.cons_ne_nil _ _), fun _ => ⟨_, _, selectWorker_found hwait le_rfl⟩⟩
  | nil =>
    constructor
    · rintro ⟨rounds, found, h⟩
      by_contra hnot
      rw [not_or, Bool.not_eq_true] at hnot
      rw [selectWorker, selectLoop_stuck (fun i hi => closed_of_waiting hwait hi) hnot.2 rounds
        (nextPlace_lt (List.length_pos_iff.2 hne) rridx)] at h
      cases h
    · intro h
      exact ⟨_, _, selectWorker_around hne hwait (h.resolve_left (absurd rfl)) le_rfl⟩

/-- A worker for http whose channel is released, alone: the search goes around it for ever. -/
theorem selectWorker_released :
    ¬ ∃ rounds found,
      selectWorker [⟨.http, false, 5, false, [], [], [], true, []⟩] rounds 0 = some found := by
  rw [selectWorker_returns_iff (by decide)]
  decide

end Search

/-- Where the master is. -/
inductive Phase where
  /-- in its event loop -/
  | idle
  /-- about to send a message to a worker -/
  | sending (m : CtrlMsg) (i : Nat)
  /-- in a search that does not end -/
  | searching
  deriving DecidableEq, Repr

/-- The message that is about to be sent. -/
def Phase.msgs : Phase → List CtrlMsg
  | .sending m _ => [m]
  | _ => []

/-- What a call to `sendmsg` does. -/
inductive SendResult where
  | sent
  /-- `EAGAIN` or `EWOULDBLOCK` -/
  | again
  /-- `EPIPE`; then what `unix_connect` returns -/
  | pipe (usock : Int)
  /-- any other error -/
  | failed
  deriving DecidableEq, Repr

structure HandOff where
  rridx : Nat
  workers : List HttpWorker
  phase : Phase
  /-- The accepted sockets that the master has open. -/
  held : List Nat
  /-- Those that it has closed without handing them on. -/
  dropped : List Nat
  deriving DecidableEq, Repr

inductive HandOffAct where
  /-- A listener of a server accepts a socket. `up` says if the server and the app are still there. -/
  | accept (up : Bool) (server : Nat) (ssl : Bool) (sock : Nat)
  | send (result : SendResult)
  | receive (i : Nat)
  | ended (i : Nat)
  /-- The master releases the channel of a worker. -/
  | release (i : Nat)
  deriving DecidableEq, Repr

/-- `up` of a socket that is accepted. -/
def HandOffAct.up : HandOffAct → Bool
  | .accept up _ _ _ => up
  | _ => false

/-- A socket that was accepted, with the server and the kind of its listener. -/
structure Accepted where
  server : ServerOptions
  ssl : Bool
  sock : Nat
  deriving DecidableEq, Repr

/-- `l->ssl() ? url_scheme::https : url_scheme::http` -/
def Accepted.scheme (a : Accepted) : UrlScheme := if a.ssl then .https else .http

namespace HandOff

variable (hash : Bytes → Nat) (servers : List ServerOptions)

/-- The message for an accepted socket. -/
def ctrlMsg (a : Accepted) : CtrlMsg := ⟨hash a.server.name, a.scheme, a.sock⟩

/-- The part of `master_listen_cb` up to the loop that sends. -/
def masterListenCb (s : HandOff) (up : Bool) (a : Accepted) : HandOff :=
  if up = false ∨ s.workers = [] then { s with dropped := s.dropped ++ [a.sock] }
  else
    match selectWorker s.workers (s.workers.length + 1) s.rridx with
    | some (some i, rridx) =>
      { s with rridx := rridx, phase := .sending (ctrlMsg hash a) i, held := a.sock :: s.held }
    -- `Unable to find an available http_worker!`: the socket stays open
    | some (none, rridx) => { s with rridx := rridx, held := a.sock :: s.held }
    | none => { s with phase := .searching, held := a.sock :: s.held }

/-- Change the worker at a place. -/
def onWorker (s : HandOff) (i : Nat) (f : HttpWorker → HttpWorker) : HandOff :=
  { s with workers := s.workers.modify i f }

/-- The end of `master_listen_cb`: the socket is closed. -/
def closed (s : HandOff) (sock : Nat) : HandOff :=
  { s with phase := .idle, held := s.held.erase sock }

/-- The end of `master_listen_cb` for a socket that could not be sent. -/
def drop (s : HandOff) (sock : Nat) : HandOff :=
  { s.closed sock with dropped := s.dropped ++ [sock] }

/-- One round of the loop that sends. -/
def sendRound (s : HandOff) (m : CtrlMsg) (i : Nat) (w : HttpWorker) (result : SendResult) : HandOff :=
  if w.usock ≤ 1 then s.drop m.sock
  else
    match result with
    | .sent => (s.onWorker i (HttpWorker.sent m)).closed m.sock
    | .again => s
    | .pipe usock =>
      let s := s.onWorker i (HttpWorker.renew usock)
      if usock = -1 then s.drop m.sock else s
    | .failed => s.drop m.sock

/-- What happens. An action that is not possible changes nothing. -/
def step (s : HandOff) : HandOffAct → HandOff
  | .accept up server ssl sock =>
    match s.phase, servers[server]? with
    | .idle, some so => s.masterListenCb hash up ⟨so, ssl, sock⟩
    | _, _ => s
  | .send result =>
    match s.phase with
    | .sending m i =>
      match s.workers[i]? with
      | some w => s.sendRound m i w result
      | none => s
    | _ => s
  | .receive i => s.onWorker i (HttpWorker.receive (startServers hash servers))
  | .ended i => s.onWorker i HttpWorker.ended
  | .release i =>
    match s.phase with
    | .idle => s.onWorker i HttpWorker.release
    | _ => s

def run (s : HandOff) (as : List HandOffAct) : HandOff := as.foldl (step hash servers) s

/-- The socket that a step accepts. -/
def takes (s : HandOff) : HandOffAct → Option Accepted
  | .accept _ server ssl sock =>
    match s.phase, servers[server]? with
    | .idle, some so => some ⟨so, ssl, sock⟩
    | _, _ => none
  | _ => none

/-- What a run accepts, in its order. -/
def accepted : HandOff → List HandOffAct → List Accepted
  | _, [] => []
  | s, a :: as => (takes servers s a).toList ++ accepted (step hash servers s a) as

/-- The master has started: nothing was handed to a worker yet. -/
def start (workers : List HttpWorker) : HandOff :=
  { rridx := 100000
    workers := workers.map fun w =>
      { w with renewed := false, pipe := [], astray := [], lost := [], conns := [] }
    phase := .idle, held := [], dropped := [] }

end HandOff

end LibEvmvc
