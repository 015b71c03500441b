import LibEvmvc.Worker.HandOff

set_option autoImplicit false

/-! # Runs of the hand-off

Whatever the workers do in between: a socket that the master has accepted is in one place at any time,
so no worker gets one twice or one that another has. Each worker makes its connections in the order in
which the sockets were accepted, each for the server at whose listener it came in. The sockets are
handed out evenly to the workers that can take them, also to one that cannot be reached any more: what
is its share is closed. -/

namespace LibEvmvc

namespace HttpWorker

variable {w : HttpWorker}

theorem sockets_sent (m : CtrlMsg) (w : HttpWorker) : (w.sent m).sockets.Perm ([m.sock] ++ w.sockets) := by
  rw [List.perm_iff_count]
  intro k
  rw [sent]
  split <;> simp only [sockets, List.map_append, List.map_cons, List.map_nil, List.count_append] <;> omega

theorem sockets_receive (servers : Servers) (w : HttpWorker) :
    (w.receive servers).sockets.Perm w.sockets := by
  rw [receive]
  split
  · next m rest halive hpipe =>
    rw [List.perm_iff_count]
    intro k
    simp only [sockets, hpipe, revcSock, List.map_append, List.map_cons, List.map_nil, List.count_append,
      List.count_cons, List.count_nil]
    omega
  · exact List.Perm.refl _

theorem sockets_renew (usock : Int) (w : HttpWorker) : (w.renew usock).sockets.Perm w.sockets :=
  List.Perm.refl _

theorem sockets_release (w : HttpWorker) : w.release.sockets.Perm w.sockets := List.Perm.refl _

theorem sockets_ended (w : HttpWorker) : w.ended.sockets.Perm w.sockets := by
  rw [List.perm_iff_count]
  intro k
  simp only [sockets, ended, List.map_append, List.map_nil, List.count_append, List.count_nil]
  omega

end HttpWorker

namespace HandOff

variable {hash : Bytes → Nat} {servers : List ServerOptions} {s s' : HandOff} {acc : List Accepted}

/-! ## What a step can do -/

/-- A step: what happens, the socket that is accepted and the state after it. -/
inductive Moves (hash : Bytes → Nat) (servers : List ServerOptions) (s : HandOff) :
    HandOffAct → Option Accepted → HandOff → Prop where
  | nothing (b : HandOffAct) : Moves hash servers s b none s
  /-- A socket is accepted and closed at once. -/
  | refused (b : HandOffAct) (a : Accepted) (hidle : s.phase = .idle)
      (hgone : b.up = false ∨ s.workers = []) :
      Moves hash servers s b (some a) { s with dropped := s.dropped ++ [a.sock] }
  /-- Nobody can take it, and it stays open. -/
  | stranded (b : HandOffAct) (a : Accepted) (rridx : Nat) (phase : Phase) (hidle : s.phase = .idle)
      (hthere : b.up = true ∧ s.workers ≠ [])
      (hnobody : waiting s.workers.length (opens s.workers) s.rridx = []) (hphase : phase.msgs = []) :
      Moves hash servers s b (some a) { s with rridx := rridx, phase := phase, held := a.sock :: s.held }
  /-- The next one is about to get it. -/
  | begun (b : HandOffAct) (a : Accepted) (j : Nat) (rest : List Nat) (hidle : s.phase = .idle)
      (hwait : waiting s.workers.length (opens s.workers) s.rridx = j :: rest) :
      Moves hash servers s b (some a)
        { s with rridx := j, phase := .sending (ctrlMsg hash a) j, held := a.sock :: s.held }
  | handed (b : HandOffAct) (m : CtrlMsg) (i : Nat) (w : HttpWorker) (hsending : s.phase = .sending m i)
      (hw : s.workers[i]? = some w) (husock : 1 < w.usock) :
      Moves hash servers s b none ((s.onWorker i (HttpWorker.sent m)).closed m.sock)
  | gaveUp (b : HandOffAct) (m : CtrlMsg) (i : Nat) (hsending : s.phase = .sending m i) :
      Moves hash servers s b none (s.drop m.sock)
  | renewed (b : HandOffAct) (m : CtrlMsg) (i : Nat) (w : HttpWorker) (usock : Int)
      (hsending : s.phase = .sending m i) (hw : s.workers[i]? = some w) (husock : 1 < w.usock) :
      Moves hash servers s b none (s.onWorker i (HttpWorker.renew usock))
  | unreachable (b : HandOffAct) (m : CtrlMsg) (i : Nat) (w : HttpWorker) (usock : Int)
      (hsending : s.phase = .sending m i) (hw : s.workers[i]? = some w) (husock : 1 < w.usock) :
      Moves hash servers s b none ((s.onWorker i (HttpWorker.renew usock)).drop m.sock)
  | received (b : HandOffAct) (i : Nat) :
      Moves hash servers s b none (s.onWorker i (HttpWorker.receive (startServers hash servers)))
  | ended (b : HandOffAct) (i : Nat) : Moves hash servers s b none (s.onWorker i HttpWorker.ended)
  | released (i : Nat) : Moves hash servers s (.release i) none (s.onWorker i HttpWorker.release)

theorem masterListenCb_moves (b : HandOffAct) (a : Accepted) (hidle : s.phase = .idle) :
    Moves hash servers s b (some a) (s.masterListenCb hash b.up a) := by
  rw [masterListenCb]
  split
  · next h => exact .refused b a hidle h
  · next h =>
    rw [not_or, Bool.not_eq_false] at h
    cases hwait : waiting s.workers.length (opens s.workers) s.rridx with
    | cons j rest =>
      rw [selectWorker_found hwait (Nat.le_succ _)]
      exact .begun b a j rest hidle hwait
    | nil =>
      by_cases hother : otherwise s.workers (nextPlace s.workers.length s.rridx) = true
      · rw [selectWorker_around h.2 hwait hother (Nat.le_succ _)]
        exact .stranded b a _ s.phase hidle h hwait (by rw [hidle]; rfl)
      · rw [selectWorker, selectLoop_stuck (fun i hi => closed_of_waiting hwait hi)
          (Bool.eq_false_iff.2 hother) _ (nextPlace_lt (List.length_pos_iff.2 h.2) _)]
        exact .stranded b a s.rridx .searching hidle h hwait rfl

theorem sendRound_moves {m : CtrlMsg} {i : Nat} {w : HttpWorker} (b : HandOffAct) (result : SendResult)
    (hsending : s.phase = .sending m i) (hw : s.workers[i]? = some w) :
    Moves hash servers s b none (s.sendRound m i w result) := by
  unfold sendRound
  split
  · exact .gaveUp b m i hsending
  · next h =>
    have husock : 1 < w.usock := by omega
    cases result with
    | sent => exact .handed b m i w hsending hw husock
    | again => exact .nothing b
    | pipe usock =>
      simp only
      split
      · exact .unreachable b m i w usock hsending hw husock
      · exact .renewed b m i w usock hsending hw husock
    | failed => exact .gaveUp b m i hsending

theorem step_moves (s : HandOff) (b : HandOffAct) :
    Moves hash servers s b (takes servers s b) (step hash servers s b) := by
  cases b with
  | accept up server ssl sock =>
    simp only [step, takes]
    split
    · next so hidle hso => exact masterListenCb_moves (.accept up server ssl sock) _ hidle
    · exact .nothing _
  | send result =>
    simp only [step, takes]
    split
    · next m i hsending =>
      split
      · next w hw => exact sendRound_moves _ result hsending hw
      · exact .nothing _
    · exact .nothing _
  | receive i => exact .received _ i
  | ended i => exact .ended _ i
  | release i =>
    simp only [step, takes]
    split
    · exact .released i
    · exact .nothing _

/-- What moves keep, runs keep. -/
theorem run_keeps {I : HandOff → List Accepted → Prop}
    (hstep : ∀ s acc b a s', I s acc → Moves hash servers s b a s' → I s' (acc ++ a.toList))
    (h : I s acc) (as : List HandOffAct) : I (run hash servers s as) (acc ++ accepted hash servers s as) := by
  induction as generalizing s acc with
  | nil => rwa [accepted, List.append_nil]
  | cons a as ih =>
    rw [accepted, ← List.append_assoc]
    exact ih (hstep s acc _ _ _ h (step_moves s a))

/-! ## Where the sockets are -/

/-- All sockets, wherever they are. -/
def everywhere (s : HandOff) : List Nat := s.held ++ s.dropped ++ s.workers.flatMap HttpWorker.sockets

/-- The accepted sockets are what there is, and the one about to be sent is open. -/
structure Keeps (s : HandOff) (acc : List Accepted) : Prop where
  all : s.everywhere.Perm (acc.map Accepted.sock)
  sending : ∀ m i, s.phase = .sending m i → m.sock ∈ s.held

theorem Keeps.onWorker {f : HttpWorker → HttpWorker} (hf : ∀ w, (f w).sockets.Perm w.sockets) (i : Nat)
    (h : Keeps s acc) : Keeps (s.onWorker i f) acc :=
  ⟨((perm_flatMap_modify_same hf s.workers i).append_left _).trans h.all, h.sending⟩

theorem Keeps.drop {m : CtrlMsg} {i : Nat} (h : Keeps s acc) (hsending : s.phase = .sending m i) :
    Keeps (s.drop m.sock) acc := by
  refine ⟨List.Perm.trans ?_ h.all, fun _ _ hm => Phase.noConfusion hm⟩
  have hheld := List.perm_iff_count.1 (List.perm_cons_erase (h.sending m i hsending))
  rw [List.perm_iff_count]
  intro k
  have hk := hheld k
  simp only [everywhere, HandOff.drop, closed, List.count_append, List.count_cons, List.count_nil] at hk ⊢
  omega

theorem Keeps.handed {m : CtrlMsg} {i : Nat} {w : HttpWorker} (h : Keeps s acc)
    (hsending : s.phase = .sending m i) (hw : s.workers[i]? = some w) :
    Keeps ((s.onWorker i (HttpWorker.sent m)).closed m.sock) acc := by
  refine ⟨List.Perm.trans ?_ h.all, fun _ _ hm => Phase.noConfusion hm⟩
  have hheld := List.perm_iff_count.1 (List.perm_cons_erase (h.sending m i hsending))
  have hworkers := List.perm_iff_count.1 (perm_flatMap_modify hw (HttpWorker.sockets_sent m w))
  rw [List.perm_iff_count]
  intro k
  have hk := hheld k
  have hk' := hworkers k
  simp only [everywhere, HandOff.onWorker, closed, List.count_append, List.count_cons,
    List.count_nil] at hk hk' ⊢
  omega

/-- Wherever a socket goes when it is accepted, it is there once more. -/
theorem Keeps.accepted {a : Accepted} (h : Keeps s acc)
    (hmore : s'.everywhere.Perm (s.everywhere ++ [a.sock]))
    (hsending : ∀ m i, s'.phase = .sending m i → m.sock ∈ s'.held) : Keeps s' (acc ++ [a]) := by
  refine ⟨hmore.trans ?_, hsending⟩
  rw [List.map_append]
  exact h.all.append_right _

theorem Keeps.moves {b : HandOffAct} {a : Option Accepted} (h : Keeps s acc)
    (hm : Moves hash servers s b a s') :
    Keeps s' (acc ++ a.toList) := by
  cases hm with
  | nothing => simpa using h
  | refused _ a hidle hgone =>
    refine h.accepted ?_ fun m i hm => Phase.noConfusion (hidle.symm.trans hm)
    rw [List.perm_iff_count]
    intro k
    simp only [everywhere, List.count_append]
    omega
  | stranded _ a rridx phase hidle hthere hnobody hphase =>
    refine h.accepted ?_ fun m i hm => ?_
    · rw [List.perm_iff_count]
      intro k
      simp only [everywhere, List.count_append, List.count_cons, List.count_nil]
      omega
    · obtain rfl : phase = .sending m i := hm
      cases hphase
  | begun _ a j rest hidle hwait =>
    refine h.accepted ?_ fun m i hm => ?_
    · rw [List.perm_iff_count]
      intro k
      simp only [everywhere, List.count_append, List.count_cons, List.count_nil]
      omega
    · obtain ⟨rfl, rfl⟩ := Phase.sending.inj hm
      exact List.mem_cons_self
  | handed _ m i w hsending hw husock => simpa using h.handed hsending hw
  | gaveUp _ m i hsending => simpa using h.drop hsending
  | renewed _ m i w usock hsending hw husock =>
    simpa using h.onWorker (HttpWorker.sockets_renew usock) i
  | unreachable _ m i w usock hsending hw husock =>
    have hrenewed : Keeps (s.onWorker i (HttpWorker.renew usock)) acc :=
      h.onWorker (HttpWorker.sockets_renew usock) i
    simpa using hrenewed.drop hsending
  | received _ i => simpa using h.onWorker (HttpWorker.sockets_receive _) i
  | ended _ i => simpa using h.onWorker HttpWorker.sockets_ended i
  | released i => simpa using h.onWorker HttpWorker.sockets_release i

theorem start_keeps (workers : List HttpWorker) : Keeps (start workers) [] := by
  refine ⟨?_, fun _ _ hm => Phase.noConfusion hm⟩
  simp [everywhere, start, HttpWorker.sockets, List.flatMap_map]

/-- **Each accepted socket is in one place**, as often as it was accepted: it is open in the master or has
    been closed unsent, or it was handed to a worker, whatever has become of it there. -/
theorem sockets_kept (hash : Bytes → Nat) (servers : List ServerOptions) (workers : List HttpWorker)
    (as : List HandOffAct) :
    (run hash servers (start workers) as).everywhere.Perm
      ((accepted hash servers (start workers) as).map Accepted.sock) := by
  have h : Keeps (run hash servers (start workers) as) ([] ++ accepted hash servers (start workers) as) :=
    run_keeps (fun _ _ _ _ _ => Keeps.moves) (start_keeps workers) as
  simpa using h.all

/-! ## What a worker makes of them -/

/-- The connection that a worker makes of a message. -/
abbrev connOf (hash : Bytes → Nat) (servers : List ServerOptions) (m : CtrlMsg) : WorkerConn :=
  HttpWorker.revcSock (startServers hash servers) m

/-- What a worker has made, what is on its way to it and what is about to be sent come in the order in
    which it was accepted. -/
def InOrder (hash : Bytes → Nat) (servers : List ServerOptions) (s : HandOff) (acc : List Accepted) : Prop :=
  ∀ w ∈ s.workers, (w.conns ++ (w.pipe ++ s.phase.msgs).map (connOf hash servers)).Sublist
    (acc.map fun a => connOf hash servers (ctrlMsg hash a))

/-- What was about to be sent need not have gone to this worker. -/
theorem InOrder.without (h : InOrder hash servers s acc) :
    ∀ w ∈ s.workers, (w.conns ++ w.pipe.map (connOf hash servers)).Sublist
      (acc.map fun a => connOf hash servers (ctrlMsg hash a)) := by
  intro w hw
  refine List.Sublist.trans ?_ (h w hw)
  rw [List.map_append]
  exact (List.sublist_append_left _ _).append_left _

theorem InOrder.onWorker {f : HttpWorker → HttpWorker} (h : InOrder hash servers s acc) (i : Nat)
    (hf : ∀ w msgs, ((f w).conns ++ ((f w).pipe ++ msgs).map (connOf hash servers)).Sublist
      (w.conns ++ (w.pipe ++ msgs).map (connOf hash servers))) :
    InOrder hash servers (s.onWorker i f) acc := by
  intro w hw
  rcases mem_modify hw with hmem | ⟨b, hb, rfl⟩
  · exact h w hmem
  · exact (hf b s.phase.msgs).trans (h b (List.mem_of_getElem? hb))

theorem InOrder.drop (h : InOrder hash servers s acc) (sock : Nat) :
    InOrder hash servers (s.drop sock) acc := by
  intro w hw
  have hout := h.without w hw
  rwa [← List.append_nil w.pipe] at hout

theorem InOrder.handed {m : CtrlMsg} {i : Nat} (h : InOrder hash servers s acc)
    (hsending : s.phase = .sending m i) :
    InOrder hash servers ((s.onWorker i (HttpWorker.sent m)).closed m.sock) acc := by
  have hmsgs : s.phase.msgs = [m] := by rw [hsending]; rfl
  intro w hw
  have hnil : (Phase.msgs ((s.onWorker i (HttpWorker.sent m)).closed m.sock).phase) = [] := rfl
  rw [hnil, List.append_nil]
  rcases mem_modify hw with hmem | ⟨b, hb, rfl⟩
  · exact h.without w hmem
  · have hb' := List.mem_of_getElem? hb
    rw [HttpWorker.sent]
    split
    · exact h.without b hb'
    · have hall := h b hb'
      rwa [hmsgs] at hall

theorem InOrder.moves {b : HandOffAct} {a : Option Accepted} (h : InOrder hash servers s acc)
    (hm : Moves hash servers s b a s') : InOrder hash servers s' (acc ++ a.toList) := by
  have hmore (a : Accepted) (hs : InOrder hash servers s' acc) :
      InOrder hash servers s' (acc ++ (some a).toList) := by
    intro w hw
    exact (hs w hw).trans ((List.sublist_append_left _ _).map _)
  cases hm with
  | nothing => simpa using h
  | refused _ a hidle hgone => exact hmore a h
  | stranded _ a rridx phase hidle hthere hnobody hphase =>
    refine hmore a fun w hw => ?_
    have hout := h.without w hw
    rw [← List.append_nil w.pipe] at hout
    show (w.conns ++ (w.pipe ++ phase.msgs).map (connOf hash servers)).Sublist _
    rwa [hphase]
  | begun _ a j rest hidle hwait =>
    intro w hw
    have hout := h.without w hw
    show (w.conns ++ (w.pipe ++ [ctrlMsg hash a]).map (connOf hash servers)).Sublist _
    rw [List.map_append, List.map_append, ← List.append_assoc]
    exact hout.append_right _
  | handed _ m i w hsending hw husock => simpa using h.handed hsending
  | gaveUp _ m i hsending => simpa using h.drop m.sock
  | renewed _ m i w usock hsending hw husock =>
    simpa using h.onWorker i (f := HttpWorker.renew usock) fun w msgs => List.Sublist.refl _
  | unreachable _ m i w usock hsending hw husock =>
    simpa using (h.onWorker i (f := HttpWorker.renew usock) fun w msgs => List.Sublist.refl _).drop m.sock
  | received _ i =>
    refine (List.append_nil acc).symm ▸ h.onWorker i fun w msgs => ?_
    rw [HttpWorker.receive]
    split
    · next m rest halive hpipe => simp [hpipe, connOf]
    · exact List.Sublist.refl _
  | ended _ i =>
    refine (List.append_nil acc).symm ▸ h.onWorker i fun w msgs => ?_
    rw [List.map_append, List.map_append]
    exact (List.sublist_append_right _ _).append_left _
  | released i =>
    simpa using h.onWorker i (f := HttpWorker.release) fun w msgs => List.Sublist.refl _

theorem start_inOrder (workers : List HttpWorker) : InOrder hash servers (start workers) [] := by
  intro w hw
  obtain ⟨w', -, rfl⟩ := List.mem_map.1 hw
  exact List.Sublist.refl _

theorem accepted_server {a : Accepted} {as : List HandOffAct} {s : HandOff}
    (h : a ∈ accepted hash servers s as) : a.server ∈ servers := by
  induction as generalizing s with
  | nil => exact absurd h List.not_mem_nil
  | cons b as ih =>
    rw [accepted, List.mem_append] at h
    rcases h with h | h
    · rw [Option.mem_toList] at h
      cases b with
      | accept up server ssl sock =>
        simp only [takes] at h
        split at h
        · next so hidle hso =>
          obtain rfl := Option.some.inj h
          exact List.mem_of_getElem? hso
        · cases h
      | send result => cases h
      | receive i => cases h
      | ended i => cases h
      | release i => cases h
    · exact ih h

/-- **Each worker serves what it is handed, in order**: its connections are made of accepted sockets,
    in the order in which they were accepted and of none twice, each for the server at whose listener it
    came in and by the scheme of that listener. -/
theorem served_in_order (hids : (servers.map fun so => hash so.name).Nodup) (workers : List HttpWorker)
    (as : List HandOffAct) :
    ∀ w ∈ (run hash servers (start workers) as).workers,
      w.conns.Sublist ((accepted hash servers (start workers) as).map fun a =>
        ⟨a.sock, some a.server, a.scheme⟩) := by
  intro w hw
  have h : InOrder hash servers (run hash servers (start workers) as)
      ([] ++ accepted hash servers (start workers) as) :=
    run_keeps (fun _ _ _ _ _ => InOrder.moves) (start_inOrder workers) as
  rw [List.nil_append] at h
  have hconns := (List.sublist_append_left _ _).trans (h.without w hw)
  rw [List.map_congr_left] at hconns
  · exact hconns
  · intro a ha
    rw [connOf, HttpWorker.revcSock, ctrlMsg, findServerById_of_nodup hids (accepted_server ha)]

/-- Two workers with their connections, and two servers. -/
def twoWorkers : List HttpWorker :=
  [⟨.http, true, 5, false, [], [], [], true, []⟩, ⟨.http, true, 6, false, [], [], [], true, []⟩]

def twoServers : List ServerOptions := [⟨bytes "a", [], 0, 0⟩, ⟨bytes "b", [], 0, 0⟩]

/-- A number for each name. -/
def sampleHash (name : Bytes) : Nat := name.foldl (fun n c => n * 256 + c.toNat) 1

theorem served_in_order_two :
    (twoServers.map fun so => sampleHash so.name).Nodup ∧
      ((run sampleHash twoServers (start twoWorkers)
        [.accept true 1 true 7, .send .again, .send .sent, .accept true 0 false 8, .send .sent,
          .receive 0, .receive 1]).workers.map HttpWorker.conns =
        [[⟨7, some ⟨bytes "b", [], 0, 0⟩, .https⟩], [⟨8, some ⟨bytes "a", [], 0, 0⟩, .http⟩]]) ∧
      ∀ w ∈ (run sampleHash twoServers (start twoWorkers)
          [.accept true 1 true 7, .send .again, .send .sent, .accept true 0 false 8, .send .sent,
            .receive 0, .receive 1]).workers,
        w.conns.Sublist ((accepted sampleHash twoServers (start twoWorkers)
          [.accept true 1 true 7, .send .again, .send .sent, .accept true 0 false 8, .send .sent,
            .receive 0, .receive 1]).map fun a => ⟨a.sock, some a.server, a.scheme⟩) :=
  ⟨by decide +kernel, by decide +kernel, served_in_order (by decide +kernel) twoWorkers _⟩

/-! ## What the master has open -/

/-- A socket that is accepted is closed at once or finds a worker. -/
def Finds (servers : List ServerOptions) (s : HandOff) (b : HandOffAct) : Prop :=
  ∀ a, takes servers s b = some a →
    b.up = false ∨ s.workers = [] ∨ ∃ w ∈ s.workers, w.available = true

/-- The master has the socket open that it is about to send, and no other one. -/
def HoldsOne (s : HandOff) : Prop := s.held = s.phase.msgs.map CtrlMsg.sock

theorem HoldsOne.drop {m : CtrlMsg} {i : Nat} (h : HoldsOne s) (hsending : s.phase = .sending m i) :
    HoldsOne (s.drop m.sock) := by
  have hheld : s.held = [m.sock] := by rw [h, hsending]; rfl
  show s.held.erase m.sock = []
  rw [hheld, List.erase_cons_head]

theorem holdsOne_step (h : HoldsOne s) (b : HandOffAct) :
    HoldsOne (step hash servers s b) ↔ Finds servers s b := by
  have hm : Moves hash servers s b (takes servers s b) (HandOff.step hash servers s b) := step_moves s b
  rw [Finds]
  generalize takes servers s b = a, step hash servers s b = s' at hm ⊢
  have hnone (h' : HoldsOne s') : HoldsOne s' ↔ ∀ a, (none : Option Accepted) = some a →
      b.up = false ∨ s.workers = [] ∨ ∃ w ∈ s.workers, w.available = true :=
    ⟨fun _ a ha => absurd ha (by simp), fun _ => h'⟩
  cases hm with
  | nothing => exact hnone h
  | refused _ a hidle hgone =>
    exact ⟨fun _ _ _ => hgone.imp_right .inl, fun _ => h⟩
  | stranded _ a rridx phase hidle hthere hnobody hphase =>
    refine ⟨fun hone => ?_, fun hfinds => ?_⟩
    · have hheld : a.sock :: s.held = phase.msgs.map CtrlMsg.sock := hone
      rw [hphase] at hheld
      cases hheld
    · rcases hfinds a rfl with hup | hnil | hsome
      · rw [hthere.1] at hup
        cases hup
      · exact absurd hnil hthere.2
      · exact absurd hnobody ((waiting_ne_nil_iff s.rridx).2 hsome)
  | begun _ a j rest hidle hwait =>
    refine ⟨fun _ _ _ => .inr (.inr ?_), fun _ => ?_⟩
    · refine (waiting_ne_nil_iff s.rridx).1 ?_
      rw [hwait]
      exact List.cons_ne_nil _ _
    · have hheld : s.held = [] := by rw [h, hidle]; rfl
      show a.sock :: s.held = [a.sock]
      rw [hheld]
  | handed _ m i w hsending hw husock =>
    refine hnone ?_
    have hheld : s.held = [m.sock] := by rw [h, hsending]; rfl
    show s.held.erase m.sock = []
    rw [hheld, List.erase_cons_head]
  | gaveUp _ m i hsending => exact hnone (h.drop hsending)
  | renewed _ m i w usock hsending hw husock => exact hnone h
  | unreachable _ m i w usock hsending hw husock =>
    have hrenewed : HoldsOne (s.onWorker i (HttpWorker.renew usock)) := h
    exact hnone (hrenewed.drop hsending)
  | received _ i => exact hnone h
  | ended _ i => exact hnone h
  | released i => exact hnone h

theorem start_holdsOne (workers : List HttpWorker) : HoldsOne (start workers) := rfl

/-- The socket, if there is one, that a step accepts and nobody can take. -/
def strands (s : HandOff) (b : HandOffAct) (a : Option Accepted) : Option Nat :=
  if b.up && !s.workers.isEmpty && !s.workers.any HttpWorker.available then a.map Accepted.sock else none

/-- The sockets that nobody could take when they were accepted. -/
def stranded (hash : Bytes → Nat) (servers : List ServerOptions) : HandOff → List HandOffAct → List Nat
  | _, [] => []
  | s, b :: bs => (strands s b (takes servers s b)).toList ++ stranded hash servers (step hash servers s b) bs

/-- The master has those open, and the one that it is about to send. -/
def Holds (s : HandOff) (left : List Nat) : Prop := s.held.Perm (s.phase.msgs.map CtrlMsg.sock ++ left)

theorem strands_none (s : HandOff) (b : HandOffAct) : strands s b none = none := by
  rw [strands]
  split <;> rfl

theorem Holds.erase {m : CtrlMsg} {i : Nat} {left : List Nat} (h : Holds s left)
    (hsending : s.phase = .sending m i) : (s.held.erase m.sock).Perm left := by
  rw [Holds, hsending] at h
  have herase := h.erase m.sock
  rwa [show Phase.msgs (.sending m i) = [m] from rfl, List.map_singleton, List.singleton_append,
    List.erase_cons_head] at herase

theorem Holds.step {left : List Nat} (h : Holds s left) (b : HandOffAct) :
    Holds (step hash servers s b) ((strands s b (takes servers s b)).toList ++ left) := by
  have hm : Moves hash servers s b (takes servers s b) (HandOff.step hash servers s b) := step_moves s b
  generalize takes servers s b = a, HandOff.step hash servers s b = s' at hm ⊢
  cases hm with
  | nothing =>
    rw [strands_none]
    exact h
  | refused _ a hidle hgone =>
    have hnone : strands s b (some a) = none := by
      rw [strands, if_neg]
      rcases hgone with hup | hnil
      · simp [hup]
      · simp [hnil]
    rw [hnone]
    exact h
  | stranded _ a rridx phase hidle hthere hnobody hphase =>
    have hany : s.workers.any HttpWorker.available = false := by
      rw [List.any_eq_false]
      intro w hw hav
      exact (waiting_ne_nil_iff s.rridx).2 ⟨w, hw, hav⟩ hnobody
    have hsome : strands s b (some a) = some a.sock := by
      rw [strands, if_pos]
      · rfl
      · simp [hthere.1, hthere.2, hany]
    rw [Holds, hidle] at h
    rw [hsome]
    show (a.sock :: s.held).Perm (phase.msgs.map CtrlMsg.sock ++ a.sock :: left)
    rw [hphase]
    exact h.cons _
  | begun _ a j rest hidle hwait =>
    have hany : s.workers.any HttpWorker.available = true := by
      rw [List.any_eq_true]
      refine (waiting_ne_nil_iff s.rridx).1 ?_
      rw [hwait]
      exact List.cons_ne_nil _ _
    have hnone : strands s b (some a) = none := by
      rw [strands, if_neg]
      simp [hany]
    rw [Holds, hidle] at h
    rw [hnone]
    exact h.cons a.sock
  | handed _ m i w hsending hw husock =>
    rw [strands_none]
    exact h.erase hsending
  | gaveUp _ m i hsending =>
    rw [strands_none]
    exact h.erase hsending
  | renewed _ m i w usock hsending hw husock =>
    rw [strands_none]
    exact h
  | unreachable _ m i w usock hsending hw husock =>
    rw [strands_none]
    exact h.erase hsending
  | received _ i =>
    rw [strands_none]
    exact h
  | ended _ i =>
    rw [strands_none]
    exact h
  | released i =>
    rw [strands_none]
    exact h

theorem Holds.run {left : List Nat} (h : Holds s left) (as : List HandOffAct) :
    Holds (run hash servers s as) (stranded hash servers s as ++ left) := by
  induction as generalizing s left with
  | nil => exact h
  | cons b bs ih =>
    refine (ih (h.step b)).trans (List.Perm.append_left _ ?_)
    rw [stranded, List.append_assoc (strands ..).toList]
    exact List.perm_append_comm_assoc ..

/-- **The master leaves no socket open** in any state of a run, but the one it is about to send, exactly as
    long as each socket it accepts is closed at once or finds a worker. One that finds none stays open
    for good. -/
theorem holdsOne_iff (hash : Bytes → Nat) (servers : List ServerOptions) (workers : List HttpWorker)
    (as : List HandOffAct) :
    (EachState (step hash servers) HoldsOne (start workers) as ↔
      EachStep (step hash servers) (Finds servers) (start workers) as) ∧
    Holds (run hash servers (start workers) as) (stranded hash servers (start workers) as) := by
  refine ⟨eachState_iff (J := HoldsOne) (fun _ h => h) (fun _ b h => (holdsOne_step h b).2)
    (fun _ b h hnot hone => hnot ((holdsOne_step h b).1 hone)) (start_holdsOne workers) as, ?_⟩
  have hstart : Holds (start workers) [] := List.Perm.refl _
  have hend : Holds (run hash servers (start workers) as) (stranded hash servers (start workers) as ++ []) :=
    hstart.run as
  rwa [List.append_nil] at hend

/-! ## Turns -/

/-- The worker that a step begins to send to. -/
def picks (s s' : HandOff) : Option Nat :=
  match s.phase, s'.phase with
  | .idle, .sending _ i => some i
  | _, _ => none

/-- The workers that a run sends to, one after the other. -/
def chosen (hash : Bytes → Nat) (servers : List ServerOptions) : HandOff → List HandOffAct → List Nat
  | _, [] => []
  | s, b :: bs =>
    (picks s (step hash servers s b)).toList ++ chosen hash servers (step hash servers s b) bs

theorem picks_same (h : s'.phase = s.phase) : picks s s' = none := by
  rw [picks, h]
  cases s.phase <;> rfl

theorem picks_sending {m : CtrlMsg} {i : Nat} (h : s.phase = .sending m i) : picks s s' = none := by
  rw [picks, h]

theorem opens_modify {f : HttpWorker → HttpWorker} (hf : ∀ w, (f w).available = w.available)
    (workers : List HttpWorker) (i : Nat) : opens (workers.modify i f) = opens workers := by
  funext j
  rw [opens, opens, List.getElem?_modify]
  cases workers[j]? with
  | none => simp
  | some w =>
    split
    · simp [hf]
    · rfl

/-- Only a release changes who can take sockets. -/
theorem Moves.opens_same {b : HandOffAct} {a : Option Accepted} (hm : Moves hash servers s b a s') :
    s'.workers.length = s.workers.length ∧
      ∀ i, b ≠ .release i → opens s'.workers i = opens s.workers i := by
  have hsent (m : CtrlMsg) (w : HttpWorker) : (w.sent m).available = w.available := by
    rw [HttpWorker.sent]
    split <;> rfl
  have hreceive (w : HttpWorker) :
      (w.receive (startServers hash servers)).available = w.available := by
    rw [HttpWorker.receive]
    split <;> rfl
  have hmodify {f : HttpWorker → HttpWorker} (hf : ∀ w, (f w).available = w.available) (i : Nat) :
      (s.onWorker i f).workers.length = s.workers.length ∧
        ∀ j, b ≠ .release j → opens (s.onWorker i f).workers j = opens s.workers j :=
    ⟨List.length_modify .., fun j _ => congrFun (opens_modify hf s.workers i) j⟩
  cases hm with
  | nothing => exact ⟨rfl, fun _ _ => rfl⟩
  | refused _ a hidle hgone => exact ⟨rfl, fun _ _ => rfl⟩
  | stranded _ a rridx phase hidle hthere hnobody hphase => exact ⟨rfl, fun _ _ => rfl⟩
  | begun _ a j rest hidle hwait => exact ⟨rfl, fun _ _ => rfl⟩
  | handed _ m i w hsending hw husock => exact hmodify (hsent m) i
  | gaveUp _ m i hsending => exact ⟨rfl, fun _ _ => rfl⟩
  | renewed _ m i w usock hsending hw husock => exact hmodify (f := .renew usock) (fun _ => rfl) i
  | unreachable _ m i w usock hsending hw husock => exact hmodify (f := .renew usock) (fun _ => rfl) i
  | received _ i => exact hmodify hreceive i
  | ended _ i => exact hmodify (f := .ended) (fun _ => rfl) i
  | released i =>
    refine ⟨List.length_modify .., fun j hj => ?_⟩
    have hne : i ≠ j := fun hij => hj (by rw [hij])
    show (s.workers.modify i HttpWorker.release)[j]?.any _ = s.workers[j]?.any _
    simp [hne]

/-- A step that does not take a worker away leaves it open who is open, and whose turn is next unless
    it gives the turn to the first who waits. -/
theorem Moves.turn {b : HandOffAct} {a : Option Accepted} (hm : Moves hash servers s b a s')
    (hrelease : ∀ i, b ≠ .release i)
    (hsome : waiting s.workers.length (opens s.workers) s.rridx ≠ []) :
    (s'.workers.length = s.workers.length ∧ opens s'.workers = opens s.workers) ∧
      ((picks s s' = none ∧ s'.rridx = s.rridx) ∨
        ∃ j rest, waiting s.workers.length (opens s.workers) s.rridx = j :: rest ∧
          picks s s' = some j ∧ s'.rridx = j) := by
  refine ⟨⟨hm.opens_same.1, funext fun i => hm.opens_same.2 i (hrelease i)⟩, ?_⟩
  cases hm with
  | nothing => exact .inl ⟨picks_same rfl, rfl⟩
  | refused _ a hidle hgone => exact .inl ⟨picks_same rfl, rfl⟩
  | stranded _ a rridx phase hidle hthere hnobody hphase => exact absurd hnobody hsome
  | begun _ a j rest hidle hwait =>
    refine .inr ⟨j, rest, hwait, ?_, rfl⟩
    rw [picks, hidle]
  | handed _ m i w hsending hw husock => exact .inl ⟨picks_sending hsending, rfl⟩
  | gaveUp _ m i hsending => exact .inl ⟨picks_sending hsending, rfl⟩
  | renewed _ m i w usock hsending hw husock => exact .inl ⟨picks_sending hsending, rfl⟩
  | unreachable _ m i w usock hsending hw husock => exact .inl ⟨picks_sending hsending, rfl⟩
  | received _ i => exact .inl ⟨picks_same rfl, rfl⟩
  | ended _ i => exact .inl ⟨picks_same rfl, rfl⟩
  | released i => exact absurd rfl (hrelease i)

/-- The workers that are sent to are those who take turns. -/
theorem chosen_turns (bs : List HandOffAct) (hrelease : ∀ i, .release i ∉ bs)
    (hsome : waiting s.workers.length (opens s.workers) s.rridx ≠ []) :
    chosen hash servers s bs =
      turns (chosen hash servers s bs).length (waiting s.workers.length (opens s.workers) s.rridx) := by
  induction bs generalizing s with
  | nil => rfl
  | cons b bs ih =>
    have hhead (i : Nat) : b ≠ .release i := fun hb => hrelease i (hb ▸ List.mem_cons_self)
    have htail (i : Nat) : .release i ∉ bs := fun hb => hrelease i (List.mem_cons_of_mem _ hb)
    have hm : Moves hash servers s b (takes servers s b) (step hash servers s b) := step_moves s b
    obtain ⟨⟨hlen, hopens⟩, hturn⟩ := hm.turn hhead hsome
    have hrest := ih (s := step hash servers s b) htail
    rw [hlen, hopens] at hrest
    rcases hturn with ⟨hnone, hrridx⟩ | ⟨j, rest, hwait, hpick, hrridx⟩
    · rw [hrridx] at hrest
      rw [chosen, hnone]
      exact hrest hsome
    · rw [hrridx, waiting_turn hwait] at hrest
      rw [chosen, hpick, hwait, Option.toList_some, List.singleton_append, List.length_cons, turns]
      congr 1
      exact hrest (by simp)

theorem countP_opens (workers : List HttpWorker) :
    (List.range workers.length).countP (opens workers) = workers.countP HttpWorker.available := by
  induction workers with
  | nil => rfl
  | cons w workers ih =>
    have hsucc : opens (w :: workers) ∘ Nat.succ = opens workers := by
      funext i
      simp [opens]
    rw [List.length_cons, List.range_succ_eq_map, List.countP_cons, List.countP_map, hsucc, ih,
      List.countP_cons]
    rfl

/-- **The sockets are handed out evenly.** As long as no channel is released, each of the `k` workers
    that can take sockets gets the whole quotient of what `k` can share, or one more, whatever comes of
    sending and whatever the workers do in between. -/
theorem chosen_evenly (hash : Bytes → Nat) (servers : List ServerOptions) (s : HandOff)
    (bs : List HandOffAct) (hrelease : ∀ i, .release i ∉ bs) (i : Nat) (hi : opens s.workers i = true) :
    (chosen hash servers s bs).count i =
        (chosen hash servers s bs).length / s.workers.countP HttpWorker.available ∨
      (chosen hash servers s bs).count i =
        (chosen hash servers s bs).length / s.workers.countP HttpWorker.available + 1 := by
  have hlt : i < s.workers.length := by
    obtain ⟨w, hw, -⟩ := opens_iff.1 hi
    exact (List.getElem?_eq_some_iff.1 hw).1
  have hmem : i ∈ waiting s.workers.length (opens s.workers) s.rridx := mem_waiting.2 ⟨hlt, hi⟩
  have hcount := count_turns (nodup_waiting _ _ _) hmem (chosen hash servers s bs).length
  rwa [← chosen_turns bs hrelease (List.ne_nil_of_mem hmem), length_waiting, countP_opens] at hcount

theorem chosen_evenly_two :
    chosen sampleHash twoServers (start twoWorkers)
        [.accept true 0 false 7, .send .sent, .accept true 0 false 8, .send .failed, .ended 1,
          .accept true 1 true 9] = [0, 1, 0] ∧
      (([0, 1, 0] : List Nat).count 0 = 3 / 2 ∨ ([0, 1, 0] : List Nat).count 0 = 3 / 2 + 1) :=
  ⟨by decide +kernel, chosen_evenly sampleHash twoServers (start twoWorkers)
    [.accept true 0 false 7, .send .sent, .accept true 0 false 8, .send .failed, .ended 1,
      .accept true 1 true 9] (by simp) 0 (by decide +kernel)⟩

/-! ## A worker that cannot be reached -/

/-- The worker at this place has no connection, and these sockets were handed to it. -/
def Unreached (s : HandOff) (i : Nat) (socks : List Nat) : Prop :=
  ∃ w, s.workers[i]? = some w ∧ w.usock ≤ 1 ∧ w.sockets.Perm socks

theorem Unreached.other {i j : Nat} {socks : List Nat} (h : Unreached s i socks) (hij : j ≠ i)
    (f : HttpWorker → HttpWorker) : Unreached (s.onWorker j f) i socks := by
  obtain ⟨w, hw, hrest⟩ := h
  refine ⟨w, ?_, hrest⟩
  simp [onWorker, hij, hw]

theorem Unreached.same {i : Nat} {socks : List Nat} (h : Unreached s i socks) (j : Nat)
    {f : HttpWorker → HttpWorker} (hf : ∀ w, (f w).usock = w.usock ∧ (f w).sockets.Perm w.sockets) :
    Unreached (s.onWorker j f) i socks := by
  by_cases hij : j = i
  · subst hij
    obtain ⟨w, hw, husock, hsocks⟩ := h
    refine ⟨f w, ?_, by rw [(hf w).1]; exact husock, (hf w).2.trans hsocks⟩
    simp [onWorker, hw]
  · exact h.other hij f

/-- Nothing is sent to it. -/
theorem Unreached.ne {i j : Nat} {socks : List Nat} {w : HttpWorker} (h : Unreached s i socks)
    (hw : s.workers[j]? = some w) (husock : 1 < w.usock) : j ≠ i := by
  rintro rfl
  obtain ⟨w', hw', hno, -⟩ := h
  rw [hw] at hw'
  obtain rfl := Option.some.inj hw'
  omega

theorem Unreached.step {i : Nat} {socks : List Nat} (h : Unreached s i socks) (b : HandOffAct) :
    Unreached (step hash servers s b) i socks := by
  have hm : Moves hash servers s b (takes servers s b) (HandOff.step hash servers s b) := step_moves s b
  generalize takes servers s b = a, HandOff.step hash servers s b = s' at hm ⊢
  cases hm with
  | nothing => exact h
  | refused _ a hidle hgone => exact h
  | stranded _ a rridx phase hidle hthere hnobody hphase => exact h
  | begun _ a j rest hidle hwait => exact h
  | handed _ m j w hsending hw husock => exact h.other (h.ne hw husock) _
  | gaveUp _ m j hsending => exact h
  | renewed _ m j w usock hsending hw husock => exact h.other (h.ne hw husock) _
  | unreachable _ m j w usock hsending hw husock => exact h.other (h.ne hw husock) _
  | received _ j =>
    refine h.same j fun w => ⟨?_, HttpWorker.sockets_receive _ w⟩
    rw [HttpWorker.receive]
    split <;> rfl
  | ended _ j => exact h.same j fun w => ⟨rfl, HttpWorker.sockets_ended w⟩
  | released j => exact h.same j fun w => ⟨rfl, HttpWorker.sockets_release w⟩

/-- The pipe is broken, and no connection can be made again. -/
theorem unreached_of_failed {m : CtrlMsg} {i : Nat} {w : HttpWorker} (hsending : s.phase = .sending m i)
    (hw : s.workers[i]? = some w) (husock : 1 < w.usock) :
    Unreached (step hash servers s (.send (.pipe (-1)))) i w.sockets := by
  have hround : step hash servers s (.send (.pipe (-1)))
      = (s.onWorker i (HttpWorker.renew (-1))).drop m.sock := by
    simp only [step, hsending, hw, sendRound]
    rw [if_neg (by omega)]
    rfl
  rw [hround]
  refine ⟨w.renew (-1), ?_, show (-1 : Int) ≤ 1 by decide, HttpWorker.sockets_renew _ w⟩
  show (s.workers.modify i (HttpWorker.renew (-1)))[i]? = _
  simp [hw]

theorem run_opens {i : Nat} (bs : List HandOffAct) (hrelease : .release i ∉ bs) :
    opens (run hash servers s bs).workers i = opens s.workers i := by
  induction bs generalizing s with
  | nil => rfl
  | cons b bs ih =>
    rw [List.mem_cons, not_or] at hrelease
    exact (ih hrelease.2).trans ((step_moves s b).opens_same.2 i (Ne.symm hrelease.1))

/-- **Once the connection to a worker is gone, it gets nothing any more**: after a failed attempt to
    connect again, nothing that happens later gives it a connection or a socket. Until its channel is
    released, it is chosen as before. -/
theorem unreached_for_good (hash : Bytes → Nat) (servers : List ServerOptions) (s : HandOff) {m : CtrlMsg}
    {i : Nat} {w : HttpWorker} (hsending : s.phase = .sending m i) (hw : s.workers[i]? = some w)
    (husock : 1 < w.usock) (bs : List HandOffAct) :
    Unreached (run hash servers s (.send (.pipe (-1)) :: bs)) i w.sockets ∧
      (.release i ∉ bs →
        opens (run hash servers s (.send (.pipe (-1)) :: bs)).workers i = opens s.workers i) := by
  constructor
  · exact bs.foldlRecOn (motive := fun s => Unreached s i w.sockets) (step hash servers)
      (unreached_of_failed hsending hw husock) fun _ hs b _ => hs.step b
  · intro hrelease
    refine run_opens _ ?_
    rw [List.mem_cons, not_or]
    exact ⟨HandOffAct.noConfusion, hrelease⟩

/-- `EPIPE`, and no connection could be made again: the next socket whose turn comes there is closed. -/
theorem unreached_first :
    (run sampleHash twoServers (start twoWorkers) [.accept true 0 false 7]).phase
        = .sending (ctrlMsg sampleHash ⟨twoServers[0], false, 7⟩) 0 ∧
      Unreached (run sampleHash twoServers
        (run sampleHash twoServers (start twoWorkers) [.accept true 0 false 7])
        [.send (.pipe (-1)), .accept true 0 false 8, .send .sent, .accept true 0 false 9, .send .sent])
        0 [] := by
  have hsending : (run sampleHash twoServers (start twoWorkers) [.accept true 0 false 7]).phase
      = .sending (ctrlMsg sampleHash ⟨twoServers[0], false, 7⟩) 0 := by decide +kernel
  exact ⟨hsending, (unreached_for_good sampleHash twoServers _ hsending rfl (by decide) _).1⟩

end HandOff

end LibEvmvc
