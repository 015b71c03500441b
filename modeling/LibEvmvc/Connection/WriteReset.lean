import LibEvmvc.Connection.Frames

set_option autoImplicit false

/-! # The reset in the write event

`on_connection_write` resets the parser of a connection that is kept alive, whatever its state. It
takes for granted that what has been written out was the end of an answer. That is so as long as
answers are given in one piece and nothing of the next request is read before the answer to the last
one is out. -/

namespace LibEvmvc

/-- The states in which `on_connection_write` has reset the parser. -/
def writeResets (trace : List Mark) : List ParserState :=
  trace.filterMap fun
    | .writeReset s => some s
    | _ => none

/-- Nothing is lost: the request was done, or none had begun. -/
def ResetsOk (trace : List Mark) : Prop :=
  ∀ s ∈ writeResets trace, s = .completed ∨ s = .parseReqLine

theorem writeResets_validated (trace : List Mark) (id : Nat) (denied : Bool) :
    writeResets (trace ++ [.validated id denied]) = writeResets trace := by
  simp [writeResets]

theorem writeResets_exec (trace : List Mark) (id : Nat) :
    writeResets (trace ++ [.exec id]) = writeResets trace := by
  simp [writeResets]

theorem writeResets_writeReset (trace : List Mark) (s : ParserState) :
    writeResets (trace ++ [.writeReset s]) = writeResets trace ++ [s] := by
  simp [writeResets]

namespace World

/-! ## Reading -/

/-- The current request has been answered, or nothing has been written for it. -/
structure Untouched (w w' : World) : Prop where
  settled : w'.status = .completed ∨ (w'.out = w.out ∧ CurrentOpen w')
  resets : writeResets w'.trace = writeResets w.trace

/-- Settling a request that has not been answered. -/
theorem Quiet.untouched {w w₁ w₂ : World} (hq : Quiet w₁ w₂) (hs : Settles w₁ w₂)
    (hopen : CurrentOpen w₁) (hout : w₁.out = w.out)
    (hresets : writeResets w₁.trace = writeResets w.trace) : Untouched w w₂ := by
  refine ⟨?_, by rw [hq.trace]; exact hresets⟩
  rcases hs with hdone | ⟨-, hsame, hended⟩
  · exact Or.inl hdone
  · refine Or.inr ⟨hsame.trans hout, fun id hid => ?_⟩
    rw [hended id]
    exact hopen id (hq.res.symm.trans hid)

variable (env : ConnEnv)

theorem validateHeaders_untouched {w : World} (hopen : CurrentOpen w) :
    Untouched w (validateHeaders env w).1 := by
  have hcases := validateHeaders_cases env w
  generalize validateHeaders env w = r at hcases ⊢
  cases hcases with
  | noHost => exact ⟨Or.inr ⟨rfl, hopen⟩, rfl⟩
  | badUrl => exact ⟨Or.inr ⟨rfl, hopen⟩, rfl⟩
  | now found denied hacc =>
    obtain ⟨htrace, hout, -⟩ := w.candidate_frame found
    have hopen' : CurrentOpen ((w.candidate found).mark (.validated w.nextId denied)) :=
      w.candidate_open found
    have hresets : writeResets ((w.candidate found).mark (.validated w.nextId denied)).trace
        = writeResets w.trace := by
      rw [← htrace]
      exact writeResets_validated _ w.nextId denied
    exact (quiet_validated w.nextId denied (!found) _).untouched
      (settles_validated (w.candidate_open found).endedIsDone w.nextId denied (!found)) hopen' hout
      hresets
  | later found hacc =>
    obtain ⟨htrace, hout, -⟩ := w.candidate_frame found
    exact ⟨Or.inr ⟨hout, w.candidate_open found⟩, congrArg writeResets htrace⟩

theorem initBody_untouched {w : World} (hopen : CurrentOpen w) : Untouched w (initBody w) := by
  unfold initBody
  simp only
  split
  · split
    · next id hid =>
      have hopen' : CurrentOpen ((w.setParser { w.parser with
          uploaded := 0, mpBuf := some [], mpCompleted := w.parser.bodySize = 0 }).setStatus
          .readyToExec) := hopen
      exact (quiet_resumeRes quiet_connResume id _).untouched
        (resumes_connResume.resumeRes hopen'.endedIsDone id) hopen' rfl rfl
    · exact ⟨Or.inr ⟨rfl, hopen⟩, rfl⟩
  · exact ⟨Or.inr ⟨rfl, hopen⟩, rfl⟩

theorem postHeadersValidation_untouched {w : World} (hs : w.status = .parseHeader)
    (hopen : CurrentOpen w) : Untouched w (postHeadersValidation env w).1 := by
  have hcases := postHeadersValidation_cases env hs
  generalize postHeadersValidation env w = r at hcases ⊢
  cases hcases with
  | typed n cl ct =>
    have hopen' : CurrentOpen ((w.setParser { w.parser with bodySize := n }).setStatus
      (contentState env ct)) := hopen
    have hbody := initBody_untouched hopen'
    exact ⟨hbody.settled, hbody.resets⟩
  | _ => exact ⟨Or.inr ⟨rfl, hopen⟩, rfl⟩

/-- **The end of the headers writes nothing, or a whole answer.** -/
theorem endOfHeaders_untouched {w : World} (hopen : CurrentOpen w) :
    Untouched w (endOfHeaders env w).1 := by
  have hval := validateHeaders_untouched env hopen
  unfold endOfHeaders
  split
  · next hv =>
    rw [hv] at hval
    exact hval
  · next w₁ hv =>
    rw [hv] at hval
    by_cases hhead : w₁.status = .parseHeader
    · have hopen₁ := validateHeaders_open env hv hhead
      have hpost := postHeadersValidation_untouched env hhead hopen₁
      have hout : w₁.out = w.out := by
        refine (hval.settled.resolve_left fun hdone => ?_).1
        rw [show World.status _ = _ from hhead] at hdone
        cases hdone
      exact ⟨hpost.settled.imp_right fun h => ⟨h.1.trans hout, h.2⟩, hpost.resets.trans hval.resets⟩
    · rw [postHeadersValidation_skip env hhead]
      exact hval

/-- What reading keeps. -/
structure Reading (w : World) : Prop where
  ended : EndedIsDone w
  out : w.out = true → w.status = .completed
  resets : ResetsOk w.trace

theorem Reading.untouched {w w' : World} (h : Reading w) (hs : w.status ≠ .completed)
    (hu : Untouched w w') : Reading w' := by
  refine ⟨?_, ?_, by unfold ResetsOk; rw [hu.resets]; exact h.resets⟩
  · rcases hu.settled with hdone | ⟨-, hopen⟩
    · exact .of_completed hdone
    · exact hopen.endedIsDone
  · intro hout
    refine hu.settled.resolve_right fun hrest => hs (h.out ?_)
    rw [← hrest.1]
    exact hout

theorem Reading.setParser {w : World} (h : Reading w) (hs : w.status ≠ .completed) {p : HttpParser}
    (hp : p.res = w.parser.res) : Reading (w.setParser p) :=
  h.untouched hs ⟨Or.inr ⟨rfl, fun id hid => h.ended.currentOpen hs id (hp.symm.trans hid)⟩, rfl⟩

theorem Reading.reset {w : World} (h : Reading w) (hs : w.status ≠ .completed) :
    Reading w.reset := by
  obtain ⟨htrace, hout, -⟩ := w.reset_frame
  exact h.untouched hs ⟨Or.inr ⟨hout, w.reset_currentOpen⟩, congrArg writeResets htrace⟩

theorem parseBody_reading {w : World} (h : Reading w) (hs : w.status.parsingBody = true)
    (data : Bytes) : Reading (parseBody env w data).1 := by
  have hopen : w.status ≠ .completed := by
    intro hdone
    rw [hdone] at hs
    cases hs
  have hstep := parseBody_cases env w data
  generalize (parseBody env w data).1 = w' at hstep
  cases hstep with
  | ignored => exact h
  | crash => exact ⟨h.ended, h.out, h.resets⟩
  | more p hhead hres => exact h.setParser hopen hres
  | done p hhead hres => exact h.setParser hopen hres
  | failed p hhead hres id hid =>
    have hp := h.setParser hopen hres
    have hdone := resumes_connResume.reply_current hp.ended (hres.trans hid)
    exact ⟨.of_completed hdone, fun _ => hdone, by
      rw [(quiet_reply quiet_connResume id _).trace]; exact hp.resets⟩

theorem Reading.setHead {w : World} (h : Reading w)
    (hs : w.status = .parseReqLine ∨ w.status = .parseHeader) {p : ParserHead} :
    Reading (w.setParser { w.parser with head := p }) := by
  refine h.setParser ?_ rfl
  rcases hs with hs | hs
  · rw [hs]; decide
  · rw [hs]; decide

theorem Reading.endOfHeaders {w : World} (h : Reading w) (hs : w.status = .parseHeader) :
    Reading (World.endOfHeaders env w).1 := by
  have hopen : w.status ≠ .completed := by rw [hs]; decide
  exact h.untouched hopen (endOfHeaders_untouched env (h.ended.currentOpen hopen))

/-- **Reading writes nothing, or a whole answer.** -/
theorem reading_loop : LoopInvariant (host env) Reading where
  setHead _ _ h hs _ := h.setHead hs
  resetHead _ p h hs hp := (h.setHead (Or.inl hs)).reset (by show p.status ≠ _; rw [hp]; decide)
  endOfHeaders _ h hs _ := h.endOfHeaders env hs
  threw _ h hs hthrow := (h.endOfHeaders env hs).reset (by
    rw [show World.status _ = _ from endOfHeaders_threw_status env hs hthrow]; decide)
  parseBody w data h hs := parseBody_reading env h hs data
  crash w h := ⟨h.ended, h.out, h.resets⟩

/-! ## Answering -/

/-- What handlers keep that do not stream events: an answer that is not complete is a file. -/
structure Answering (w : World) : Prop where
  ended : EndedIsDone w
  status : w.status = .responding ∨ w.status = .completed
  out : w.out = true → w.status = .completed ∨ w.sendingFile = true
  resets : ResetsOk w.trace

theorem sendFile_sending (id : Nat) (chunks : List Bool) (w : World) :
    (sendFile id chunks w).1.sendingFile = true := by
  have hstart := quiet_replyStart id { w with sendingFile := true, file := chunks }
  unfold sendFile
  split
  · next h => exact h
  · simp only
    split
    · rfl
    · exact hstart.sendingFile rfl

theorem Answering.runAct {w : World} (h : Answering w) {id : Nat} (hid : w.parser.res = some id)
    {a : HandlerAct} (ha : a ≠ .event) : Answering (runAct id w a).1 where
  ended := runAct_endedIsDone h.ended id a
  status := by
    rcases runAct_status h.ended id a with hsame | hdone
    · rw [hsame]
      exact h.status
    · exact Or.inr hdone
  out _ := by
    cases a with
    | reply => exact Or.inl (resumes_connResume.reply_current h.ended hid)
    | event => exact absurd rfl ha
    | file chunks => exact Or.inr (sendFile_sending id chunks w)
  resets := by
    rw [(quiet_runAct id w a).trace]
    exact h.resets

/-- What every reachable state keeps: the output is the end of an answer, or a file. -/
structure Flushing (w : World) : Prop where
  ended : EndedIsDone w
  out : w.out = true → w.status = .completed ∨ w.status = .parseReqLine ∨
    (w.sendingFile = true ∧ w.status = .responding)
  resets : ResetsOk w.trace

theorem Reading.flushing {w : World} (h : Reading w) : Flushing w :=
  ⟨h.ended, fun hout => Or.inl (h.out hout), h.resets⟩

theorem Answering.flushing {w : World} (h : Answering w) : Flushing w := by
  refine ⟨h.ended, fun hout => ?_, h.resets⟩
  rcases h.out hout with hdone | hfile
  · exact Or.inl hdone
  · rcases h.status with hresp | hdone
    · exact Or.inr (Or.inr ⟨hfile, hresp⟩)
    · exact Or.inl hdone

theorem Flushing.answering {w : World} (h : Flushing w) (hs : w.status = .responding) :
    Answering w := by
  refine ⟨h.ended, Or.inl hs, fun hout => ?_, h.resets⟩
  have hstate := h.out hout
  rw [hs] at hstate
  exact Or.inr (by simpa using hstate)

theorem Flushing.reading {w : World} (h : Flushing w) (hout : w.out = false) : Reading w := by
  refine ⟨h.ended, fun h' => ?_, h.resets⟩
  rw [hout] at h'
  cases h'

/-- Nothing is waiting to be written when the handlers start. -/
theorem Flushing.silent {w : World} (h : Flushing w) (hs : w.status = .readyToExec) :
    w.out = false := by
  by_contra hout
  have hstate := h.out (by simpa using hout)
  rw [hs] at hstate
  simp at hstate

theorem fresh_flushing : Flushing fresh := by
  refine ⟨?_, nofun, nofun⟩
  intro id hid
  cases hid

theorem Flushing.reset {w : World} (h : Flushing w) : Flushing w.reset := by
  refine ⟨w.reset_currentOpen.endedIsDone, fun _ => Or.inr (Or.inl w.reset_status), ?_⟩
  rw [w.reset_frame.1]
  exact h.resets

theorem Flushing.renew {w : World} (h : Flushing w) :
    Flushing w.renew ∧ w.renew.out = w.out := by
  unfold World.renew
  split
  · exact ⟨h.reset, w.reset_frame.2.1⟩
  · exact ⟨h, rfl⟩

section Handlers

variable (hacts : ∀ id h, .event ∉ env.handler id h)

include hacts in
/-- **Handlers answer in one piece, or send a file.** -/
theorem exec_flushing {w : World} (h : Flushing w) (hs : w.status = .readyToExec) :
    Flushing (exec env w) := by
  have hsilent := h.silent hs
  have hopen : CurrentOpen w := h.ended.currentOpen (by rw [hs]; decide)
  unfold exec
  split
  · exact ⟨h.ended, h.out, h.resets⟩
  · next id hid =>
    have hstart : Answering ((w.setStatus .responding).mark (.exec id)) := by
      refine ⟨CurrentOpen.endedIsDone hopen, Or.inl rfl, fun hout => ?_, ?_⟩
      · exact absurd (hsilent.symm.trans hout) (by decide)
      · show ResetsOk (w.trace ++ [.exec id])
        unfold ResetsOk
        rw [writeResets_exec]
        exact h.resets
    have hbegin : ((w.setStatus .responding).mark (.exec id)).parser.res = some id ∧
        Answering ((w.setStatus .responding).mark (.exec id)) := ⟨hid, hstart⟩
    have hdone := answer_invariant env id
      (I := fun w' => w'.parser.res = some id ∧ Answering w') (fun w' a ha hw' => ?_) hbegin
    · exact ⟨hdone.2.flushing.ended, hdone.2.flushing.out, hdone.2.flushing.resets⟩
    · refine ⟨(quiet_runAct id w' a).res.trans hw'.1, hw'.2.runAct hw'.1 ?_⟩
      rintro rfl
      rcases ha with hmem | hreply
      · exact hacts id _ hmem
      · cases hreply

end Handlers

/-! ## Writing -/

theorem sendFileChunk_flushing {w : World} (h : Flushing w) (hfile : w.sendingFile = true)
    (hs : w.status = .completed ∨ w.status = .parseReqLine ∨ w.status = .responding) :
    Flushing w.sendFileChunk := by
  unfold sendFileChunk
  split
  · exact ⟨h.ended, fun _ => hs.imp_right (Or.imp_right fun hresp => ⟨hfile, hresp⟩), h.resets⟩
  · have hdone := resumes_connResume.completeResponse { w.putOut with sendingFile := false }
    have hq := quiet_completeResponse quiet_connResume { w.putOut with sendingFile := false }
    refine ⟨.of_completed hdone, fun _ => Or.inl hdone, ?_⟩
    rw [hq.trace]
    exact h.resets

theorem validated_flushing {w : World} (h : Flushing w) (id : Nat) (denied notFound : Bool) :
    Flushing (w.validated id denied notFound) := by
  have hq := quiet_validated id denied notFound w
  have hresets : ResetsOk (w.validated id denied notFound).trace := by
    rw [hq.trace]
    show ResetsOk (w.trace ++ [.validated id denied])
    unfold ResetsOk
    rw [writeResets_validated]
    exact h.resets
  refine ⟨endedIsDone_validated h.ended id denied notFound, fun hout => ?_, hresets⟩
  rcases settles_validated h.ended id denied notFound with hdone | ⟨hsame, hout', -⟩
  · exact Or.inl hdone
  · rw [hsame]
    exact (h.out (hout'.symm.trans hout)).imp_right (Or.imp_right (And.imp_left hq.sendingFile))

end World

namespace Conn

variable (env : ConnEnv)

/-- What keeps the write event apart from requests in progress: it comes after something has been
    written; until it comes, no line of another request does; and a handler that acts after it has
    returned acts on the request being answered, and does not stream events. -/
def WriteOk (c : Conn) : Event → Prop
  | .write => c.world.out = true
  | .read data => c.world.out = true → c.world.status ≠ .responding → NoCrlf (c.bevIn ++ data)
  | .act id a => c.world.parser.res = some id ∧ c.world.status = .responding ∧ a ≠ .event
  | _ => True

theorem onWrite_flushing {w : World} (h : World.Flushing w) (hout : w.out = true) :
    World.Flushing (onWrite env { w with out := false }) := by
  have hstate := h.out hout
  have hw : World.Flushing { w with out := false } := ⟨h.ended, nofun, h.resets⟩
  unfold onWrite
  split
  · exact hw
  · split
    · next hs =>
      have hs' : w.status = .readyToExec := hs
      rw [hs'] at hstate
      simp at hstate
    · split
      · next hfile =>
        exact World.sendFileChunk_flushing hw hfile (hstate.imp_right (Or.imp_right And.right))
      · next hfile =>
        split
        · have hmark : World.Flushing
              (World.mark { w with out := false } (.writeReset w.status)) := by
            refine ⟨h.ended, nofun, fun s hs => ?_⟩
            rw [show World.trace _ = w.trace ++ [.writeReset w.status] from rfl,
              writeResets_writeReset] at hs
            rcases List.mem_append.1 hs with hold | hlast
            · exact h.resets s hold
            · rw [List.mem_singleton.1 hlast]
              -- a request that is being answered is sending a file, and does not come here
              exact hstate.imp_right fun hrest => hrest.resolve_right fun hsend => hfile hsend.1
          exact hmark.reset
        · exact ⟨hw.ended, hw.out, hw.resets⟩

section Handlers

variable (hacts : ∀ id h, .event ∉ env.handler id h)

include hacts in
theorem afterRead_flushing {c : Conn} {r : ParseResult World} (h : World.Flushing r.world) :
    World.Flushing (c.afterRead env r).world := by
  have hparse : World.Flushing (c.afterParse r).world := h
  unfold afterRead
  simp only
  split
  · exact hparse
  · split
    · exact ⟨hparse.ended, hparse.out, hparse.resets⟩
    · split
      · exact hparse
      · split
        · next hs => exact World.exec_flushing env hacts hparse hs
        · exact hparse

include hacts in
/-- **A read writes whole answers, if nothing is waiting to be written or no line comes in.** -/
theorem onRead_flushing {c : Conn} (h : World.Flushing c.world)
    (hread : c.world.out = true → c.world.status ≠ .responding → NoCrlf c.bevIn) :
    World.Flushing (c.onRead env).world := by
  obtain ⟨hrenew, hsame⟩ := h.renew
  unfold onRead
  split
  · exact hrenew
  · next hgo =>
    rw [not_or] at hgo
    refine afterRead_flushing env hacts ?_
    -- while output is waiting, the parser is at a request line and no line comes in; else
    -- whatever is written is written in this call
    by_cases hout : c.world.out = true
    · have hline : c.world.renew.status = .parseReqLine := by
        refine ((hrenew.out (hsame.trans hout)).resolve_left c.world.renew_status.2).resolve_right ?_
        exact fun hfile => hgo.1 hfile.2
      have hnotResp : c.world.status ≠ .responding := by
        intro hresp
        have hstays : c.world.renew = c.world := if_neg (by rw [hresp]; decide)
        exact hgo.1 (by rw [hstays]; exact hresp)
      rw [parse_noCrlf hline (Or.inl rfl) (hread hout hnotResp)]
      exact hrenew
    · have hreading := hrenew.reading (hsame.trans (by simpa using hout))
      exact ((World.reading_loop env).parse hreading c.world.renew_status.1 c.bevIn).flushing

include hacts in
theorem onResume_flushing {c : Conn} (h : World.Flushing c.world) :
    World.Flushing (c.onResume env).world := by
  have hw : World.Flushing { c.world with paused := false, resumeActive := false } :=
    ⟨h.ended, h.out, h.resets⟩
  unfold onResume
  simp only
  split
  · next hs => exact World.exec_flushing env hacts hw hs
  · split
    · exact hw
    · next hout =>
      split
      · exact hw
      · exact onRead_flushing env hacts hw fun hout' => absurd hout' hout

include hacts in
/-- **Every step that meets the condition leaves only ends of answers and files to be written.** -/
theorem step_flushing (c : Conn) (e : Event) (h : World.Flushing c.world) (hok : WriteOk c e) :
    World.Flushing (c.step env e).world := by
  unfold step
  split
  · exact h
  · cases e with
    | read data => exact onRead_flushing env hacts (c := { c with bevIn := c.bevIn ++ data }) h hok
    | write => exact onWrite_flushing env h hok
    | resume =>
      show World.Flushing (if c.world.resumeActive then c.onResume env else c).world
      split
      · exact onResume_flushing env hacts h
      · exact h
    | verdict id denied =>
      simp only [handle]
      split
      · exact h
      · next id' notFound hfind =>
        have hw : World.Flushing (c.world.unpend id) := ⟨h.ended, h.out, h.resets⟩
        exact World.validated_flushing hw id denied notFound
    | act id a =>
      obtain ⟨hid, hs, ha⟩ := hok
      simp only [handle]
      split
      · exact ((h.answering hs).runAct hid ha).flushing
      · exact h

include hacts in
/-- **The write event discards no request in progress**, in any run in which it comes after output,
    no line of another request comes before it, and answers are given in one piece or as files. -/
theorem writeReset_between_requests {es : List Event} (hes : AllSteps env WriteOk .fresh es) :
    ResetsOk (fresh.run env es).world.trace :=
  (run_invariant env (I := fun c => World.Flushing c.world) (step_flushing env hacts)
    World.fresh_flushing hes).resets

end Handlers

end Conn

/-- A request without a body. -/
def getHost : Bytes := bytes "GET / HTTP/1.1" ++ crlf ++ bytes "Host: a" ++ crlf ++ crlf

theorem writeReset_between_requests_two :
    ResetsOk (Conn.fresh.run (plainEnv (.now false) [.reply])
        [.read getHost, .write, .read getHost, .resume, .write]).world.trace ∧
      writeResets (Conn.fresh.run (plainEnv (.now false) [.reply])
        [.read getHost, .write, .read getHost, .resume, .write]).world.trace
        = [.completed, .completed] := by
  refine ⟨Conn.writeReset_between_requests _ ?_ ?_, by decide⟩
  · intro id h
    show HandlerAct.event ∉ [HandlerAct.reply]
    decide
  · refine ⟨?_, ?_, ?_, trivial, ?_, trivial⟩
    · intro hout
      cases hout
    · show World.out _ = true
      decide
    · intro hout
      exact absurd hout (by decide)
    · show World.out _ = true
      decide

/-- The answer to the first request is written out when the head of the second is half read. -/
theorem writeReset_drops_head :
    ¬ ResetsOk (Conn.fresh.run (plainEnv (.now false) [.reply])
      [.read getHost, .resume, .read (bytes "GET /b HTTP/1.1" ++ crlf ++ bytes "Host: a" ++ crlf),
        .write]).world.trace := by
  have hresets : writeResets (Conn.fresh.run (plainEnv (.now false) [.reply])
      [.read getHost, .resume, .read (bytes "GET /b HTTP/1.1" ++ crlf ++ bytes "Host: a" ++ crlf),
        .write]).world.trace = [.parseHeader] := by decide
  unfold ResetsOk
  rw [hresets]
  decide

end LibEvmvc
