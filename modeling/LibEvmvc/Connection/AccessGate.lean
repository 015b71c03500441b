import LibEvmvc.Connection.Frames

set_option autoImplicit false

/-! # No handler before its verdict

A request whose access rules are still at work is held back by three flags: its response is paused
and not being resumed, and the connection is paused. As long as they stand, neither reads nor writes
reach `exec`. Everything that clears them for another reason than the verdict lets the handlers in:
the resume event, a verdict on another response, and the zero-length body, which resumes the
response itself. -/

namespace LibEvmvc

/-- The request has a head and no answer yet: a body is being read, or the handlers are next. -/
def ParserState.active (s : ParserState) : Bool := s.parsingBody || s == .readyToExec

/-- Every `exec` comes after a verdict without error on the same response, and after no other. -/
def TraceOk (trace : List Mark) : Prop :=
  ∀ before after id, trace = before ++ .exec id :: after →
    .validated id false ∈ before ∧ .validated id true ∉ before

theorem traceOk_nil : TraceOk [] := by
  intro before after id h
  simp at h

theorem TraceOk.snoc {trace : List Mark} (h : TraceOk trace) {m : Mark}
    (hm : ∀ id, m = .exec id → .validated id false ∈ trace ∧ .validated id true ∉ trace) :
    TraceOk (trace ++ [m]) := by
  intro before after id heq
  -- the `exec` is the new mark, or it was there before
  rcases List.eq_nil_or_concat after with rfl | ⟨after, x, rfl⟩
  · obtain ⟨rfl, hlast⟩ := List.append_inj' heq rfl
    exact hm id (List.singleton_inj.1 hlast)
  · rw [List.concat_eq_append, ← List.cons_append, ← List.append_assoc] at heq
    exact h before after id (List.append_inj' heq rfl).1

namespace World

/-! ## The invariant -/

/-- What holds of the responses, whatever the parser is doing. -/
structure Sound (w : World) : Prop where
  order : TraceOk w.trace
  ended : EndedIsDone w
  handled : ∀ id ∈ w.handling, id < w.nextId ∧ (w.ctl id).paused = false
  waiting : ∀ e ∈ w.pending, e.1 < w.nextId
  /-- a response gets one verdict -/
  once : ∀ id denied, .validated id denied ∈ w.trace →
    id < w.nextId ∧ ∀ notFound, (id, notFound) ∉ w.pending

/-- The response has been let through. -/
structure Cleared (w : World) (id : Nat) : Prop where
  granted : .validated id false ∈ w.trace
  notDenied : .validated id true ∉ w.trace
  unpaused : (w.ctl id).paused = false

/-- The response is held back, and everything with it. -/
structure Held (w : World) (id : Nat) : Prop where
  connPaused : w.paused = true
  paused : (w.ctl id).paused = true
  notResuming : (w.ctl id).resuming = false

/-- The response is held back until its access rules call back. -/
structure Awaits (w : World) (id : Nat) : Prop extends Held w id where
  pending : ∃ notFound, (id, notFound) ∈ w.pending

/-- The current request has its verdict, or waits for it. -/
def Guarded (w : World) : Prop :=
  ∃ id, w.parser.res = some id ∧ id < w.nextId ∧ (Cleared w id ∨ Awaits w id)

/-- What every reachable state keeps. -/
structure Gate (w : World) : Prop extends Sound w where
  current : w.status.active = true → Guarded w

/-- The current request is under way, and its access rules are still at work. -/
def AwaitingVerdict (w : World) : Prop :=
  w.status.active = true ∧ ∃ id notFound, w.parser.res = some id ∧ (id, notFound) ∈ w.pending

theorem Awaits.awaitingVerdict {w : World} {id : Nat} (h : Awaits w id)
    (hid : w.parser.res = some id) (hs : w.status.active = true) : AwaitingVerdict w := by
  obtain ⟨notFound, hmem⟩ := h.pending
  exact ⟨hs, id, notFound, hid, hmem⟩

theorem Sound.gate {w : World} (h : Sound w) (hs : w.status.active = false) : Gate w := by
  refine ⟨h, fun hactive => ?_⟩
  rw [hs] at hactive
  cases hactive

theorem Sound.gate_done {w : World} (h : Sound w) (hs : w.status = .completed) : Gate w := by
  refine h.gate ?_
  rw [hs]
  rfl

theorem Gate.soundAnd {w : World} (h : Gate w) {p : Prop} : Sound w ∧ (p → Gate w) :=
  ⟨h.toSound, fun _ => h⟩

theorem fresh_gate : Gate fresh := by
  refine Sound.gate ⟨traceOk_nil, ?_, nofun, nofun, nofun⟩ rfl
  intro id hid
  cases hid

theorem Sound.quiet {w w' : World} (h : Sound w) (hq : Quiet w w') (hended : EndedIsDone w') :
    Sound w' where
  order := by rw [hq.trace]; exact h.order
  ended := hended
  handled id hid := by
    rw [hq.handling] at hid
    rw [hq.nextId]
    exact (h.handled id hid).imp_right (hq.unpaused id)
  waiting := by rw [hq.pending, hq.nextId]; exact h.waiting
  once := by rw [hq.trace, hq.nextId, hq.pending]; exact h.once

theorem Sound.mark {w : World} (h : Sound w) {m : Mark}
    (hexec : ∀ id, m = .exec id → .validated id false ∈ w.trace ∧ .validated id true ∉ w.trace)
    (hval : ∀ id denied, m = .validated id denied →
      id < w.nextId ∧ ∀ notFound, (id, notFound) ∉ w.pending) : Sound (w.mark m) := by
  refine ⟨h.order.snoc hexec, h.ended, h.handled, h.waiting, fun id denied hmem => ?_⟩
  rcases List.mem_append.1 hmem with hold | hlast
  · exact h.once id denied hold
  · exact hval id denied (List.mem_singleton.1 hlast).symm

/-- A verdict on a response that has had none, and is no longer waited for. -/
theorem Sound.validated {w : World} (h : Sound w) {id : Nat} (hid : id < w.nextId)
    (hgone : ∀ notFound, (id, notFound) ∉ w.pending) (denied notFound : Bool) :
    Sound (w.validated id denied notFound) := by
  have hmark : Sound (w.mark (.validated id denied)) := by
    refine h.mark nofun ?_
    rintro i d ⟨⟩
    exact ⟨hid, hgone⟩
  exact hmark.quiet (quiet_validated id denied notFound w) (endedIsDone_validated h.ended id denied _)

/-- The two differ in nothing the gate looks at, up to the state of the parser. -/
structure Alike (w w' : World) : Prop where
  res : w'.parser.res = w.parser.res
  trace : w'.trace = w.trace
  ctl : w'.ctl = w.ctl
  nextId : w'.nextId = w.nextId
  paused : w'.paused = w.paused
  pending : w'.pending = w.pending
  handling : w'.handling = w.handling

theorem alike_setParser (w : World) {p : HttpParser} (hp : p.res = w.parser.res) :
    Alike w (w.setParser p) := ⟨hp, rfl, rfl, rfl, rfl, rfl, rfl⟩

theorem Sound.alike {w w' : World} (h : Sound w) (ha : Alike w w')
    (hs : w.status = .completed → w'.status = .completed) : Sound w' where
  order := by rw [ha.trace]; exact h.order
  ended id hid hend := by
    rw [ha.res] at hid
    rw [ha.ctl] at hend
    exact hs (h.ended id hid hend)
  handled := by rw [ha.handling, ha.nextId, ha.ctl]; exact h.handled
  waiting := by rw [ha.pending, ha.nextId]; exact h.waiting
  once := by rw [ha.trace, ha.nextId, ha.pending]; exact h.once

theorem Guarded.alike {w w' : World} (h : Guarded w) (ha : Alike w w') : Guarded w' := by
  obtain ⟨id, hid, hlt, hwait⟩ := h
  refine ⟨id, ha.res.trans hid, by rw [ha.nextId]; exact hlt, ?_⟩
  rcases hwait with hcleared | hawaits
  · refine Or.inl ⟨?_, ?_, ?_⟩
    · rw [ha.trace]; exact hcleared.granted
    · rw [ha.trace]; exact hcleared.notDenied
    · rw [ha.ctl]; exact hcleared.unpaused
  · refine Or.inr ⟨⟨ha.paused.trans hawaits.connPaused, ?_, ?_⟩, ?_⟩
    · rw [ha.ctl]; exact hawaits.paused
    · rw [ha.ctl]; exact hawaits.notResuming
    · rw [ha.pending]; exact hawaits.pending

theorem Gate.alike {w w' : World} (h : Gate w) (ha : Alike w w') (hs : w'.status = w.status) :
    Gate w' :=
  ⟨h.toSound.alike ha hs.trans, fun hactive => (h.current (by rw [← hs]; exact hactive)).alike ha⟩

theorem Sound.reset {w : World} (h : Sound w) : Gate w.reset := by
  obtain ⟨htrace, -, hnext, hpending, hhandling, hpaused⟩ := w.reset_frame
  refine Sound.gate ⟨?_, ?_, ?_, ?_, ?_⟩ ?_
  · rw [htrace]
    exact h.order
  · exact w.reset_currentOpen.endedIsDone
  · rw [hhandling, hnext]
    exact fun id hid => (h.handled id hid).imp_right (hpaused id).trans
  · rw [hpending, hnext]
    exact h.waiting
  · rw [htrace, hnext, hpending]
    exact h.once
  · rw [w.reset_status]
    rfl

theorem Gate.renew {w : World} (h : Gate w) : Gate w.renew := by
  unfold World.renew
  split
  · exact h.toSound.reset
  · exact h

/-! ## The verdict on the current request -/

/-- The response has been given the closure for its verdict. -/
def called (w : World) (id : Nat) (denied notFound : Bool) : World :=
  (w.mark (.validated id denied)).setCtl id fun r => { r with resumeCb := some ⟨denied, notFound⟩ }

/-- The connection has been resumed, the response not yet. -/
def heard (w : World) (id : Nat) (denied notFound : Bool) : World :=
  ((w.called id denied notFound).setCtl id fun r => { r with resuming := true }).setPaused false

theorem called_ctl (w : World) (id : Nat) (denied notFound : Bool) :
    (w.called id denied notFound).ctl id =
      { w.ctl id with resumeCb := some ⟨denied, notFound⟩ } := setCtl_self ..

theorem heard_ctl (w : World) (id : Nat) (denied notFound : Bool) :
    (w.heard id denied notFound).ctl id =
      { w.ctl id with resumeCb := some ⟨denied, notFound⟩, resuming := true } := by
  show ((w.called id denied notFound).setCtl id fun r => { r with resuming := true }).ctl id = _
  rw [setCtl_self, called_ctl]

theorem heard_endedIsDone {w : World} (hj : EndedIsDone w) (id : Nat) (denied notFound : Bool) :
    EndedIsDone (w.heard id denied notFound) := by
  have hj' : EndedIsDone (w.mark (.validated id denied)) := hj
  have hcalled : EndedIsDone (w.called id denied notFound) :=
    hj'.settles (quiet_setCtl _ id fun _ => by rfl) (settles_setCtl _ id fun _ => by rfl)
  have hflag : EndedIsDone ((w.called id denied notFound).setCtl id
      fun r => { r with resuming := true }) :=
    hcalled.settles (quiet_setCtl _ id fun _ => by rfl) (settles_setCtl _ id fun _ => by rfl)
  exact hflag

theorem connResume_paused {w : World} {id : Nat} (hconn : w.paused = true)
    (hid : w.parser.res = some id) : connResume w = (finishResume id (w.setPaused false)).wake := by
  have hid' : (w.setPaused false).parser.res = some id := hid
  unfold connResume
  rw [hconn, if_neg (by decide)]
  simp only [hid']

/-- **The verdict on a response that is held back resumes it.** -/
theorem validated_held {w : World} {id : Nat} (hid : w.parser.res = some id)
    (h : Held w id) (denied notFound : Bool) :
    w.validated id denied notFound =
      ((runResumeCb id (some ⟨denied, notFound⟩) ((w.heard id denied notFound).setCtl id
        .unpaused)).setCtl id .withoutCb).wake := by
  have hwait : ¬ ((w.ctl id).paused = false ∨ (w.ctl id).resuming = true) := by
    rw [h.paused, h.notResuming]
    decide
  have hwait' : ¬ (((w.called id denied notFound).ctl id).paused = false ∨
      ((w.called id denied notFound).ctl id).resuming = true) := by
    rw [called_ctl]
    exact hwait
  have hgo : ¬ (((w.heard id denied notFound).ctl id).paused = false ∨
      ((w.heard id denied notFound).ctl id).resuming = false) := by
    rw [heard_ctl]
    show ¬ ((w.ctl id).paused = false ∨ true = false)
    rw [h.paused]
    decide
  calc w.validated id denied notFound
    _ = resumeRes connResume id (w.called id denied notFound) := if_neg hwait
    _ = connResume ((w.called id denied notFound).setCtl id fun r => { r with resuming := true }) :=
      if_neg hwait'
    _ = (finishResume id (w.heard id denied notFound)).wake := connResume_paused h.connPaused hid
    _ = _ := by rw [finishResume, if_neg hgo, heard_ctl]

/-- A rejection ends the request it is about. -/
theorem validated_denied {w : World} {id : Nat} (hid : w.parser.res = some id) (h : Held w id)
    (hj : EndedIsDone w) (notFound : Bool) : (w.validated id true notFound).status = .completed := by
  have hj' := heard_endedIsDone hj id true notFound
  have hreply := resumes_id.reply_current (hj'.settles (quiet_unpaused _ id)
    (settles_setCtl _ id fun _ => by rfl)) hid
  rw [validated_held hid h, runResumeCb, if_pos (Or.inl rfl)]
  exact hreply

/-- Any verdict unpauses the response. -/
theorem validated_unpaused {w : World} {id : Nat} (hid : w.parser.res = some id) (h : Held w id)
    (denied notFound : Bool) : ((w.validated id denied notFound).ctl id).paused = false := by
  have hun : (((w.heard id denied notFound).setCtl id .unpaused).ctl id).paused = false := by
    rw [setCtl_self]
    rfl
  rw [validated_held hid h]
  show (((runResumeCb id _ _).setCtl id .withoutCb).ctl id).paused = false
  rw [setCtl_self]
  exact (quiet_runResumeCb id _ _).unpaused id hun

/-- **A verdict ends the request it is about, or lets it through.** -/
theorem Held.validated {w : World} {id : Nat} (h : Held w id) (hid : w.parser.res = some id)
    (hj : EndedIsDone w) (hnew : .validated id true ∉ w.trace) (denied notFound : Bool) :
    (w.validated id denied notFound).status = .completed ∨
      Cleared (w.validated id denied notFound) id := by
  cases denied with
  | true => exact Or.inl (validated_denied hid h hj notFound)
  | false =>
    have htrace : (w.validated id false notFound).trace = w.trace ++ [.validated id false] :=
      (quiet_validated id false notFound w).trace
    refine Or.inr ⟨?_, ?_, validated_unpaused hid h false notFound⟩
    · rw [htrace]
      exact List.mem_append_right _ (List.mem_singleton.2 rfl)
    · rw [htrace]
      intro hmem
      rcases List.mem_append.1 hmem with hold | hlast
      · exact hnew hold
      · cases List.mem_singleton.1 hlast

/-! ## The end of the headers -/

/-- What a new response looks like to the rest. -/
theorem candidate_new (w : World) (found : Bool) :
    (w.candidate found).nextId = w.nextId + 1 ∧ (w.candidate found).parser.res = some w.nextId ∧
      (w.candidate found).paused = true ∧
      ((w.candidate found).ctl w.nextId).paused = true ∧
      ((w.candidate found).ctl w.nextId).resuming = false ∧
      ∀ i, i ≠ w.nextId → (w.candidate found).ctl i = w.ctl i := by
  have hctl : (w.candidate found).ctl = Function.update w.ctl w.nextId
      { ResCtl.fresh (w.parser.head.hdrs.getD (.empty _ _)) with paused := true } := by
    cases found with
    | true => rfl
    | false => rfl
  have hself := congrFun hctl w.nextId
  rw [Function.update_self] at hself
  refine ⟨?_, ?_, rfl, by rw [hself], by rw [hself]; rfl, fun i hi => ?_⟩
  · cases found with
    | true => rfl
    | false => rfl
  · cases found with
    | true => rfl
    | false => rfl
  · rw [hctl, Function.update_of_ne hi]

theorem Sound.candidate {w : World} (h : Sound w) (found : Bool) : Sound (w.candidate found) := by
  obtain ⟨htrace, -, hpending, hhandling⟩ := w.candidate_frame found
  obtain ⟨hnext, -, -, -, -, hctl⟩ := w.candidate_new found
  refine ⟨?_, (w.candidate_open found).endedIsDone, ?_, ?_, ?_⟩
  · rw [htrace]
    exact h.order
  · rw [hhandling, hnext]
    intro id hid
    obtain ⟨hlt, hun⟩ := h.handled id hid
    rw [hctl id (Nat.ne_of_lt hlt)]
    exact ⟨Nat.lt_succ_of_lt hlt, hun⟩
  · rw [hpending, hnext]
    exact fun e he => Nat.lt_succ_of_lt (h.waiting e he)
  · rw [htrace, hpending, hnext]
    exact fun id denied hmem => (h.once id denied hmem).imp_left Nat.lt_succ_of_lt

/-- A response with a new number has had no verdict, and none is on its way. -/
theorem Sound.unheard {w : World} (h : Sound w) :
    (∀ denied, .validated w.nextId denied ∉ w.trace) ∧
      ∀ notFound, (w.nextId, notFound) ∉ w.pending :=
  ⟨fun denied hmem => Nat.lt_irrefl _ (h.once _ denied hmem).1,
    fun _ hmem => Nat.lt_irrefl _ (h.waiting _ hmem)⟩

/-- The access rules of a response without a verdict set to work. -/
theorem Sound.await {w : World} (h : Sound w) {id : Nat} (hlt : id < w.nextId)
    (hnew : ∀ denied, .validated id denied ∉ w.trace) (notFound : Bool) :
    Sound { w with pending := w.pending ++ [(id, notFound)] } where
  order := h.order
  ended := h.ended
  handled := h.handled
  waiting e he := by
    rcases List.mem_append.1 he with hold | hlast
    · exact h.waiting e hold
    · rw [List.mem_singleton.1 hlast]
      exact hlt
  once id' denied hmem := by
    obtain ⟨hlt', hgone⟩ := h.once id' denied hmem
    refine ⟨hlt', fun notFound' he => ?_⟩
    rcases List.mem_append.1 he with hold | hlast
    · exact hgone notFound' hold
    · cases List.mem_singleton.1 hlast
      exact hnew denied hmem

variable (env : ConnEnv)

/-- The head announces a body of no bytes, and a type for it that does not go to the multipart
    parser. -/
def emptyTyped (h : HeadInfo) : Bool :=
  let hdrs := h.hdrs.getD (.empty _ _)
  match hdrs.getFirst (bytes "content-length"), hdrs.getFirst (bytes "content-type") with
  | some cl, some ct => env.strToNum cl == some 0 && contentState env ct != .parseFormMultipart
  | _, _ => false

/-- The current request has its verdict, or its access rules are at work and it waits. -/
def Judged (w : World) : Prop :=
  ∃ id, w.parser.res = some id ∧ id < w.nextId ∧
    (Cleared w id ∨ (Awaits w id ∧ env.access id w.parser.head.toHeadInfo = .later))

theorem validateHeaders_judged {w : World} (h : Sound w) (hs : w.status = .parseHeader) :
    Sound (validateHeaders env w).1 ∧
      ((validateHeaders env w).2 = false → (validateHeaders env w).1.status = .parseHeader →
        Judged env (validateHeaders env w).1) := by
  have hcases := validateHeaders_cases env w
  generalize validateHeaders env w = r at hcases ⊢
  cases hcases with
  | noHost =>
    have hopen := h.ended.currentOpen (by rw [hs]; decide)
    have hopen' : CurrentOpen (w.setStatus .error) := hopen
    exact ⟨h.quiet (quiet_setStatus w .error) hopen'.endedIsDone, nofun⟩
  | badUrl => exact ⟨h, nofun⟩
  | now found denied hacc =>
    obtain ⟨htrace, -, hpending, -⟩ := w.candidate_frame found
    obtain ⟨hnext, hres, hconn, hpaused, hresuming, -⟩ := w.candidate_new found
    obtain ⟨hnew, hgone⟩ := h.unheard
    have hcand := h.candidate found
    have hq := quiet_validated w.nextId denied (!found) (w.candidate found)
    rw [← hpending] at hgone
    rw [← htrace] at hnew
    have hlt : w.nextId < (w.candidate found).nextId := by rw [hnext]; exact Nat.lt_succ_self _
    refine ⟨hcand.validated hlt hgone denied (!found), fun _ hstatus => ?_⟩
    refine ⟨w.nextId, hq.res.trans hres, hq.nextId.symm ▸ hlt, Or.inl ?_⟩
    have hheld : Held (w.candidate found) w.nextId := ⟨hconn, hpaused, hresuming⟩
    -- a rejection would have ended the request
    refine (hheld.validated hres hcand.ended (hnew true) denied (!found)).resolve_left fun hdone => ?_
    rw [hdone] at hstatus
    cases hstatus
  | later found hacc =>
    obtain ⟨htrace, -⟩ := w.candidate_frame found
    obtain ⟨hnext, hres, hconn, hpaused, hresuming, -⟩ := w.candidate_new found
    have hcand := h.candidate found
    have hlt : w.nextId < (w.candidate found).nextId := by rw [hnext]; exact Nat.lt_succ_self _
    have hnew : ∀ denied, .validated w.nextId denied ∉ (w.candidate found).trace := by
      rw [htrace]
      exact h.unheard.1
    refine ⟨hcand.await hlt hnew (!found), fun _ _ => ?_⟩
    refine ⟨w.nextId, hres, hlt, Or.inr ⟨⟨⟨hconn, hpaused, hresuming⟩, !found, ?_⟩, ?_⟩⟩
    · exact List.mem_append_right _ (List.mem_singleton.2 rfl)
    · show env.access w.nextId (w.candidate found).parser.head.toHeadInfo = .later
      rw [w.candidate_info found]
      exact hacc

theorem resumeRes_unpaused {resume : World → World} {id : Nat} {w : World}
    (h : (w.ctl id).paused = false) : resumeRes resume id w = w := if_pos (Or.inl h)

theorem Judged.guarded {w : World} (h : Judged env w) : Guarded w := by
  obtain ⟨id, hid, hlt, hcleared | ⟨hawaits, -⟩⟩ := h
  · exact ⟨id, hid, hlt, Or.inl hcleared⟩
  · exact ⟨id, hid, hlt, Or.inr hawaits⟩

theorem Judged.setParser {w : World} (hw : Judged env w) (hsound : Sound w)
    (hs : w.status = .parseHeader) {p : HttpParser} (hp : p.res = w.parser.res) :
    Gate (w.setParser p) := by
  have ha := w.alike_setParser hp
  refine ⟨hsound.alike ha fun hdone => ?_, fun _ => (hw.guarded env).alike ha⟩
  rw [hs] at hdone
  cases hdone

section Rules

variable (hrules : ∀ id h, env.access id h = .later → emptyTyped env h = false)

include hrules in
/-- A request that announces a typed body of no bytes has been let through by then, so resuming its
    response does nothing. -/
theorem Judged.initBody {w : World} (hsound : Sound w) (hs : w.status = .parseHeader)
    (hw : Judged env w) {cl ct : Bytes} {n : Nat}
    (hcl : (w.parser.head.hdrs.getD (.empty _ _)).getFirst (bytes "content-length") = some cl)
    (hn : env.strToNum cl = some n)
    (hct : (w.parser.head.hdrs.getD (.empty _ _)).getFirst (bytes "content-type") = some ct)
    (htype : contentState env ct ≠ .parseFormMultipart) :
    Gate (World.initBody
      ((w.setParser { w.parser with bodySize := n }).setStatus (contentState env ct))) := by
  have hgate : ∀ p : HttpParser, p.res = w.parser.res → Gate (w.setParser p) :=
    fun p hp => hw.setParser env hsound hs hp
  unfold World.initBody
  simp only
  split
  · next hzero =>
    obtain rfl : n = 0 := hzero
    obtain ⟨id, hid, -, hcleared | ⟨-, hlater⟩⟩ := hw
    · split
      · next id' hid' =>
        obtain rfl : id = id' := Option.some.inj (hid.symm.trans hid')
        rw [resumeRes_unpaused (by exact hcleared.unpaused)]
        exact hgate _ rfl
      · next hnone => cases hid.symm.trans hnone
    · have hempty := hrules id _ hlater
      unfold emptyTyped at hempty
      simp only [hcl, hct, hn] at hempty
      rw [Bool.and_eq_false_iff] at hempty
      exact absurd hempty (by simp [htype])
  · exact hgate _ rfl

include hrules in
theorem postHeadersValidation_gate {w : World} (hsound : Sound w) (hs : w.status = .parseHeader)
    (hw : Judged env w) :
    Sound (postHeadersValidation env w).1 ∧
      ((postHeadersValidation env w).2 = false → Gate (postHeadersValidation env w).1) := by
  have hgate : ∀ p : HttpParser, p.res = w.parser.res → Gate (w.setParser p) :=
    fun p hp => hw.setParser env hsound hs hp
  have hcases := postHeadersValidation_cases env hs
  generalize postHeadersValidation env w = r at hcases ⊢
  cases hcases with
  | noBody => exact (hgate _ (by rfl)).soundAnd
  | badLength => exact ⟨hsound, nofun⟩
  | untyped n => exact (hgate _ (by rfl)).soundAnd
  | multipart n => exact (hgate _ (by rfl)).soundAnd
  | typed n cl ct hcl hn hct htype =>
    exact (hw.initBody env hrules hsound hs hcl hn hct htype).soundAnd

include hrules in
/-- **The end of the headers leaves the request let through, or held back.** -/
theorem endOfHeaders_gate {w : World} (h : Sound w) (hs : w.status = .parseHeader) :
    Sound (endOfHeaders env w).1 ∧
      ((endOfHeaders env w).2 = false → Gate (endOfHeaders env w).1) := by
  obtain ⟨hsound, hjudged⟩ := validateHeaders_judged env h hs
  have hstatus := validateHeaders_status env hs
  unfold endOfHeaders
  generalize validateHeaders env w = v at hsound hjudged hstatus ⊢
  obtain ⟨w₁, threw⟩ := v
  cases threw with
  | true => exact ⟨hsound, nofun⟩
  | false =>
    simp only at hsound hjudged hstatus ⊢
    by_cases hhead : w₁.status = .parseHeader
    · exact postHeadersValidation_gate env hrules hsound hhead (hjudged trivial hhead)
    · rw [postHeadersValidation_skip env hhead]
      refine ⟨hsound, fun _ => hsound.gate ?_⟩
      rcases hstatus.resolve_left hhead with herr | hdone
      · show w₁.status.active = false
        rw [herr]
        rfl
      · show w₁.status.active = false
        rw [hdone]
        rfl

/-- Between two lines of a head nothing is active. -/
theorem Gate.setHead {w : World} (h : Gate w)
    (hs : w.status = .parseReqLine ∨ w.status = .parseHeader) {p : ParserHead}
    (hp : p.status = .parseReqLine ∨ p.status = .parseHeader ∨ p.status = .error) :
    Gate (w.setParser { w.parser with head := p }) := by
  have ha : Alike w (w.setParser { w.parser with head := p }) := w.alike_setParser rfl
  refine Sound.gate (h.toSound.alike ha fun hdone => ?_) ?_
  · rw [hdone] at hs
    simp at hs
  · show p.status.active = false
    rcases hp with hp | hp | hp
    · rw [hp]; rfl
    · rw [hp]; rfl
    · rw [hp]; rfl

theorem parseBody_gate {w : World} (h : Gate w) (hs : w.status.parsingBody = true) (data : Bytes) :
    Gate (parseBody env w data).1 := by
  have hactive : w.status.active = true := by
    unfold ParserState.active
    rw [hs]
    rfl
  have hopen : w.status ≠ .completed := by
    intro hdone
    rw [hdone] at hs
    cases hs
  have hgate : ∀ p : HttpParser, p.res = w.parser.res → Gate (w.setParser p) := fun p hp =>
    ⟨h.toSound.alike (w.alike_setParser hp) fun hdone => absurd hdone hopen,
      fun _ => (h.current hactive).alike (w.alike_setParser hp)⟩
  have hstep := parseBody_cases env w data
  generalize (parseBody env w data).1 = w' at hstep
  cases hstep with
  | ignored => exact h
  | crash => exact h.alike ⟨rfl, rfl, rfl, rfl, rfl, rfl, rfl⟩ rfl
  | more p hhead hres => exact hgate p hres
  | done p hhead hres => exact hgate _ hres
  | failed p hhead hres id hid =>
    have hp := (hgate p hres).toSound
    have hdone := resumes_connResume.reply_current hp.ended (hres.trans hid)
    exact (hp.quiet (quiet_reply quiet_connResume id _) (.of_completed hdone)).gate_done hdone

include hrules in
/-- **Parsing keeps the gate.** -/
theorem gate_loop : LoopInvariant (host env) Gate where
  setHead _ _ h hs hp := h.setHead hs hp
  resetHead _ _ h hs hp := (h.setHead (Or.inl hs) (Or.inl hp)).toSound.reset
  endOfHeaders _ h hs hok := (endOfHeaders_gate env hrules h.toSound hs).2 hok
  threw _ h hs _ := (endOfHeaders_gate env hrules h.toSound hs).1.reset
  parseBody _ data h hs := parseBody_gate env h hs data
  crash _ h := h.alike ⟨rfl, rfl, rfl, rfl, rfl, rfl, rfl⟩ rfl

end Rules

/-! ## Handlers -/

/-- Whoever was held back still is. -/
structure Holds (w w' : World) : Prop where
  paused : w'.paused = w.paused
  flags : ∀ i, (w'.ctl i).paused = (w.ctl i).paused ∧ (w'.ctl i).resuming = (w.ctl i).resuming

theorem Holds.refl (w : World) : Holds w w := ⟨rfl, fun _ => ⟨rfl, rfl⟩⟩

theorem holds_setCtl (w : World) (id : Nat) {f : ResCtl → ResCtl}
    (hp : ∀ r, (f r).paused = r.paused) (hr : ∀ r, (f r).resuming = r.resuming) :
    Holds w (w.setCtl id f) :=
  ⟨rfl, fun i => ⟨w.setCtl_field id f ResCtl.paused hp i, w.setCtl_field id f ResCtl.resuming hr i⟩⟩

theorem Holds.trans {w₁ w₂ w₃ : World} (h : Holds w₁ w₂) (h' : Holds w₂ w₃) : Holds w₁ w₃ :=
  ⟨h'.paused.trans h.paused, fun i =>
    ⟨(h'.flags i).1.trans (h.flags i).1, (h'.flags i).2.trans (h.flags i).2⟩⟩

theorem holds_replyStart (id : Nat) (w : World) : Holds w (replyStart id w) := by
  have hflag : Holds w (w.setCtl id fun r => { r with started := true }) :=
    holds_setCtl w id (fun _ => rfl) fun _ => rfl
  unfold replyStart
  split
  · exact .refl w
  · exact ⟨hflag.paused, hflag.flags⟩

/-- A handler whose response is not held back resumes nobody, unless it ends the current request. -/
theorem holds_runAct {w : World} {id : Nat} (hun : (w.ctl id).paused = false) (a : HandlerAct) :
    (runAct id w a).1.status = .completed ∨ Holds w (runAct id w a).1 := by
  have hstart := holds_replyStart id w
  cases a with
  | reply =>
    show (reply connResume id w).status = _ ∨ Holds w (reply connResume id w)
    unfold reply
    rw [hun, if_neg (by decide)]
    unfold replyEnd
    simp only
    split
    · exact Or.inr ⟨hstart.paused, hstart.flags⟩
    · exact Or.inl (resumes_connResume.completeResponse _)
  | event =>
    right
    show Holds w (sendEvent id w).1
    unfold sendEvent
    split
    · exact .refl w
    · have hflag : Holds (replyStart id w) ((replyStart id w).setCtl id
          fun r => { r with eventStarted := true }) := holds_setCtl _ id (fun _ => rfl) fun _ => rfl
      exact ⟨(hstart.trans hflag).paused, (hstart.trans hflag).flags⟩
  | file chunks =>
    right
    show Holds w (sendFile id chunks w).1
    unfold sendFile
    split
    · exact .refl w
    · simp only
      split
      · exact ⟨rfl, fun _ => ⟨rfl, rfl⟩⟩
      · have hfile := holds_replyStart id { w with sendingFile := true, file := chunks }
        exact ⟨hfile.paused, hfile.flags⟩

theorem Cleared.quiet {w w' : World} {id : Nat} (h : Cleared w id) (hq : Quiet w w') :
    Cleared w' id := by
  refine ⟨?_, ?_, hq.unpaused id h.unpaused⟩
  · rw [hq.trace]
    exact h.granted
  · rw [hq.trace]
    exact h.notDenied

theorem runAct_gate {w : World} (h : Gate w) {id : Nat} (hid : id ∈ w.handling) (a : HandlerAct) :
    Gate (runAct id w a).1 := by
  have hq := quiet_runAct id w a
  have hsound := h.toSound.quiet hq (runAct_endedIsDone h.ended id a)
  rcases holds_runAct (h.handled id hid).2 a with hdone | hholds
  · exact hsound.gate_done hdone
  · refine ⟨hsound, fun hactive => ?_⟩
    have hsame : (runAct id w a).1.status = w.status := by
      refine (runAct_status h.ended id a).resolve_right fun hdone => ?_
      rw [hdone] at hactive
      cases hactive
    rw [hsame] at hactive
    obtain ⟨cur, hcur, hlt, hcleared | hawaits⟩ := h.current hactive
    · exact ⟨cur, hq.res.trans hcur, by rw [hq.nextId]; exact hlt, Or.inl (hcleared.quiet hq)⟩
    · refine ⟨cur, hq.res.trans hcur, by rw [hq.nextId]; exact hlt, Or.inr ⟨⟨?_, ?_, ?_⟩, ?_⟩⟩
      · exact hholds.paused.trans hawaits.connPaused
      · exact (hholds.flags cur).1.trans hawaits.paused
      · exact (hholds.flags cur).2.trans hawaits.notResuming
      · rw [hq.pending]
        exact hawaits.pending

/-- **Handlers that start after the verdict keep the gate.** -/
theorem exec_gate (env : ConnEnv) {w : World} (h : Gate w) (hs : w.status = .readyToExec)
    (hgo : ∀ id, w.parser.res = some id → ¬ Awaits w id) : Gate (exec env w) := by
  obtain ⟨id, hid, hlt, hwait⟩ := h.current (by rw [hs]; rfl)
  -- nothing holds the request back, so it has been let through
  have hcleared := hwait.resolve_right (hgo id hid)
  have hopen : CurrentOpen w := h.ended.currentOpen (by rw [hs]; decide)
  have hresp : Sound (w.setStatus .responding) :=
    h.toSound.quiet (quiet_setStatus w .responding) (CurrentOpen.endedIsDone hopen)
  have hstart : Sound ((w.setStatus .responding).mark (.exec id)) := by
    refine hresp.mark ?_ nofun
    rintro id' ⟨⟩
    exact ⟨hcleared.granted, hcleared.notDenied⟩
  have hq := quiet_answer env id ((w.setStatus .responding).mark (.exec id))
  obtain ⟨hj, hstatus⟩ := answer_status env hstart.ended id
  have hdone := hstart.quiet hq hj
  have hun := hq.unpaused id hcleared.unpaused
  unfold exec
  rw [hid]
  refine Sound.gate ⟨hdone.order, hdone.ended, ?_, hdone.waiting, hdone.once⟩ ?_
  · intro id' hmem
    rcases List.mem_cons.1 hmem with rfl | hold
    · exact ⟨hq.nextId.symm ▸ hlt, hun⟩
    · exact hdone.handled id' hold
  · show (answer env id ((w.setStatus .responding).mark (.exec id))).status.active = false
    rcases hstatus with hsame | hended
    · rw [hsame]
      rfl
    · rw [hended]
      rfl

theorem sendFileChunk_gate {w : World} (h : Gate w) : Gate w.sendFileChunk := by
  unfold sendFileChunk
  split
  · exact h.alike ⟨rfl, rfl, rfl, rfl, rfl, rfl, rfl⟩ rfl
  · have hlast : Gate { w.putOut with sendingFile := false } :=
      h.alike ⟨rfl, rfl, rfl, rfl, rfl, rfl, rfl⟩ rfl
    have hdone := resumes_connResume.completeResponse { w.putOut with sendingFile := false }
    exact (hlast.toSound.quiet (quiet_completeResponse quiet_connResume _)
      (.of_completed hdone)).gate_done hdone

/-- Resuming the response would reach the connection. -/
def Resumable (w : World) (id : Nat) : Prop :=
  (w.ctl id).paused = true ∧ (w.ctl id).resuming = false

/-- A verdict on a response nobody waits for is only recorded. -/
theorem validated_unheeded {w : World} {id : Nat} (h : ¬ Resumable w id) (denied notFound : Bool) :
    w.validated id denied notFound = w.mark (.validated id denied) := by
  refine if_pos ?_
  show (w.ctl id).paused = false ∨ (w.ctl id).resuming = true
  by_contra hwait
  rw [not_or] at hwait
  exact h ⟨by simpa using hwait.1, by simpa using hwait.2⟩

/-- A verdict does nothing for the current request, ends it, or lets it through. -/
theorem Guarded.validated {w : World} (h : Guarded w) (hsound : Sound w) {id : Nat}
    {notFound : Bool} (hpend : (id, notFound) ∈ w.pending)
    (hcur : Resumable w id → ∀ cur, w.parser.res = some cur → Awaits w cur → id = cur)
    (denied : Bool) :
    ((w.unpend id).validated id denied notFound).status = .completed ∨
      Guarded ((w.unpend id).validated id denied notFound) := by
  obtain ⟨cur, hres, hlt, hwait⟩ := h
  have hq := quiet_validated id denied notFound (w.unpend id)
  have hres' : ((w.unpend id).validated id denied notFound).parser.res = some cur :=
    hq.res.trans hres
  have hlt' : cur < ((w.unpend id).validated id denied notFound).nextId := by
    rw [hq.nextId]
    exact hlt
  have hnew : ∀ d, .validated id d ∉ w.trace := fun d hmem =>
    (hsound.once id d hmem).2 notFound hpend
  -- the verdict everything waits for, or one on another response
  by_cases heq : id = cur
  · subst heq
    have hawaits := hwait.resolve_left fun hcleared => hnew false hcleared.granted
    have hheld : Held (w.unpend id) id :=
      ⟨hawaits.connPaused, hawaits.paused, hawaits.notResuming⟩
    exact (hheld.validated hres hsound.ended (hnew true) denied notFound).imp_right
      fun hcleared => ⟨id, hres', hlt', Or.inl hcleared⟩
  · right
    refine ⟨cur, hres', hlt', ?_⟩
    rcases hwait with hcleared | hawaits
    · have hmark : Cleared ((w.unpend id).mark (.validated id denied)) cur := by
        refine ⟨List.mem_append_left _ hcleared.granted, fun hmem => ?_, hcleared.unpaused⟩
        rcases List.mem_append.1 hmem with hold | hlast
        · exact hcleared.notDenied hold
        · cases List.mem_singleton.1 hlast
          exact heq rfl
      exact Or.inl (hmark.quiet hq)
    -- the other response has been resumed before, and the flags stay up
    · have hdeaf : ¬ Resumable (w.unpend id) id := fun hgo => heq (hcur hgo cur hres hawaits)
      rw [validated_unheeded hdeaf]
      obtain ⟨nf, hmem⟩ := hawaits.pending
      refine Or.inr ⟨⟨hawaits.connPaused, hawaits.paused, hawaits.notResuming⟩, nf, ?_⟩
      exact List.mem_filter.2 ⟨hmem, by simpa using Ne.symm heq⟩

/-- The response is no longer waited for. -/
theorem Sound.unpend {w : World} (h : Sound w) (id : Nat) : Sound (w.unpend id) where
  order := h.order
  ended := h.ended
  handled := h.handled
  waiting e he := h.waiting e (List.mem_of_mem_filter he)
  once id' denied hmem := by
    obtain ⟨hlt, hgone⟩ := h.once id' denied hmem
    exact ⟨hlt, fun notFound he => hgone notFound (List.mem_of_mem_filter he)⟩

theorem not_mem_unpend (w : World) (id : Nat) (notFound : Bool) :
    (id, notFound) ∉ (w.unpend id).pending := by
  intro hmem
  simpa using (List.mem_filter.1 hmem).2

/-- **A verdict keeps the gate.** -/
theorem Gate.validated {w : World} (h : Gate w) {id : Nat} {notFound : Bool}
    (hpend : (id, notFound) ∈ w.pending)
    (hcur : Resumable w id → AwaitingVerdict w → w.parser.res = some id) (denied : Bool) :
    Gate ((w.unpend id).validated id denied notFound) := by
  have hsound := (h.toSound.unpend id).validated (h.waiting _ hpend) (w.not_mem_unpend id) denied
    notFound
  refine ⟨hsound, fun hactive => ?_⟩
  have hnotDone : ((w.unpend id).validated id denied notFound).status ≠ .completed := by
    intro hdone
    rw [hdone] at hactive
    cases hactive
  have hsame : ((w.unpend id).validated id denied notFound).status = w.status :=
    ((settles_validated (w := w.unpend id) h.ended id denied notFound).resolve_left hnotDone).1
  rw [hsame] at hactive
  refine ((h.current hactive).validated h.toSound hpend ?_ denied).resolve_left hnotDone
  intro hgo cur hres hawaits
  exact Option.some.inj ((hcur hgo (hawaits.awaitingVerdict hres hactive)).symm.trans hres)

end World

namespace Conn

variable (env : ConnEnv)

/-- What lets nobody in before the verdict: the resume event stays away while a request waits for its
    verdict, and so do verdicts on other responses that are held back. -/
def GateOk (c : Conn) : Event → Prop
  | .resume => c.world.resumeActive = true → ¬ c.world.AwaitingVerdict
  | .verdict id _ => c.world.Resumable id → c.world.AwaitingVerdict → c.world.parser.res = some id
  | _ => True

theorem afterRead_gate {c : Conn} {r : ParseResult World} (h : World.Gate r.world) :
    World.Gate (c.afterRead env r).world := by
  have hparse : World.Gate (c.afterParse r).world := h
  unfold afterRead
  simp only
  split
  · exact hparse
  · split
    · exact hparse.alike ⟨rfl, rfl, rfl, rfl, rfl, rfl, rfl⟩ rfl
    · split
      · exact hparse
      · next hrunning =>
        split
        · next hs =>
          exact World.exec_gate env hparse hs fun _ _ hawaits => hrunning hawaits.connPaused
        · exact hparse

section Rules

variable (hrules : ∀ id h, env.access id h = .later → World.emptyTyped env h = false)

include hrules in
theorem onRead_gate {c : Conn} (h : World.Gate c.world) : World.Gate (c.onRead env).world := by
  unfold onRead
  split
  · exact h.renew
  · refine afterRead_gate env ((World.gate_loop env hrules).parse h.renew ?_ c.bevIn)
    exact c.world.renew_status.1

theorem onWrite_gate {w : World} (h : World.Gate w) : World.Gate (onWrite env w) := by
  unfold onWrite
  split
  · exact h
  · next hrunning =>
    split
    · next hs => exact World.exec_gate env h hs fun id _ hawaits => hrunning hawaits.connPaused
    · split
      · exact World.sendFileChunk_gate h
      · split
        · have hmark : World.Sound (w.mark (.writeReset w.status)) := h.toSound.mark nofun nofun
          exact hmark.reset
        · exact h.alike ⟨rfl, rfl, rfl, rfl, rfl, rfl, rfl⟩ rfl

include hrules in
theorem onResume_gate {c : Conn} (h : World.Gate c.world) (hwait : ¬ c.world.AwaitingVerdict) :
    World.Gate (c.onResume env).world := by
  have hq : World.Quiet c.world { c.world with paused := false, resumeActive := false } :=
    ⟨rfl, rfl, fun h => h, rfl, rfl, rfl, rfl, fun _ => rfl, fun _ h => h⟩
  have hgate : World.Gate { c.world with paused := false, resumeActive := false } := by
    refine ⟨h.toSound.quiet hq h.ended, fun hactive => ?_⟩
    obtain ⟨id, hid, hlt, hcleared | hawaits⟩ := h.current hactive
    · exact ⟨id, hid, hlt, Or.inl (hcleared.quiet hq)⟩
    · exact absurd (hawaits.awaitingVerdict hid hactive) hwait
  unfold onResume
  simp only
  split
  · next hs => exact World.exec_gate env hgate hs fun _ _ hawaits => nomatch hawaits.connPaused
  · split
    · exact hgate
    · split
      · exact hgate
      · exact onRead_gate env hrules hgate

include hrules in
/-- **Every step that meets the condition keeps the gate.** -/
theorem step_gate (c : Conn) (e : Event) (h : World.Gate c.world) (hok : GateOk c e) :
    World.Gate (c.step env e).world := by
  unfold step
  split
  · exact h
  · cases e with
    | read data => exact onRead_gate env hrules (c := { c with bevIn := c.bevIn ++ data }) h
    | write =>
      exact onWrite_gate env (h.alike ⟨rfl, rfl, rfl, rfl, rfl, rfl, rfl⟩ rfl)
    | resume =>
      show World.Gate (if c.world.resumeActive then c.onResume env else c).world
      split
      · next hactive => exact onResume_gate env hrules h (hok hactive)
      · exact h
    | verdict id denied =>
      simp only [handle]
      split
      · exact h
      · next id' notFound hfind =>
        have hpend := List.mem_of_find?_eq_some hfind
        obtain rfl : id' = id := by simpa using List.find?_some hfind
        exact h.validated hpend hok denied
    | act id a =>
      simp only [handle]
      split
      · next hid => exact World.runAct_gate h hid a
      · exact h

include hrules in
/-- **No handler is entered before the verdict on its request**, in any run in which no resume event
    and no verdict on another response comes while a request waits for its own. -/
theorem exec_after_verdict {es : List Event} (hes : AllSteps env GateOk .fresh es) :
    TraceOk (fresh.run env es).world.trace :=
  (run_invariant env (I := fun c => World.Gate c.world) (step_gate env hrules) World.fresh_gate
    hes).order

end Rules

end Conn

/-- A server whose access rules take their time over requests without a body. -/
def slowEnv : ConnEnv :=
  { plainEnv (.now false) [.reply] with
    access := fun _ h =>
      match (h.hdrs.getD (.empty _ _)).getFirst (bytes "content-length") with
      | none => .later
      | some _ => .now false }

/-- A request, its verdict, and the answer written out. -/
def slowRun : List Event :=
  [.read (bytes "GET / HTTP/1.1" ++ crlf ++ bytes "Host: a" ++ crlf ++ crlf), .verdict 0 false,
    .resume, .write]

theorem exec_after_verdict_slow :
    TraceOk (Conn.fresh.run slowEnv slowRun).world.trace ∧
      .exec 0 ∈ (Conn.fresh.run slowEnv slowRun).world.trace := by
  refine ⟨Conn.exec_after_verdict slowEnv ?_ ⟨trivial, fun _ _ => by decide, fun _ => ?_, trivial,
    trivial⟩, by decide⟩
  · intro id h hlater
    show World.emptyTyped slowEnv h = false
    unfold World.emptyTyped
    cases hcl : (h.hdrs.getD (.empty _ _)).getFirst (bytes "content-length") with
    | none => simp only [hcl]
    | some cl => simp [slowEnv, hcl] at hlater
  · rintro ⟨-, id, notFound, -, hmem⟩
    refine absurd hmem ?_
    rw [show World.pending _ = [] by decide]
    exact List.not_mem_nil

/-- A request with a body of no bytes. -/
def emptyText : Bytes :=
  bytes "POST / HTTP/1.1" ++ crlf ++ bytes "Host: a" ++ crlf ++ bytes "Content-Length: 0" ++ crlf ++
    bytes "Content-Type: text/plain" ++ crlf ++ crlf

/-- The zero-length body resumes the response, and the handlers run without a verdict. -/
theorem empty_body_not_gated :
    ¬ TraceOk (Conn.fresh.run (plainEnv .later [.reply]) [.read emptyText]).world.trace := by
  have htrace : (Conn.fresh.run (plainEnv .later [.reply]) [.read emptyText]).world.trace
      = [.exec 0] := by decide
  rw [htrace]
  intro h
  exact absurd (h [] [] 0 rfl).1 (by simp)

end LibEvmvc
