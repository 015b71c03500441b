import LibEvmvc.Connection.AccessGate

set_option autoImplicit false

/-! # What follows a head

Once the headers are through, the parser is in error, held up by the access rules, ready for the
handlers or due to read a body; or an exception has sent it back to the request line. Only a body and
an exception make it look at the bytes that follow in the same buffer (`goesOn`). -/

namespace LibEvmvc

namespace World

variable (env : ConnEnv)

/-! ## The head -/

/-- The head announces a length that is not a number. -/
def lengthThrows (h : HeadInfo) : Bool :=
  match (h.hdrs.getD (.empty _ _)).getFirst (bytes "content-length") with
  | none => false
  | some cl => env.strToNum cl == none

/-- The head announces a body that is to be read. -/
def bodyDue (h : HeadInfo) : Bool :=
  let hdrs := h.hdrs.getD (.empty _ _)
  match hdrs.getFirst (bytes "content-length") with
  | none => false
  | some cl =>
    match env.strToNum cl with
    | none => false
    | some n =>
      match hdrs.getFirst (bytes "content-type") with
      | none => true
      -- the multipart parser takes a body of no bytes for one that is still to come
      | some ct =>
        contentState env ct == .parseFormMultipart || (n != 0 && contentState env ct != .error)

/-- The parser goes on with the bytes behind the head of the request `id`: the end of the headers
    throws, or the request is let through at once and a body is due. -/
def goesOn (id : Nat) (h : HeadInfo) : Bool :=
  match (h.hdrs.getD (.empty _ _)).getFirst (bytes "host") with
  | none => false
  | some host =>
    if env.baseOk (env.trim host) h.uriString = false then true
    else if routeFound env (env.trim host) h = false then false
    else
      match env.access id h with
      | .now true => false
      | .now false => lengthThrows env h || bodyDue env h
      | .later => lengthThrows env h

/-! ## The end of the headers -/

/-- The parser is to read a body, and is otherwise as in `w`. -/
structure AtBody (w w' : World) : Prop where
  body : w'.status.parsingBody = true
  failed : w'.parser.mpFailed = w.parser.mpFailed
  res : w'.parser.res = w.parser.res
  ctl : w'.ctl = w.ctl
  crashed : w'.crashed = w.crashed

theorem initBody_pos {w : World} (h : w.parser.bodySize ≠ 0) :
    initBody w = w.setParser { w.parser with
      uploaded := 0, mpBuf := some [], mpCompleted := w.parser.bodySize = 0 } := if_neg h

/-- A body of no bytes is complete at once. -/
theorem initBody_zero {w : World} (ho : CurrentOpen w) (hres : w.parser.res ≠ none)
    (h : w.parser.bodySize = 0) :
    (initBody w).status.parsingBody = false ∧ (initBody w).crashed = w.crashed := by
  obtain ⟨id, hid⟩ := Option.ne_none_iff_exists'.1 hres
  have ho' : CurrentOpen ((w.setParser { w.parser with
      uploaded := 0, mpBuf := some [], mpCompleted := w.parser.bodySize = 0 }).setStatus
      .readyToExec) := ho
  unfold initBody
  simp only
  rw [if_pos h]
  simp only [hid] at ho' ⊢
  refine ⟨?_, (quiet_resumeRes quiet_connResume id _).crashed (Option.some_ne_none id)⟩
  rcases resumes_connResume.resumeRes ho'.endedIsDone id with hdone | ⟨hsame, -⟩
  · rw [hdone]
    rfl
  · rw [hsame]
    rfl

/-- Where a body is due, its length is a number. -/
theorem lengthThrows_of_bodyDue {h : HeadInfo} (hdue : bodyDue env h = true) :
    lengthThrows env h = false := by
  unfold bodyDue at hdue
  unfold lengthThrows
  simp only at hdue
  split at hdue
  · cases hdue
  · split at hdue
    · cases hdue
    · next n hn => simp [hn]

section Post

variable {env} {w : World} (hs : w.status = .parseHeader)

include hs

/-- The one split over what the head says of a body: its length is no number, a body is due and is read
    next, or there is none and the parser is through with what it reads. -/
theorem postHeadersValidation_dueCases :
    (lengthThrows env w.parser.head.toHeadInfo = true ∧ (postHeadersValidation env w).2 = true) ∨
    (lengthThrows env w.parser.head.toHeadInfo = false ∧ (postHeadersValidation env w).2 = false ∧
      (bodyDue env w.parser.head.toHeadInfo = true ∧ AtBody w (postHeadersValidation env w).1 ∨
        bodyDue env w.parser.head.toHeadInfo = false ∧
          (CurrentOpen w → w.parser.res ≠ none →
            (postHeadersValidation env w).1.status.parsingBody = false ∧
              (postHeadersValidation env w).1.crashed = w.crashed))) := by
  unfold lengthThrows bodyDue postHeadersValidation
  rw [if_neg (not_not_intro hs)]
  simp only
  cases hcl : (w.parser.head.hdrs.getD (.empty _ _)).getFirst (bytes "content-length") with
  | none => exact Or.inr ⟨rfl, rfl, Or.inr ⟨rfl, fun _ _ => ⟨rfl, rfl⟩⟩⟩
  | some cl =>
    simp only
    cases hn : env.strToNum cl with
    | none => exact Or.inl ⟨rfl, rfl⟩
    | some n =>
      simp only
      cases hct : (w.parser.head.hdrs.getD (.empty _ _)).getFirst (bytes "content-type") with
      | none => exact Or.inr ⟨rfl, rfl, Or.inl ⟨rfl, rfl, rfl, rfl, rfl, rfl⟩⟩
      | some ct =>
        simp only
        by_cases hmultip : contentState env ct = .parseFormMultipart
        · rw [if_pos hmultip]
          exact Or.inr ⟨rfl, rfl, Or.inl ⟨by simp [hmultip], rfl, rfl, rfl, rfl, rfl⟩⟩
        · rw [if_neg hmultip]
          refine Or.inr ⟨rfl, rfl, ?_⟩
          by_cases hzero : n = 0
          · exact Or.inr ⟨by simp [hmultip, hzero], fun ho hres => initBody_zero ho hres hzero⟩
          · rw [initBody_pos (show _ ≠ 0 from hzero)]
            by_cases hok : contentState env ct = .error
            · refine Or.inr ⟨by simp [hok], fun _ _ => ⟨?_, rfl⟩⟩
              show (contentState env ct).parsingBody = false
              rw [hok]
              rfl
            · have hbody := (contentState_cases env ct).resolve_right hok
              exact Or.inl ⟨by simp [hzero, hok], hbody, rfl, rfl, rfl, rfl⟩

theorem postHeadersValidation_throws (h : lengthThrows env w.parser.head.toHeadInfo = true) :
    (postHeadersValidation env w).2 = true := by
  rcases postHeadersValidation_dueCases hs with ⟨-, hthrow⟩ | ⟨hlength, -⟩
  · exact hthrow
  · rw [h] at hlength
    cases hlength

/-- A body is due only where there is a length, and it is read next. -/
theorem postHeadersValidation_due (h : bodyDue env w.parser.head.toHeadInfo = true) :
    (postHeadersValidation env w).2 = false ∧ AtBody w (postHeadersValidation env w).1 := by
  rcases postHeadersValidation_dueCases hs with ⟨hthrow, -⟩ | ⟨-, hok, ⟨-, hat⟩ | ⟨hnone, -⟩⟩
  · rw [lengthThrows_of_bodyDue env h] at hthrow
    cases hthrow
  · exact ⟨hok, hat⟩
  · rw [h] at hnone
    cases hnone

/-- Without one the parser is through with what it reads. -/
theorem postHeadersValidation_notDue (ho : CurrentOpen w) (hres : w.parser.res ≠ none)
    (hlength : lengthThrows env w.parser.head.toHeadInfo = false)
    (h : bodyDue env w.parser.head.toHeadInfo = false) :
    (postHeadersValidation env w).2 = false ∧
      (postHeadersValidation env w).1.status.parsingBody = false ∧
      (postHeadersValidation env w).1.crashed = w.crashed := by
  rcases postHeadersValidation_dueCases hs with ⟨hthrow, -⟩ | ⟨-, hok, ⟨hdue, -⟩ | ⟨-, hrests⟩⟩
  · rw [hlength] at hthrow
    cases hthrow
  · rw [h] at hdue
    cases hdue
  · exact ⟨hok, hrests ho hres⟩

end Post

/-! ## The end of the headers -/

/-- A request that is refused, or that has no route, is done with. -/
theorem validated_ends {w : World} {id : Nat} (hid : w.parser.res = some id) (h : Held w id)
    (hj : EndedIsDone w) {denied notFound : Bool}
    (hends : denied = true ∨ (notFound = true ∧ (w.ctl id).started = false)) :
    (w.validated id denied notFound).status = .completed := by
  have hstarted : (((w.heard id denied notFound).setCtl id .unpaused).ctl id).started
      = (w.ctl id).started := by
    rw [setCtl_self, heard_ctl]
    rfl
  have hreply := resumes_id.reply_current ((heard_endedIsDone hj id denied notFound).settles
    (quiet_unpaused _ id) (settles_setCtl _ id fun _ => by rfl)) hid
  rw [validated_held hid h, runResumeCb, hstarted, if_pos hends]
  exact hreply

/-- Any other one goes on where it was. -/
theorem validated_granted {w : World} {id : Nat} (hid : w.parser.res = some id) (h : Held w id) :
    (w.validated id false false).status = w.status := by
  rw [validated_held hid h, runResumeCb, if_neg (by simp)]
  rfl

/-- A parser whose response is paused, or that is past the body. -/
def Rests (w : World) : Prop :=
  w.status = .error ∨ (host env).paused w = true ∨ w.status.parsingBody = false

theorem host_paused_some {w : World} {id : Nat} (h : w.parser.res = some id) :
    (host env).paused w = (w.ctl id).paused := by
  simp only [host, h]

theorem endOfHeaders_of_valid {w w' : World} (h : validateHeaders env w = (w', false)) :
    endOfHeaders env w = postHeadersValidation env w' := by
  unfold endOfHeaders
  rw [h]

theorem endOfHeaders_of_throws {w w' : World} (h : validateHeaders env w = (w', true)) :
    endOfHeaders env w = (w', true) := by
  unfold endOfHeaders
  rw [h]

theorem held_candidate (w : World) (found : Bool) :
    (w.candidate found).parser.res = some w.nextId ∧ Held (w.candidate found) w.nextId := by
  obtain ⟨-, hres, hconn, hpaused, hresuming, -⟩ := w.candidate_new found
  exact ⟨hres, hconn, hpaused, hresuming⟩

/-- A new response has not been started. -/
theorem candidate_started (w : World) (found : Bool) :
    ((w.candidate found).ctl w.nextId).started = false := by
  have hctl : (w.candidate found).ctl = Function.update w.ctl w.nextId
      { ResCtl.fresh (w.parser.head.hdrs.getD (.empty _ _)) with paused := true } := by
    cases found with
    | true => rfl
    | false => rfl
  rw [hctl, Function.update_self]
  rfl

/-- The request that is let through at once: nothing has been written for it, and nothing holds the
    parser up. -/
structure LetThrough (w w' : World) : Prop where
  status : w'.status = w.status
  current : CurrentOpen w'
  res : w'.parser.res = some w.nextId
  unpaused : (w'.ctl w.nextId).paused = false
  failed : w'.parser.mpFailed = w.parser.mpFailed
  info : w'.parser.head.toHeadInfo = w.parser.head.toHeadInfo
  crashed : w'.crashed = w.crashed

theorem letThrough_validated {w : World} (hs : w.status = .parseHeader) :
    LetThrough w ((w.candidate true).validated w.nextId false false) := by
  obtain ⟨hres, hheld⟩ := w.held_candidate true
  have hstatus : ((w.candidate true).validated w.nextId false false).status = w.status :=
    validated_granted hres hheld
  have hq := quiet_validated w.nextId false false (w.candidate true)
  have hj := endedIsDone_validated (w.candidate_open true).endedIsDone w.nextId false false
  refine ⟨hstatus, hj.currentOpen ?_, hq.res.trans hres, validated_unpaused hres hheld false false, ?_,
    hq.info.trans (w.candidate_info true), hq.crashed (Option.some_ne_none _)⟩
  · rw [hstatus, hs]
    decide
  · rw [hq.parser]
    rfl

section Ends

variable {env} {w : World}

/-- What `validate_headers` comes to for a request with a host and a URL. -/
theorem validateHeaders_eq {host : Bytes}
    (hhost : (w.parser.head.hdrs.getD (.empty _ _)).getFirst (bytes "host") = some host)
    (hbase : env.baseOk (env.trim host) w.parser.head.uriString = true) :
    validateHeaders env w =
      (let found := routeFound env (env.trim host) w.parser.head.toHeadInfo
       match env.access w.nextId w.parser.head.toHeadInfo with
       | .now denied => ((w.candidate found).validated w.nextId denied (!found), false)
       | .later =>
         ({ w.candidate found with
            pending := (w.candidate found).pending ++ [(w.nextId, !found)] }, false)) := by
  unfold validateHeaders
  simp only [hhost, hbase, Bool.true_eq_false, if_false]
  rfl

/-- A request that has ended, or cannot, is not looked at any more. -/
theorem rests_of_valid {w' : World} (hval : validateHeaders env w = (w', false))
    (hnot : w'.status ≠ .parseHeader) :
    (endOfHeaders env w).2 = false ∧ (endOfHeaders env w).1 = w' := by
  rw [endOfHeaders_of_valid env hval, postHeadersValidation_skip env hnot]
  exact ⟨rfl, rfl⟩

/-- The access rules call back at once. -/
theorem rests_now (hs : w.status = .parseHeader) {found denied : Bool}
    (hval : validateHeaders env w
      = ((w.candidate found).validated w.nextId denied (!found), false))
    (hends : found = true → denied = false →
      lengthThrows env w.parser.head.toHeadInfo = false ∧
        bodyDue env w.parser.head.toHeadInfo = false) :
    (endOfHeaders env w).2 = false ∧ (endOfHeaders env w).1.crashed = w.crashed ∧
      Rests env (endOfHeaders env w).1 := by
  by_cases hgrant : found = true ∧ denied = false
  · obtain ⟨rfl, rfl⟩ := hgrant
    obtain ⟨hlength, hbody⟩ := hends rfl rfl
    have hlet := letThrough_validated hs
    rw [← hlet.info] at hlength hbody
    obtain ⟨hok, hstatus, hcrash⟩ := postHeadersValidation_notDue (hlet.status.trans hs) hlet.current
      (by rw [hlet.res]; exact Option.some_ne_none _) hlength hbody
    rw [endOfHeaders_of_valid env hval]
    exact ⟨hok, hcrash.trans hlet.crashed, Or.inr (Or.inr hstatus)⟩
  · have hrefused : denied = true ∨ found = false := by
      cases denied with
      | true => exact Or.inl rfl
      | false => exact Or.inr (by simpa using hgrant)
    obtain ⟨hres, hheld⟩ := w.held_candidate found
    have hq := quiet_validated w.nextId denied (!found) (w.candidate found)
    have hdone : ((w.candidate found).validated w.nextId denied (!found)).status = .completed := by
      refine validated_ends hres hheld (w.candidate_open found).endedIsDone ?_
      exact hrefused.imp_right fun hf => ⟨by simp [hf], w.candidate_started found⟩
    have hcrash : (w.candidate found).crashed = w.crashed := by
      cases found with
      | true => rfl
      | false => rfl
    obtain ⟨hok, hsame⟩ := rests_of_valid hval (by rw [hdone]; decide)
    rw [hsame]
    refine ⟨hok, (hq.crashed ?_).trans hcrash, Or.inr (Or.inr ?_)⟩
    · show (w.candidate found).parser.res ≠ none
      rw [hres]
      exact Option.some_ne_none _
    · rw [hdone]
      rfl

/-- They are still at work, and hold the parser up. -/
theorem rests_later (hs : w.status = .parseHeader) {found : Bool}
    (hval : validateHeaders env w
      = ({ w.candidate found with
           pending := (w.candidate found).pending ++ [(w.nextId, !found)] }, false))
    (hlength : found = true → lengthThrows env w.parser.head.toHeadInfo = false) :
    (endOfHeaders env w).2 = false ∧ (endOfHeaders env w).1.crashed = w.crashed ∧
      Rests env (endOfHeaders env w).1 := by
  cases found with
  | false =>
    obtain ⟨hok, hsame⟩ := rests_of_valid hval fun h => ParserState.noConfusion h
    rw [hsame]
    exact ⟨hok, rfl, Or.inl rfl⟩
  | true =>
    obtain ⟨hres, hheld⟩ := w.held_candidate true
    rw [endOfHeaders_of_valid env hval]
    by_cases hbody : bodyDue env w.parser.head.toHeadInfo = true
    · obtain ⟨hok, hat⟩ := postHeadersValidation_due (w := { w.candidate true with
        pending := (w.candidate true).pending ++ [(w.nextId, !true)] }) hs hbody
      refine ⟨hok, hat.crashed, Or.inr (Or.inl ?_)⟩
      rw [host_paused_some env (hat.res.trans hres), hat.ctl]
      exact hheld.paused
    · obtain ⟨hok, hstatus, hcrash⟩ := postHeadersValidation_notDue (w := { w.candidate true with
        pending := (w.candidate true).pending ++ [(w.nextId, !true)] }) hs (w.candidate_open true)
        (Option.some_ne_none _) (hlength rfl) (Bool.eq_false_iff.2 hbody)
      exact ⟨hok, hcrash, Or.inr (Or.inr hstatus)⟩

/-- **If the parser does not go on, it stays where it is.** -/
theorem endOfHeaders_rests (hs : w.status = .parseHeader)
    (h : goesOn env w.nextId w.parser.head.toHeadInfo = false) :
    (endOfHeaders env w).2 = false ∧ (endOfHeaders env w).1.crashed = w.crashed ∧
      Rests env (endOfHeaders env w).1 := by
  unfold goesOn at h
  cases hhost : (w.parser.head.hdrs.getD (.empty _ _)).getFirst (bytes "host") with
  | none =>
    have hval : validateHeaders env w = (w.setStatus .error, false) := by
      unfold validateHeaders
      simp only [hhost]
    obtain ⟨hok, hsame⟩ := rests_of_valid hval fun h => ParserState.noConfusion h
    rw [hsame]
    exact ⟨hok, rfl, Or.inl rfl⟩
  | some host =>
    simp only [hhost] at h
    cases hbase : env.baseOk (env.trim host) w.parser.head.uriString with
    | false => simp [hbase] at h
    | true =>
      have hval := validateHeaders_eq hhost hbase
      simp only [hbase, Bool.true_eq_false, if_false] at h
      cases hacc : env.access w.nextId w.parser.head.toHeadInfo with
      | now denied =>
        simp only [hacc] at hval h
        refine rests_now hs hval fun hfound hgrant => ?_
        simpa [hfound, hgrant] using h
      | later =>
        simp only [hacc] at hval h
        refine rests_later hs hval fun hfound => ?_
        simpa [hfound] using h

/-- **If it goes on, it is at the request line again or at a body.** -/
theorem endOfHeaders_goesOn (hs : w.status = .parseHeader)
    (h : goesOn env w.nextId w.parser.head.toHeadInfo = true) :
    (endOfHeaders env w).2 = true ∨
      ((endOfHeaders env w).2 = false ∧ (endOfHeaders env w).1.status.parsingBody = true ∧
        (endOfHeaders env w).1.parser.mpFailed = w.parser.mpFailed ∧
        (endOfHeaders env w).1.crashed = w.crashed ∧
        (host env).paused (endOfHeaders env w).1 = false) := by
  unfold goesOn at h
  cases hhost : (w.parser.head.hdrs.getD (.empty _ _)).getFirst (bytes "host") with
  | none => simp [hhost] at h
  | some hostName =>
    simp only [hhost] at h
    cases hbase : env.baseOk (env.trim hostName) w.parser.head.uriString with
    | false =>
      have hval : validateHeaders env w = (w, true) := by
        unfold validateHeaders
        simp only [hhost, hbase, if_true]
      exact Or.inl (by rw [endOfHeaders_of_throws env hval])
    | true =>
      have hval := validateHeaders_eq hhost hbase
      cases hfound : routeFound env (env.trim hostName) w.parser.head.toHeadInfo with
      | false => simp [hbase, hfound] at h
      | true =>
        simp only [hbase, hfound, Bool.true_eq_false, if_false] at hval h
        cases hacc : env.access w.nextId w.parser.head.toHeadInfo with
        | now denied =>
          cases denied with
          | true => simp [hacc] at h
          | false =>
            simp only [hacc, Bool.not_true] at hval h
            have hlet := letThrough_validated hs
            have hs' := hlet.status.trans hs
            rw [← hlet.info] at h
            rw [endOfHeaders_of_valid env hval]
            rcases Bool.or_eq_true_iff.1 h with hlength | hbody
            · exact Or.inl (postHeadersValidation_throws hs' hlength)
            · obtain ⟨hok, hat⟩ := postHeadersValidation_due hs' hbody
              refine Or.inr ⟨hok, hat.body, hat.failed.trans hlet.failed, hat.crashed.trans hlet.crashed, ?_⟩
              rw [host_paused_some env (hat.res.trans hlet.res), hat.ctl]
              exact hlet.unpaused
        | later =>
          simp only [hacc] at hval h
          rw [endOfHeaders_of_valid env hval]
          exact Or.inl (postHeadersValidation_throws hs h)

end Ends

/-! ## Body bytes -/

/-- The multipart or body buffer takes what it is given, or there is none and the process dies. -/
theorem parseBody_touches {w : World} (hfailed : w.parser.mpFailed = false) (data : Bytes) :
    (parseBody env w data).1.crashed = true ∨
      (parseBody env w data).1.parser.mpBuf ≠ w.parser.mpBuf := by
  have hlonger : ∀ (buf : List Bytes) (x : Bytes), some (buf ++ [x]) ≠ some buf := by
    intro buf x heq
    simpa using congrArg List.length (Option.some.inj heq)
  unfold parseBody
  split
  · unfold readMultip
    simp only [hfailed, Bool.false_eq_true, if_false]
    split
    · next buf id hbuf hid =>
      refine Or.inr ?_
      rw [hbuf]
      split
      · exact hlonger buf data
      · exact (Option.some_ne_none buf).symm
      · rw [(quiet_reply quiet_connResume id _).parser]
        exact hlonger buf data
    · exact Or.inl rfl
  · unfold readBody
    simp only [hfailed, Bool.false_eq_true, if_false]
    split
    · exact Or.inl rfl
    · next buf hbuf =>
      refine Or.inr ?_
      rw [hbuf]
      split
      · exact (Option.some_ne_none buf).symm
      · exact hlonger buf _

/-- The handlers leave the buffer alone. -/
theorem mpBuf_exec (w : World) : (exec env w).parser.mpBuf = w.parser.mpBuf := by
  unfold exec
  split
  · rfl
  · next id hid =>
    simp only
    rw [(quiet_answer env id _).parser]
    rfl

end World

end LibEvmvc
