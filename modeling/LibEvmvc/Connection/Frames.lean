import LibEvmvc.Connection.Connection

set_option autoImplicit false

/-! # What the parts of a connection leave alone

Resuming and replying change the state of the parser, flags of the connection and the controls of
responses, and nothing else (`Quiet`). If they reply to the response the parser holds, they end its
request (`reply_current`); else the parser goes on where it was (`settles_connResume`). -/

namespace LibEvmvc

namespace World

/-- What stays as it is when a response is resumed, replied to or worked on by its handler. -/
structure Quiet (w w' : World) : Prop where
  parser : w'.parser = { w.parser with head := { w.parser.head with status := w'.status } }
  nextId : w'.nextId = w.nextId
  sendingFile : w.sendingFile = true → w'.sendingFile = true
  pending : w'.pending = w.pending
  handling : w'.handling = w.handling
  closed : w'.closed = w.closed
  trace : w'.trace = w.trace
  crashed : w.parser.res ≠ none → w'.crashed = w.crashed
  unpaused : ∀ i, (w.ctl i).paused = false → (w'.ctl i).paused = false

theorem Quiet.refl (w : World) : Quiet w w :=
  ⟨rfl, rfl, fun h => h, rfl, rfl, rfl, rfl, fun _ => rfl, fun _ h => h⟩

theorem Quiet.res {w w' : World} (h : Quiet w w') : w'.parser.res = w.parser.res := by rw [h.parser]

theorem Quiet.info {w w' : World} (h : Quiet w w') :
    w'.parser.head.toHeadInfo = w.parser.head.toHeadInfo := by rw [h.parser]

theorem Quiet.trans {w₁ w₂ w₃ : World} (h : Quiet w₁ w₂) (h' : Quiet w₂ w₃) : Quiet w₁ w₃ where
  parser := by rw [h'.parser, h.parser]
  nextId := h'.nextId.trans h.nextId
  sendingFile hs := h'.sendingFile (h.sendingFile hs)
  pending := h'.pending.trans h.pending
  handling := h'.handling.trans h.handling
  closed := h'.closed.trans h.closed
  trace := h'.trace.trans h.trace
  crashed hres := (h'.crashed (by rw [h.res]; exact hres)).trans (h.crashed hres)
  unpaused i hi := h'.unpaused i (h.unpaused i hi)

theorem setCtl_self (w : World) (id : Nat) (f : ResCtl → ResCtl) :
    (w.setCtl id f).ctl id = f (w.ctl id) := Function.update_self ..

theorem setCtl_of_ne {w : World} {id i : Nat} (h : i ≠ id) (f : ResCtl → ResCtl) :
    (w.setCtl id f).ctl i = w.ctl i := Function.update_of_ne h ..

/-- A field of the controls that `f` leaves alone is the same for every response. -/
theorem setCtl_field {α : Type} (w : World) (id : Nat) (f : ResCtl → ResCtl) (field : ResCtl → α)
    (hf : ∀ r, field (f r) = field r) (i : Nat) :
    field ((w.setCtl id f).ctl i) = field (w.ctl i) := by
  by_cases hi : i = id
  · rw [hi, setCtl_self, hf]
  · rw [setCtl_of_ne hi]

theorem quiet_setCtl (w : World) (id : Nat) {f : ResCtl → ResCtl}
    (hf : ∀ r, (f r).paused = r.paused) : Quiet w (w.setCtl id f) :=
  ⟨rfl, rfl, fun h => h, rfl, rfl, rfl, rfl, fun _ => rfl,
    fun i hi => (w.setCtl_field id f ResCtl.paused hf i).trans hi⟩

theorem quiet_unpaused (w : World) (id : Nat) : Quiet w (w.setCtl id .unpaused) := by
  refine ⟨rfl, rfl, fun h => h, rfl, rfl, rfl, rfl, fun _ => rfl, fun i hi => ?_⟩
  by_cases hid : i = id
  · rw [hid, setCtl_self]
    rfl
  · rw [setCtl_of_ne hid]
    exact hi

theorem quiet_putOut (w : World) : Quiet w w.putOut :=
  ⟨rfl, rfl, fun h => h, rfl, rfl, rfl, rfl, fun _ => rfl, fun _ h => h⟩

theorem quiet_wake (w : World) : Quiet w w.wake :=
  ⟨rfl, rfl, fun h => h, rfl, rfl, rfl, rfl, fun _ => rfl, fun _ h => h⟩

theorem quiet_setPaused (w : World) (b : Bool) : Quiet w (w.setPaused b) :=
  ⟨rfl, rfl, fun h => h, rfl, rfl, rfl, rfl, fun _ => rfl, fun _ h => h⟩

theorem quiet_crash {w : World} (h : w.parser.res = none) : Quiet w w.crash :=
  ⟨rfl, rfl, fun h => h, rfl, rfl, rfl, rfl, fun hres => absurd h hres, fun _ h => h⟩

theorem quiet_setStatus (w : World) (s : ParserState) : Quiet w (w.setStatus s) :=
  ⟨rfl, rfl, fun h => h, rfl, rfl, rfl, rfl, fun _ => rfl, fun _ h => h⟩

section Reply

variable {resume : World → World}

theorem quiet_resumeRes (hres : ∀ w, Quiet w (resume w)) (id : Nat) (w : World) :
    Quiet w (resumeRes resume id w) := by
  unfold resumeRes
  split
  · exact .refl w
  · exact (quiet_setCtl w id fun _ => by rfl).trans (hres _)

theorem quiet_completeResponse (hres : ∀ w, Quiet w (resume w)) (w : World) :
    Quiet w (completeResponse resume w) := by
  unfold completeResponse
  refine (quiet_setStatus w .completed).trans ?_
  simp only
  split
  · exact hres _
  · exact quiet_wake _

theorem quiet_replyStart (id : Nat) (w : World) : Quiet w (replyStart id w) := by
  have hctl : Quiet w (w.setCtl id fun r => { r with started := true }) :=
    quiet_setCtl w id fun _ => rfl
  unfold replyStart
  split
  · exact .refl w
  · exact ⟨rfl, rfl, fun h => h, rfl, rfl, rfl, rfl, fun _ => rfl, hctl.unpaused⟩

theorem quiet_replyEnd (hres : ∀ w, Quiet w (resume w)) (id : Nat) (w : World) :
    Quiet w (replyEnd resume id w) := by
  unfold replyEnd
  split
  · exact .refl w
  · exact (quiet_setCtl w id fun _ => by rfl).trans (quiet_completeResponse hres _)

theorem quiet_reply (hres : ∀ w, Quiet w (resume w)) (id : Nat) (w : World) :
    Quiet w (reply resume id w) := by
  have hend : ∀ w, Quiet w (replyEnd resume id (replyStart id w).putOut) := fun w =>
    ((quiet_replyStart id w).trans (quiet_putOut _)).trans (quiet_replyEnd hres id _)
  unfold reply
  split
  · exact (quiet_resumeRes hres id w).trans (hend _)
  · exact hend w

end Reply

theorem quiet_runResumeCb (id : Nat) (cb : Option ResumeCb) (w : World) :
    Quiet w (runResumeCb id cb w) := by
  unfold runResumeCb
  split
  · exact .refl w
  · split
    · exact quiet_reply .refl id w
    · exact .refl w

theorem quiet_finishResume (id : Nat) (w : World) : Quiet w (finishResume id w) := by
  unfold finishResume
  split
  · exact .refl w
  · exact ((quiet_unpaused w id).trans (quiet_runResumeCb id _ _)).trans
      (quiet_setCtl _ id fun _ => by rfl)

theorem quiet_connResume (w : World) : Quiet w (connResume w) := by
  unfold connResume
  split
  · exact .refl w
  · refine (quiet_setPaused w false).trans ?_
    simp only
    split
    · next hnone => exact quiet_crash hnone
    · exact (quiet_finishResume _ _).trans (quiet_wake _)

/-! ## Ending the current request -/

/-- A response the parser still holds has ended only if the parser is done with its request. -/
def EndedIsDone (w : World) : Prop :=
  ∀ id, w.parser.res = some id → (w.ctl id).ended = true → w.status = .completed

/-- The response the parser holds, if any, has not ended. -/
def CurrentOpen (w : World) : Prop :=
  ∀ id, w.parser.res = some id → (w.ctl id).ended = false

theorem CurrentOpen.endedIsDone {w : World} (h : CurrentOpen w) : EndedIsDone w := by
  intro id hid hend
  rw [h id hid] at hend
  cases hend

theorem EndedIsDone.currentOpen {w : World} (hj : EndedIsDone w) (hs : w.status ≠ .completed) :
    CurrentOpen w := by
  intro id hid
  by_contra hend
  exact hs (hj id hid (by simpa using hend))

/-- The request is done, or nothing has been written for it. -/
def Settles (w w' : World) : Prop :=
  w'.status = .completed ∨
    (w'.status = w.status ∧ w'.out = w.out ∧ ∀ i, (w'.ctl i).ended = (w.ctl i).ended)

theorem Settles.refl (w : World) : Settles w w := Or.inr ⟨rfl, rfl, fun _ => rfl⟩

theorem Settles.trans {w₁ w₂ w₃ : World} (h : Settles w₁ w₂) (h' : Settles w₂ w₃) :
    Settles w₁ w₃ := by
  rcases h' with hdone | ⟨hs', ho', he'⟩
  · exact Or.inl hdone
  · rcases h with hdone | ⟨hs, ho, he⟩
    · exact Or.inl (hs'.trans hdone)
    · exact Or.inr ⟨hs'.trans hs, ho'.trans ho, fun i => (he' i).trans (he i)⟩

theorem EndedIsDone.of_completed {w : World} (h : w.status = .completed) : EndedIsDone w :=
  fun _ _ _ => h

theorem EndedIsDone.of_same {w w' : World} (hj : EndedIsDone w) (hq : Quiet w w')
    (hs : w'.status = w.status) (he : ∀ i, (w'.ctl i).ended = (w.ctl i).ended) : EndedIsDone w' := by
  intro id hid hend
  rw [hq.res] at hid
  rw [he id] at hend
  exact hs.trans (hj id hid hend)

theorem EndedIsDone.settles {w w' : World} (hj : EndedIsDone w) (hq : Quiet w w')
    (h : Settles w w') : EndedIsDone w' := by
  rcases h with hdone | ⟨hs, -, he⟩
  · exact .of_completed hdone
  · exact hj.of_same hq hs he

theorem settles_setCtl (w : World) (id : Nat) {f : ResCtl → ResCtl}
    (hf : ∀ r, (f r).ended = r.ended) : Settles w (w.setCtl id f) :=
  Or.inr ⟨rfl, rfl, w.setCtl_field id f ResCtl.ended hf⟩

section Done

variable {resume : World → World}

/-- What `connection::resume` is good for, whatever the connection looks like. -/
structure Resumes (resume : World → World) : Prop where
  quiet : ∀ w, Quiet w (resume w)
  settles : ∀ w, EndedIsDone w → Settles w (resume w)

theorem resumes_id : Resumes fun w => w := ⟨.refl, fun w _ => .refl w⟩

theorem Resumes.resumeRes (hr : Resumes resume) {w : World} (hj : EndedIsDone w) (id : Nat) :
    Settles w (resumeRes resume id w) := by
  unfold World.resumeRes
  split
  · exact .refl w
  · have hset : Settles w (w.setCtl id fun r => { r with resuming := true }) :=
      settles_setCtl w id fun _ => rfl
    exact hset.trans (hr.settles _ (hj.settles (quiet_setCtl w id fun _ => by rfl) hset))

theorem Resumes.completeResponse (hr : Resumes resume) (w : World) :
    (completeResponse resume w).status = .completed := by
  unfold World.completeResponse
  simp only
  split
  · have hj : EndedIsDone (w.setStatus .completed) := fun _ _ _ => rfl
    rcases hr.settles _ hj with hdone | ⟨hs, -⟩
    · exact hdone
    · exact hs
  · rfl

theorem replyStart_ended (id : Nat) (w : World) :
    (replyStart id w).status = w.status ∧
      ∀ i, ((replyStart id w).ctl i).ended = (w.ctl i).ended := by
  unfold replyStart
  split
  · exact ⟨rfl, fun _ => rfl⟩
  · exact ⟨rfl, w.setCtl_field id (fun r => { r with started := true }) ResCtl.ended fun _ => rfl⟩

/-- **Replying to the response the parser holds ends its request.** -/
theorem Resumes.reply_current (hr : Resumes resume) {w : World} {id : Nat}
    (hj : EndedIsDone w) (hid : w.parser.res = some id) : (reply resume id w).status = .completed := by
  have hend : ∀ w : World, EndedIsDone w → w.parser.res = some id →
      (replyEnd resume id (replyStart id w).putOut).status = .completed := by
    intro w hj hid
    obtain ⟨hstatus, hended⟩ := replyStart_ended id w
    unfold replyEnd
    split
    · next h => exact hstatus.trans (hj id hid ((hended id).symm.trans h))
    · exact hr.completeResponse _
  unfold reply
  split
  · have hq := quiet_resumeRes hr.quiet id w
    exact hend _ (hj.settles hq (hr.resumeRes hj id)) (hq.res.trans hid)
  · exact hend w hj hid

end Done

theorem settles_finishResume {w : World} {id : Nat} (hj : EndedIsDone w)
    (hid : w.parser.res = some id) : Settles w (finishResume id w) := by
  unfold finishResume
  split
  · exact .refl w
  · have hun : Settles w (w.setCtl id .unpaused) := settles_setCtl w id fun _ => rfl
    refine (hun.trans ?_).trans (settles_setCtl _ id fun _ => rfl)
    unfold runResumeCb
    split
    · exact .refl _
    · split
      · exact Or.inl (resumes_id.reply_current (hj.settles (quiet_unpaused w id) hun) hid)
      · exact .refl _

/-- **Resuming a connection ends the current request or leaves it where it was.** -/
theorem settles_connResume {w : World} (hj : EndedIsDone w) : Settles w (connResume w) := by
  unfold connResume
  split
  · exact .refl w
  · have hpause : Settles w (w.setPaused false) := Or.inr ⟨rfl, rfl, fun _ => rfl⟩
    simp only
    split
    · exact Or.inr ⟨rfl, rfl, fun _ => rfl⟩
    · next id hid =>
      have hwake : ∀ w : World, Settles w w.wake := fun _ => Or.inr ⟨rfl, rfl, fun _ => rfl⟩
      exact (hpause.trans (settles_finishResume hj hid)).trans (hwake _)

theorem resumes_connResume : Resumes connResume := ⟨quiet_connResume, fun _ => settles_connResume⟩

/-! ## The end of the headers -/

theorem quiet_validated (id : Nat) (denied notFound : Bool) (w : World) :
    Quiet (w.mark (.validated id denied)) (w.validated id denied notFound) := by
  unfold validated
  simp only
  split
  · exact .refl _
  · exact (quiet_setCtl _ id fun _ => by rfl).trans (quiet_resumeRes quiet_connResume id _)

theorem settles_validated {w : World} (hj : EndedIsDone w) (id : Nat) (denied notFound : Bool) :
    Settles w (w.validated id denied notFound) := by
  have hmark : Settles w (w.mark (.validated id denied)) := Or.inr ⟨rfl, rfl, fun _ => rfl⟩
  unfold validated
  simp only
  split
  · exact hmark
  · have hset := settles_setCtl (w.mark (.validated id denied)) id
      (f := fun r => { r with resumeCb := some ⟨denied, notFound⟩ }) fun _ => rfl
    refine (hmark.trans hset).trans (resumes_connResume.resumeRes ?_ id)
    have hj' : EndedIsDone (w.mark (.validated id denied)) := hj
    exact hj'.settles (quiet_setCtl _ id fun _ => by rfl) hset

theorem endedIsDone_validated {w : World} (hj : EndedIsDone w) (id : Nat) (denied notFound : Bool) :
    EndedIsDone (w.validated id denied notFound) := by
  have hj' : EndedIsDone (w.mark (.validated id denied)) := hj
  exact hj'.settles (quiet_validated id denied notFound w) (settles_validated hj id denied notFound)

theorem currentOpen_newResponse (w : World) : CurrentOpen w.newResponse := by
  intro id hid
  obtain rfl : w.nextId = id := Option.some.inj hid
  show (Function.update w.ctl w.nextId _ w.nextId).ended = false
  rw [Function.update_self]
  rfl

variable (env : ConnEnv)

/-- The response `validate_headers` creates, when it has found a route or not. -/
def candidate (w : World) (found : Bool) : World :=
  (if found then w else w.setStatus .error).newResponse

/-- What `validate_headers` comes to. -/
inductive Validation (env : ConnEnv) (w : World) : World × Bool → Prop where
  | noHost : Validation env w (w.setStatus .error, false)
  | badUrl : Validation env w (w, true)
  | now (found denied : Bool) (h : env.access w.nextId w.parser.head.toHeadInfo = .now denied) :
    Validation env w ((w.candidate found).validated w.nextId denied (!found), false)
  | later (found : Bool) (h : env.access w.nextId w.parser.head.toHeadInfo = .later) :
    Validation env w
      ({ w.candidate found with
        pending := (w.candidate found).pending ++ [(w.nextId, !found)] }, false)

theorem validateHeaders_cases (w : World) : Validation env w (validateHeaders env w) := by
  unfold validateHeaders
  simp only
  split
  · exact .noHost
  · next host hhost =>
    split
    · exact .badUrl
    · split
      · next denied hacc => exact .now _ denied hacc
      · next hacc => exact .later _ hacc

theorem postHeadersValidation_skip {w : World} (h : w.status ≠ .parseHeader) :
    postHeadersValidation env w = (w, false) :=
  if_pos h

/-- What `post_headers_validation` comes to, if the head is still to be decided on. -/
inductive PostValidation (env : ConnEnv) (w : World) : World × Bool → Prop where
  | noBody : PostValidation env w (w.setStatus .readyToExec, false)
  | badLength : PostValidation env w (w, true)
  | untyped (n : Nat) :
    PostValidation env w ((w.setParser { w.parser with bodySize := n }).setStatus .parseBody, false)
  | multipart (n : Nat) :
    PostValidation env w
      ((w.setParser { w.parser with bodySize := n, mpBuf := some [] }).setStatus .parseFormMultipart,
        false)
  | typed (n : Nat) (cl ct : Bytes)
    (hcl : (w.parser.head.hdrs.getD (.empty _ _)).getFirst (bytes "content-length") = some cl)
    (hn : env.strToNum cl = some n)
    (hct : (w.parser.head.hdrs.getD (.empty _ _)).getFirst (bytes "content-type") = some ct)
    (h : contentState env ct ≠ .parseFormMultipart) :
    PostValidation env w
      (initBody ((w.setParser { w.parser with bodySize := n }).setStatus (contentState env ct)),
        false)

theorem postHeadersValidation_cases {w : World} (h : w.status = .parseHeader) :
    PostValidation env w (postHeadersValidation env w) := by
  unfold postHeadersValidation
  rw [if_neg (not_not_intro h)]
  simp only
  split
  · exact .noBody
  · next cl hcl =>
    split
    · exact .badLength
    · next n hn =>
      split
      · exact .untyped n
      · next ct hct =>
        split
        · exact .multipart n
        · next h => exact .typed n cl ct hcl hn hct h

/-- The states of a body, and the error of a multipart body without a boundary. -/
theorem contentState_cases (ct : Bytes) :
    (contentState env ct).parsingBody = true ∨ contentState env ct = .error := by
  unfold contentState
  simp only
  cases hfind : ((env.trim ct).splitOn 59).findSome? _ with
  | none => exact Or.inl rfl
  | some s =>
    obtain ⟨seg, -, hseg⟩ := List.exists_of_findSome?_eq_some hfind
    split at hseg
    · cases hseg
      exact Or.inl rfl
    · split at hseg
      · cases hseg
        show (if getBoundary env ct = [] then ParserState.error else .parseFormMultipart).parsingBody
          = true ∨ (if getBoundary env ct = [] then ParserState.error else .parseFormMultipart) = .error
        split
        · exact Or.inr rfl
        · exact Or.inl rfl
      · split at hseg
        · cases hseg
          exact Or.inl rfl
        · cases hseg

theorem initBody_info (w : World) :
    (initBody w).parser.head.toHeadInfo = w.parser.head.toHeadInfo := by
  unfold initBody
  simp only
  split
  · split
    · exact (quiet_resumeRes quiet_connResume _ _).info
    · rfl
  · rfl

theorem candidate_open (w : World) (found : Bool) : CurrentOpen (w.candidate found) :=
  currentOpen_newResponse _

theorem candidate_info (w : World) (found : Bool) :
    (w.candidate found).parser.head.toHeadInfo = w.parser.head.toHeadInfo := by
  unfold candidate
  split
  · rfl
  · rfl

theorem candidate_frame (w : World) (found : Bool) :
    (w.candidate found).trace = w.trace ∧ (w.candidate found).out = w.out ∧
      (w.candidate found).pending = w.pending ∧ (w.candidate found).handling = w.handling := by
  cases found with
  | true => exact ⟨rfl, rfl, rfl, rfl⟩
  | false => exact ⟨rfl, rfl, rfl, rfl⟩

theorem validateHeaders_info (w : World) :
    (validateHeaders env w).1.parser.head.toHeadInfo = w.parser.head.toHeadInfo := by
  have hcases := validateHeaders_cases env w
  generalize validateHeaders env w = r at hcases ⊢
  cases hcases with
  | noHost => rfl
  | badUrl => rfl
  | now found denied =>
    exact (quiet_validated w.nextId denied (!found) _).info.trans (w.candidate_info found)
  | later found => exact w.candidate_info found

theorem postHeadersValidation_info (w : World) :
    (postHeadersValidation env w).1.parser.head.toHeadInfo = w.parser.head.toHeadInfo := by
  by_cases hs : w.status = .parseHeader
  · have hcases := postHeadersValidation_cases env hs
    generalize postHeadersValidation env w = r at hcases ⊢
    cases hcases with
    | typed n cl ct => exact initBody_info _
    | _ => rfl
  · rw [postHeadersValidation_skip env hs]

theorem endOfHeaders_info (w : World) :
    (endOfHeaders env w).1.parser.head.toHeadInfo = w.parser.head.toHeadInfo := by
  have hval := validateHeaders_info env w
  unfold endOfHeaders
  split
  · next hv => rw [hv] at hval; exact hval
  · next hv => rw [hv] at hval; exact (postHeadersValidation_info env _).trans hval

/-- Validation goes on with the head, or ends the request. -/
theorem validateHeaders_status {w : World} (hw : w.status = .parseHeader) :
    (validateHeaders env w).1.status = .parseHeader ∨ (validateHeaders env w).1.status = .error ∨
      (validateHeaders env w).1.status = .completed := by
  have hcand : ∀ found, (w.candidate found).status = .parseHeader ∨
      (w.candidate found).status = .error := by
    intro found
    cases found with
    | true => exact Or.inl hw
    | false => exact Or.inr rfl
  have hcases := validateHeaders_cases env w
  generalize validateHeaders env w = r at hcases ⊢
  cases hcases with
  | noHost => exact Or.inr (Or.inl rfl)
  | badUrl => exact Or.inl hw
  | now found denied =>
    have hj := (w.candidate_open found).endedIsDone
    rcases settles_validated hj w.nextId denied (!found) with hdone | ⟨hsame, -⟩
    · exact Or.inr (Or.inr hdone)
    · exact (hcand found).imp hsame.trans fun herr => Or.inl (hsame.trans herr)
  | later found => exact (hcand found).imp_right Or.inl

theorem validateHeaders_alive (w : World) :
    (validateHeaders env w).1.crashed = w.crashed ∧ (validateHeaders env w).1.closed = w.closed := by
  have hcases := validateHeaders_cases env w
  generalize validateHeaders env w = r at hcases ⊢
  have hcand : ∀ found, (w.candidate found).crashed = w.crashed ∧
      (w.candidate found).closed = w.closed := by
    intro found
    cases found with
    | true => exact ⟨rfl, rfl⟩
    | false => exact ⟨rfl, rfl⟩
  cases hcases with
  | noHost => exact ⟨rfl, rfl⟩
  | badUrl => exact ⟨rfl, rfl⟩
  | now found denied =>
    have hq := quiet_validated w.nextId denied (!found) (w.candidate found)
    have hres : ((w.candidate found).mark (.validated w.nextId denied)).parser.res ≠ none :=
      Option.some_ne_none _
    exact ⟨(hq.crashed hres).trans (hcand found).1, hq.closed.trans (hcand found).2⟩
  | later found => exact hcand found

/-- What validation hands on has not been answered. -/
theorem validateHeaders_open {w w' : World} (h : validateHeaders env w = (w', false))
    (hw : w'.status = .parseHeader) : CurrentOpen w' := by
  have hcases := validateHeaders_cases env w
  rw [h] at hcases
  generalize hr : (w', false) = r at hcases
  cases hcases with
  | noHost =>
    cases hr
    cases hw
  | badUrl => cases hr
  | now found denied =>
    cases hr
    have hj := (w.candidate_open found).endedIsDone
    refine (endedIsDone_validated hj w.nextId denied (!found)).currentOpen ?_
    rw [hw]
    decide
  | later found =>
    cases hr
    exact w.candidate_open found

/-- A body of no bytes is complete at once, and the response is resumed. -/
theorem initBody_settles {w : World} (ho : CurrentOpen w) :
    Settles w (initBody w) ∨ Settles (w.setStatus .readyToExec) (initBody w) := by
  unfold initBody
  simp only
  split
  · right
    split
    · next id hid =>
      have ho' : CurrentOpen ((w.setParser { w.parser with
          uploaded := 0, mpBuf := some [], mpCompleted := w.parser.bodySize = 0 }).setStatus
          .readyToExec) := ho
      exact resumes_connResume.resumeRes ho'.endedIsDone id
    · exact Or.inr ⟨rfl, rfl, fun _ => rfl⟩
  · exact Or.inl (Or.inr ⟨rfl, rfl, fun _ => rfl⟩)

/-- What follows the head: the body, the handlers, or nothing more. -/
theorem postHeadersValidation_status {w w' : World} (hs : w.status = .parseHeader)
    (ho : CurrentOpen w) (h : postHeadersValidation env w = (w', false)) :
    w'.status.parsingBody = true ∨ w'.status = .readyToExec ∨ w'.status = .error ∨
      w'.status = .completed := by
  have hcases := postHeadersValidation_cases env hs
  rw [h] at hcases
  generalize hr : (w', false) = r at hcases
  cases hcases with
  | noBody =>
    cases hr
    exact Or.inr (Or.inl rfl)
  | badLength => cases hr
  | untyped n =>
    cases hr
    exact Or.inl rfl
  | multipart n =>
    cases hr
    exact Or.inl rfl
  | typed n cl ct =>
    cases hr
    have ho' : CurrentOpen ((w.setParser { w.parser with bodySize := n }).setStatus
      (contentState env ct)) := ho
    rcases initBody_settles ho' with (hdone | ⟨hsame, -⟩) | (hdone | ⟨hsame, -⟩)
    · exact Or.inr (Or.inr (Or.inr hdone))
    · rw [hsame]
      show (contentState env ct).parsingBody = true ∨ contentState env ct = .readyToExec ∨
        contentState env ct = .error ∨ contentState env ct = .completed
      exact (contentState_cases env ct).imp_right fun herr => Or.inr (Or.inl herr)
    · exact Or.inr (Or.inr (Or.inr hdone))
    · exact Or.inr (Or.inl hsame)

/-- **The end of the headers is where the head ends, unless it throws.** -/
theorem endOfHeaders_status {w : World} (hw : w.status = .parseHeader)
    (hthrow : (endOfHeaders env w).2 = false) :
    (endOfHeaders env w).1.status.parsingBody = true ∨
      (endOfHeaders env w).1.status = .readyToExec ∨ (endOfHeaders env w).1.status = .error ∨
      (endOfHeaders env w).1.status = .completed := by
  have hval := validateHeaders_status env hw
  unfold endOfHeaders at hthrow ⊢
  generalize hv : validateHeaders env w = v at hval hthrow ⊢
  obtain ⟨w₁, threw⟩ := v
  cases threw with
  | true => cases hthrow
  | false =>
    simp only at hval hthrow ⊢
    by_cases hs : w₁.status = .parseHeader
    · have hopen := validateHeaders_open env hv hs
      generalize hp : postHeadersValidation env w₁ = r at hthrow ⊢
      obtain ⟨w₂, threw⟩ := r
      obtain rfl : threw = false := hthrow
      exact postHeadersValidation_status env hs hopen hp
    · rw [postHeadersValidation_skip env hs]
      exact Or.inr (Or.inr (hval.resolve_left hs))

/-- An exception leaves the head where it was. -/
theorem endOfHeaders_threw_status {w : World} (hw : w.status = .parseHeader)
    (h : (endOfHeaders env w).2 = true) : (endOfHeaders env w).1.status = .parseHeader := by
  have hcases := validateHeaders_cases env w
  unfold endOfHeaders at h ⊢
  generalize validateHeaders env w = v at hcases h ⊢
  obtain ⟨w₁, threw⟩ := v
  cases threw with
  | true =>
    generalize hr : (w₁, true) = r at hcases
    cases hcases with
    | badUrl =>
      cases hr
      exact hw
    | _ => cases hr
  | false =>
    simp only at h ⊢
    by_cases hs : w₁.status = .parseHeader
    · have hpost := postHeadersValidation_cases env hs
      generalize postHeadersValidation env w₁ = r at hpost h ⊢
      cases hpost with
      | badLength => exact hs
      | _ => cases h
    · rw [postHeadersValidation_skip env hs] at h
      cases h

theorem endOfHeaders_threw (w : World) (h : (endOfHeaders env w).2 = true) :
    (endOfHeaders env w).1.crashed = w.crashed ∧ (endOfHeaders env w).1.closed = w.closed := by
  have hval := validateHeaders_alive env w
  unfold endOfHeaders at h ⊢
  generalize validateHeaders env w = v at hval h ⊢
  obtain ⟨w₁, threw⟩ := v
  cases threw with
  | true => exact hval
  | false =>
    simp only at hval h ⊢
    by_cases hs : w₁.status = .parseHeader
    · have hcases := postHeadersValidation_cases env hs
      generalize postHeadersValidation env w₁ = r at hcases h ⊢
      cases hcases with
      | badLength => exact hval
      | _ => cases h
    · rw [postHeadersValidation_skip env hs]
      exact hval

/-! ## Bodies -/

/-- What a piece of the body comes to. -/
inductive BodyStep (w : World) : World → Prop where
  | ignored : BodyStep w w
  | crash : BodyStep w w.crash
  | more (p : HttpParser) (hhead : p.head = w.parser.head) (hres : p.res = w.parser.res) :
    BodyStep w (w.setParser p)
  | done (p : HttpParser) (hhead : p.head = w.parser.head) (hres : p.res = w.parser.res) :
    BodyStep w ((w.setParser p).setStatus .readyToExec)
  | failed (p : HttpParser) (hhead : p.head = w.parser.head) (hres : p.res = w.parser.res) (id : Nat)
    (hid : w.parser.res = some id) : BodyStep w (reply connResume id (w.setParser p))

theorem parseBody_cases (w : World) (data : Bytes) : BodyStep w (parseBody env w data).1 := by
  unfold parseBody
  split
  · unfold readMultip
    simp only
    split
    · exact .ignored
    · split
      · next buf id hbuf hid =>
        split
        · exact .more _ rfl rfl
        · exact .done _ rfl rfl
        · exact .failed _ (by rfl) (by rfl) id hid
      · exact .crash
  · unfold readBody
    simp only
    split
    · exact .ignored
    · split
      · exact .crash
      · split
        · exact .done _ rfl rfl
        · exact .more _ rfl rfl

/-! ## Handlers -/

/-- Replying to any response leaves the current request where it was, or ends it. -/
theorem reply_status {resume : World → World} (hr : Resumes resume) {w : World}
    (hj : EndedIsDone w) (id : Nat) :
    (reply resume id w).status = w.status ∨ (reply resume id w).status = .completed := by
  have hend : ∀ w : World, (replyEnd resume id (replyStart id w).putOut).status = w.status ∨
      (replyEnd resume id (replyStart id w).putOut).status = .completed := by
    intro w
    unfold replyEnd
    split
    · exact Or.inl (replyStart_ended id w).1
    · exact Or.inr (hr.completeResponse _)
  unfold reply
  split
  · rcases hend (resumeRes resume id w) with hsame | hdone
    · rw [hsame]
      exact (hr.resumeRes hj id).symm.imp_left And.left
    · exact Or.inr hdone
  · exact hend w

theorem reply_endedIsDone {resume : World → World} (hr : Resumes resume) {w : World}
    (hj : EndedIsDone w) (id : Nat) : EndedIsDone (reply resume id w) := by
  have hend : ∀ w : World, EndedIsDone w →
      EndedIsDone (replyEnd resume id (replyStart id w).putOut) := by
    intro w hj
    unfold replyEnd
    split
    · obtain ⟨hstatus, hended⟩ := replyStart_ended id w
      exact hj.of_same ((quiet_replyStart id w).trans (quiet_putOut _)) hstatus hended
    · exact .of_completed (hr.completeResponse _)
  unfold reply
  split
  · exact hend _ (hj.settles (quiet_resumeRes hr.quiet id w) (hr.resumeRes hj id))
  · exact hend w hj

/-- Events and files write, and leave the request where it is. -/
theorem sendEvent_ended (id : Nat) (w : World) :
    (sendEvent id w).1.status = w.status ∧
      ∀ i, ((sendEvent id w).1.ctl i).ended = (w.ctl i).ended := by
  obtain ⟨hstatus, hended⟩ := replyStart_ended id w
  unfold sendEvent
  split
  · exact ⟨rfl, fun _ => rfl⟩
  · have hflag := (replyStart id w).setCtl_field id (fun r => { r with eventStarted := true })
      ResCtl.ended fun _ => rfl
    exact ⟨hstatus, fun i => (hflag i).trans (hended i)⟩

theorem sendFile_ended (id : Nat) (chunks : List Bool) (w : World) :
    (sendFile id chunks w).1.status = w.status ∧
      ∀ i, ((sendFile id chunks w).1.ctl i).ended = (w.ctl i).ended := by
  unfold sendFile
  split
  · exact ⟨rfl, fun _ => rfl⟩
  · simp only
    split
    · exact ⟨rfl, fun _ => rfl⟩
    · exact replyStart_ended id _

theorem runAct_status {w : World} (hj : EndedIsDone w) (id : Nat) (a : HandlerAct) :
    (runAct id w a).1.status = w.status ∨ (runAct id w a).1.status = .completed := by
  cases a with
  | reply => exact reply_status resumes_connResume hj id
  | event => exact Or.inl (sendEvent_ended id w).1
  | file chunks => exact Or.inl (sendFile_ended id chunks w).1

theorem quiet_sendEvent (id : Nat) (w : World) : Quiet w (sendEvent id w).1 := by
  unfold sendEvent
  split
  · exact .refl w
  · exact (quiet_replyStart id w).trans
      ((quiet_setCtl _ id fun _ => by rfl).trans ((quiet_putOut _).trans (quiet_wake _)))

theorem quiet_sendFile (id : Nat) (chunks : List Bool) (w : World) :
    Quiet w (sendFile id chunks w).1 := by
  have hflag : Quiet w { w with sendingFile := true, file := chunks } :=
    ⟨rfl, rfl, fun _ => rfl, rfl, rfl, rfl, rfl, fun _ => rfl, fun _ h => h⟩
  unfold sendFile
  split
  · exact .refl w
  · simp only
    split
    · exact hflag
    · exact hflag.trans (quiet_replyStart id _)

theorem quiet_runAct (id : Nat) (w : World) (a : HandlerAct) : Quiet w (runAct id w a).1 := by
  cases a with
  | reply => exact quiet_reply quiet_connResume id w
  | event => exact quiet_sendEvent id w
  | file chunks => exact quiet_sendFile id chunks w

theorem runAct_endedIsDone {w : World} (hj : EndedIsDone w) (id : Nat) (a : HandlerAct) :
    EndedIsDone (runAct id w a).1 := by
  have hq := quiet_runAct id w a
  cases a with
  | reply => exact reply_endedIsDone resumes_connResume hj id
  | event => exact hj.of_same hq (sendEvent_ended id w).1 (sendEvent_ended id w).2
  | file chunks => exact hj.of_same hq (sendFile_ended id chunks w).1 (sendFile_ended id chunks w).2

/-- **An invariant of what handlers do is one of what they answer.** -/
theorem answer_invariant {I : World → Prop} (id : Nat) {w : World}
    (hact : ∀ w a, a ∈ env.handler id w.parser.head.toHeadInfo ∨ a = .reply → I w →
      I (runAct id w a).1)
    (hw : I w) : I (answer env id w) := by
  have hacts : ∀ acts w, I w → (∀ a ∈ acts, a ∈ env.handler id w.parser.head.toHeadInfo) →
      I (runActs id acts w).1 := by
    intro acts
    induction acts with
    | nil => exact fun _ hw _ => hw
    | cons a acts ih =>
      intro w hw hmem
      have hinfo := (quiet_runAct id w a).info
      have hstep := hact w a (Or.inl (hmem a List.mem_cons_self)) hw
      unfold runActs
      split
      · next h => rw [h] at hstep; exact hstep
      · next h =>
        rw [h] at hstep hinfo
        refine ih _ hstep fun b hb => ?_
        rw [hinfo]
        exact hmem b (List.mem_cons_of_mem a hb)
  have hdone := hacts _ w hw fun _ ha => ha
  unfold answer
  split
  · next h => rw [h] at hdone; exact hact _ .reply (Or.inr rfl) hdone
  · next h => rw [h] at hdone; exact hdone

theorem quiet_answer (id : Nat) (w : World) : Quiet w (answer env id w) :=
  answer_invariant env id (fun w' a _ hw' => hw'.trans (quiet_runAct id w' a)) (.refl w)

/-- Handlers leave the request where it was, or end it. -/
theorem answer_status {w : World} (hj : EndedIsDone w) (id : Nat) :
    EndedIsDone (answer env id w) ∧
      ((answer env id w).status = w.status ∨ (answer env id w).status = .completed) := by
  refine answer_invariant env id (I := fun w' => EndedIsDone w' ∧
    (w'.status = w.status ∨ w'.status = .completed)) (fun w' a _ hw' => ?_) ⟨hj, Or.inl rfl⟩
  refine ⟨runAct_endedIsDone hw'.1 id a, ?_⟩
  rcases runAct_status hw'.1 id a with hsame | hdone
  · rw [hsame]
    exact hw'.2
  · exact Or.inr hdone

/-- What a reset leaves behind. -/
theorem parser_reset (w : World) :
    w.reset.parser = { HttpParser.fresh with head := w.parser.head.reset } := by
  unfold reset
  split
  · rfl
  · rfl

theorem reset_status (w : World) : w.reset.status = .parseReqLine := by
  show w.reset.parser.head.status = .parseReqLine
  rw [w.parser_reset]
  rfl

theorem reset_frame (w : World) :
    w.reset.trace = w.trace ∧ w.reset.out = w.out ∧ w.reset.nextId = w.nextId ∧
      w.reset.pending = w.pending ∧ w.reset.handling = w.handling ∧
      ∀ i, (w.reset.ctl i).paused = (w.ctl i).paused := by
  unfold World.reset
  split
  · exact ⟨rfl, rfl, rfl, rfl, rfl, w.setCtl_field _ .withoutCb ResCtl.paused fun _ => rfl⟩
  · exact ⟨rfl, rfl, rfl, rfl, rfl, fun _ => rfl⟩

theorem reset_currentOpen (w : World) : CurrentOpen w.reset := by
  intro id hid
  rw [w.parser_reset] at hid
  cases hid

theorem reset_alive (w : World) : w.reset.crashed = w.crashed ∧ w.reset.closed = w.closed := by
  unfold reset
  split
  · exact ⟨rfl, rfl⟩
  · exact ⟨rfl, rfl⟩

theorem renew_status (w : World) : w.renew.status ≠ .error ∧ w.renew.status ≠ .completed := by
  unfold renew
  split
  · rw [w.reset_status]
    decide
  · next hs =>
    rw [not_or] at hs
    exact hs.symm

/-- Without a response the loop is not held up. -/
theorem host_paused_none {w : World} (h : w.parser.res = none) : (host env).paused w = false := by
  simp only [host, h]

/-- **The connection keeps the rules of the loop.** -/
theorem host_lawful : (host env).Lawful where
  head_setHead _ _ := rfl
  crashed_setHead _ _ := rfl
  paused_setHead _ _ := rfl
  head_reset w := by
    show w.reset.parser.head = _
    rw [w.parser_reset]
    rfl
  crashed_reset w := w.reset_alive.1
  paused_reset w := by
    have hres : w.reset.parser.res = none := by rw [w.parser_reset]; rfl
    exact host_paused_none env hres
  endOfHeaders_info := endOfHeaders_info env
  endOfHeaders_status w hw hthrow := by
    have hnext := endOfHeaders_status env hw hthrow
    show (endOfHeaders env w).1.status ≠ _ ∧ (endOfHeaders env w).1.status ≠ _
    generalize (endOfHeaders env w).1.status = s at hnext
    constructor
    · rintro rfl
      simp [ParserState.parsingBody] at hnext
    · rintro rfl
      simp [ParserState.parsingBody] at hnext
  endOfHeaders_threw w h := (endOfHeaders_threw env w h).1

end World

end LibEvmvc
