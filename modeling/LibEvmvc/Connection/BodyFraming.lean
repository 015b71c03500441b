import LibEvmvc.Connection.BodyBuffer
import LibEvmvc.Connection.BodyKind
import LibEvmvc.Multipart.Chunks

set_option autoImplicit false

/-! # How much of the input a body takes

After the headers of a request its body comes in, followed by whatever the client sends next. Three of
the four body states read no more than the content length. `parse_form_multip` does not look at it:
it takes all it is given, so a multipart body is cut off where it ends only if a call ends there. -/

namespace LibEvmvc

namespace BodyParser

variable (env : BodyEnv)

/-- A request after its headers: the input that has come in and is not used up, and how many bytes
    are. -/
structure BodyRun where
  parser : BodyParser
  input : Bytes
  used : Nat

/-- `on_connection_read`: the whole input is parsed, and what is used up is drained. -/
def arrive (r : BodyRun) (d : Bytes) : BodyRun :=
  let result := parse (host env) env.toHeadEnv r.parser (r.input ++ d)
  { parser := result.world
    input := (r.input ++ d).drop result.used
    used := r.used + result.used }

/-- The input comes in in pieces. -/
def receive (r : BodyRun) (ds : List Bytes) : BodyRun := ds.foldl (arrive env) r

/-- A request at the end of its headers. -/
def atBody (p : BodyParser) : BodyRun := ⟨(endOfHeaders env p).1, [], 0⟩

/-- Of the bytes that have come in, the body's are used up and no others. -/
structure Framed (n : Nat) (seen : Bytes) (r : BodyRun) : Prop where
  used : r.used = min n seen.length
  input : r.input = seen.drop n
  fault : r.parser.fault = none

/-- No body has been read since the parser was reset. -/
structure Idle (p : BodyParser) : Prop where
  state : p.mpState = .init
  uploaded : p.uploaded = 0
  completed : p.mpCompleted = false

/-! ## The parser before a body -/

section Before

variable {env} {p : BodyParser}

theorem Idle.of_eq (h : Idle p) {q : BodyParser} (hstate : q.mpState = p.mpState)
    (huploaded : q.uploaded = p.uploaded) (hcompleted : q.mpCompleted = p.mpCompleted) : Idle q :=
  ⟨hstate.trans h.state, huploaded.trans h.uploaded, hcompleted.trans h.completed⟩

/-- The states of a request's head. -/
def InHead : ParserState → Prop
  | .parseReqLine | .parseHeader => True
  | _ => False

/-- In the head of a request no body has been read. -/
def IdleHead (p : BodyParser) : Prop := InHead p.status → Idle p

theorem IdleHead.past (h : ¬ InHead p.status) : IdleHead p := fun hin => absurd hin h

/-- `validate_headers` reads no body. -/
theorem validateHeaders_idle (env : BodyEnv) (h : Idle p) : Idle (validateHeaders env p).1 := by
  unfold validateHeaders
  split
  · exact h.of_eq rfl rfl rfl
  · simp only
    split
    · exact h
    · split
      · split
        · exact h.of_eq rfl rfl rfl
        · exact h.of_eq rfl rfl rfl
      · exact h.of_eq rfl rfl rfl

theorem contentType_past (env : BodyEnv) (h : ¬ InHead p.status) (ct : Bytes) (segs : List Bytes) :
    ¬ InHead (contentType env p ct segs).status := by
  induction segs with
  | nil => exact h
  | cons seg segs ih =>
    unfold contentType
    split
    · exact id
    · split
      · unfold initMultip
        simp only
        split
        · exact id
        · exact id
      · split
        · exact id
        · exact ih

theorem initBody_past (h : ¬ InHead p.status) : ¬ InHead (initBody p).status := by
  unfold initBody
  simp only
  split
  · split
    · exact id
    · exact id
  · exact h

/-- After the headers, no body has been read or the head is over. -/
theorem postHeadersValidation_idle (env : BodyEnv) (h : Idle p)
    (hok : (postHeadersValidation env p).2 = false) :
    IdleHead (postHeadersValidation env p).1 := by
  unfold postHeadersValidation at hok ⊢
  split
  · exact fun _ => h
  · next hs =>
    rw [if_neg hs] at hok
    simp only at hok ⊢
    split
    · exact .past id
    · next cl hcl =>
      simp only [hcl] at hok
      split
      · next hn =>
        rw [hn] at hok
        cases hok
      · next n hn =>
        split
        · exact .past id
        · next ct hct =>
          have hct := contentType_past env (p := { p with bodySize := n }.setStatus .parseBody) id ct
            ((env.trim ct).splitOn 59)
          split
          · exact .past (initBody_past hct)
          · exact .past hct

theorem endOfHeaders_idle (env : BodyEnv) (h : Idle p) (hok : (endOfHeaders env p).2 = false) :
    IdleHead (endOfHeaders env p).1 := by
  have hvalid := validateHeaders_idle env h
  unfold endOfHeaders at hok ⊢
  split
  · next q hq =>
    rw [hq] at hvalid
    exact fun _ => hvalid
  · next q hq =>
    rw [hq] at hvalid
    rw [hq] at hok
    exact postHeadersValidation_idle env hvalid hok

theorem readBody_status (p : BodyParser) (data : Bytes) :
    (readBody p data).1.status = p.status := by
  unfold readBody
  split
  · rfl
  · split
    · rfl
    · rfl

theorem takeBody_past (h : ¬ InHead p.status) (params : Bytes → MpParams) :
    ¬ InHead (takeBody p params).status := by
  unfold takeBody
  split
  · exact id
  · exact h
  · exact h

theorem multipDone_past (h : ¬ InHead p.status) (r : MpParse) :
    ¬ InHead (multipDone p r).status := by
  unfold multipDone
  split
  · exact id
  · exact id
  · exact h
  · exact h
  · exact h

/-- No body state goes back to the head. -/
theorem parseBody_past (env : BodyEnv) (h : ¬ InHead p.status) (data : Bytes) :
    ¬ InHead (parseBody env p data).1.status := by
  have hread : ¬ InHead (readBody p data).1.status := by
    rw [readBody_status]
    exact h
  unfold parseBody
  split
  · unfold parseFormMultip
    split
    · exact h
    · split
      · exact h
      · simp only
        split
        · split
          · exact h
          · exact h
        · exact multipDone_past (by exact h) _
  · unfold parseFormUrlenc
    simp only
    split
    · exact takeBody_past hread fun body => ⟨urlencParams env.unescape body, []⟩
    · exact hread
  · unfold parseFormTxtpln
    simp only
    split
    · exact id
    · exact hread
  · unfold parseRaw
    simp only
    split
    · exact takeBody_past hread fun body => ⟨[([], body)], []⟩
    · exact hread

/-- **Whatever a parser has done before, it comes to the end of the headers idle.** -/
theorem idleHead_loop (env : BodyEnv) : LoopInvariant (host env) IdleHead where
  setHead p h hp hs _ _ := by
    refine (hp ?_).of_eq rfl rfl rfl
    show InHead p.head.status
    rcases hs with hs | hs
    · rw [show p.head.status = _ from hs]
      trivial
    · rw [show p.head.status = _ from hs]
      trivial
  resetHead _ _ _ _ _ _ := ⟨rfl, rfl, rfl⟩
  endOfHeaders p hp hs hok := by
    refine endOfHeaders_idle env (hp ?_) hok
    show InHead p.head.status
    rw [show p.head.status = _ from hs]
    trivial
  threw _ _ _ _ _ := ⟨rfl, rfl, rfl⟩
  parseBody p data hp hs := by
    refine .past (parseBody_past env ?_ data)
    intro hin
    have hbody : p.status.parsingBody = true := hs
    cases hstatus : p.status with
    | parseReqLine =>
      rw [hstatus] at hbody
      cases hbody
    | parseHeader =>
      rw [hstatus] at hbody
      cases hbody
    | _ =>
      rw [hstatus] at hin
      exact hin
  crash p hp hin := (hp hin).of_eq rfl rfl rfl

end Before

/-! ## Arrivals -/

section Arrivals

variable {env} {n : Nat} {seen : Bytes} {r : BodyRun}

/-- The body is complete. -/
structure Done (n : Nat) (seen : Bytes) (r : BodyRun) : Prop where
  status : r.parser.status = .readyToExec
  used : r.used = n
  length : n ≤ seen.length
  input : r.input = seen.drop n
  fault : r.parser.fault = none

theorem Done.framed (h : Done n seen r) : Framed n seen r :=
  ⟨by rw [h.used, Nat.min_eq_left h.length], h.input, h.fault⟩

/-- In a body state all of the input goes to the body. -/
theorem arrive_body (hbody : r.parser.status.parsingBody = true) (hinput : r.input = [])
    {d : Bytes} (hd : d ≠ []) :
    arrive env r d
      = ⟨(parseBody env r.parser d).1, d.drop (parseBody env r.parser d).2,
        r.used + (parseBody env r.parser d).2⟩ := by
  unfold arrive
  rw [hinput, List.nil_append, parse_of_body hd hbody]
  rfl

/-- An arrival without data does nothing. -/
theorem arrive_nil (hinput : r.input = []) : arrive env r [] = r := by
  unfold arrive
  rw [hinput]
  obtain ⟨parser, input, used⟩ := r
  obtain rfl : input = [] := hinput
  rfl

/-- What comes after the body waits in the input. -/
theorem Done.arrive (h : Done n seen r) (d : Bytes) : Done n (seen ++ d) (arrive env r d) := by
  unfold BodyParser.arrive
  rw [parse_of_ready h.status]
  refine ⟨h.status, h.used, ?_, ?_, h.fault⟩
  · rw [List.length_append]
    exact Nat.le_add_right_of_le h.length
  · show r.input ++ d = _
    rw [h.input, List.drop_append_of_le_length h.length]

/-- What each arrival keeps holds after every number of them. -/
theorem receive_invariant {I : Bytes → BodyRun → Prop}
    (hstep : ∀ seen r d, I seen r → I (seen ++ d) (BodyParser.arrive env r d)) (h : I seen r)
    (ds : List Bytes) : I (seen ++ ds.flatten) (receive env r ds) := by
  induction ds generalizing seen r with
  | nil =>
    rw [List.flatten_nil, List.append_nil]
    exact h
  | cons d ds ih =>
    rw [List.flatten_cons, ← List.append_assoc]
    exact ih (hstep seen r d h)

end Arrivals

/-! ## Bodies that end at the content length -/

section Clamped

variable {env} {n : Nat} {seen : Bytes} {r : BodyRun} {p : BodyParser}

/-- The parser reads the body of `n` bytes of which it has seen some, in one of the states that read
    up to the content length. -/
structure Reading (n : Nat) (seen : Bytes) (p : BodyParser) : Prop where
  body : p.status.parsingBody = true
  clamped : p.status ≠ .parseFormMultipart
  state : p.mpState ≠ .failed
  buffer : p.mpBuf.isSome
  completed : p.mpCompleted = false
  size : p.bodySize = n
  uploaded : p.uploaded = seen.length
  unfinished : seen.length < n
  res : p.res.isSome
  fault : p.fault = none

/-- `read_body` takes no more than is missing. -/
theorem readBody_reading (h : Reading n seen p) (d : Bytes) :
    (readBody p d).2 = min d.length (n - seen.length) ∧
      (readBody p d).1.mpCompleted = decide (n ≤ seen.length + d.length) ∧
      (readBody p d).1.mpBuf.isSome ∧ (readBody p d).1.fault = none ∧
      (readBody p d).1.res = p.res ∧ (readBody p d).1.mpState = p.mpState ∧
      (readBody p d).1.bodySize = n ∧
      (readBody p d).1.uploaded = seen.length + min d.length (n - seen.length) := by
  obtain ⟨buf, hbuf⟩ := Option.isSome_iff_exists.1 h.buffer
  have hlt := h.unfinished
  unfold readBody
  rw [if_neg h.state, hbuf]
  simp only [h.size, h.uploaded, h.completed, Bool.false_or, Option.isSome_some, h.fault, true_and,
    decide_eq_decide]
  split
  · next hmore => refine ⟨?_, ?_, ?_⟩ <;> omega
  · next hmore => refine ⟨?_, ?_, ?_⟩ <;> omega

/-- The body states that read up to the content length: the body is read, and made into parameters
    once it is complete. -/
theorem parseBody_clamped (env : BodyEnv) (h : Reading n seen p) (d : Bytes) :
    (parseBody env p d).2 = (readBody p d).2 ∧
      (n ≤ seen.length + d.length → (parseBody env p d).1.status = .readyToExec ∧
        (parseBody env p d).1.fault = none) ∧
      (seen.length + d.length < n → (parseBody env p d).1 = (readBody p d).1) := by
  obtain ⟨-, hdone, hbuf, hfault, hres, -⟩ := readBody_reading h d
  obtain ⟨buf, hbuf⟩ := Option.isSome_iff_exists.1 hbuf
  obtain ⟨paused, hpaused⟩ := Option.isSome_iff_exists.1 h.res
  rw [hpaused] at hres
  have htake : ∀ params : Bytes → MpParams, (takeBody (readBody p d).1 params).status = .readyToExec ∧
      (takeBody (readBody p d).1 params).fault = none := by
    intro params
    unfold takeBody
    rw [hbuf, hres]
    exact ⟨rfl, hfault⟩
  by_cases hend : n ≤ seen.length + d.length
  · have hcond : (readBody p d).1.fault = none ∧ (readBody p d).1.mpCompleted = true := by
      rw [hdone]
      exact ⟨hfault, decide_eq_true hend⟩
    refine ⟨?_, fun _ => ?_, fun hlt => absurd hend (by omega)⟩
    · unfold parseBody parseFormUrlenc parseFormTxtpln parseRaw
      split
      · next hs => exact absurd hs h.clamped
      · simp only [if_pos hcond]
      · simp only [if_pos hcond]
      · simp only [if_pos hcond]
    · unfold parseBody parseFormUrlenc parseFormTxtpln parseRaw
      split
      · next hs => exact absurd hs h.clamped
      · simp only [if_pos hcond]
        exact htake _
      · simp only [if_pos hcond]
        exact ⟨rfl, hfault⟩
      · simp only [if_pos hcond]
        exact htake _
  · have hcond : ¬ ((readBody p d).1.fault = none ∧ (readBody p d).1.mpCompleted = true) := by
      rw [hdone, decide_eq_false hend]
      exact fun hand => Bool.false_ne_true hand.2
    have hread : parseBody env p d = readBody p d := by
      unfold parseBody parseFormUrlenc parseFormTxtpln parseRaw
      split
      · next hs => exact absurd hs h.clamped
      · simp only [if_neg hcond]
      · simp only [if_neg hcond]
      · simp only [if_neg hcond]
    rw [hread]
    exact ⟨rfl, fun hle => absurd hle hend, fun _ => rfl⟩

/-- A body that ends at the content length, while it is read and after. -/
def Clamped (n : Nat) (seen : Bytes) (r : BodyRun) : Prop :=
  (Reading n seen r.parser ∧ r.input = [] ∧ r.used = seen.length) ∨ Done n seen r

theorem Clamped.framed (h : Clamped n seen r) : Framed n seen r := by
  rcases h with ⟨hread, hinput, hused⟩ | hdone
  · have hlt := hread.unfinished
    refine ⟨by omega, ?_, hread.fault⟩
    rw [hinput, List.drop_eq_nil_of_le (Nat.le_of_lt hlt)]
  · exact hdone.framed

/-- One arrival. -/
theorem Clamped.arrive (h : Clamped n seen r) (d : Bytes) :
    Clamped n (seen ++ d) (arrive env r d) := by
  rcases h with ⟨hread, hinput, hused⟩ | hdone
  · by_cases hd : d = []
    · subst hd
      rw [arrive_nil hinput, List.append_nil]
      exact .inl ⟨hread, hinput, hused⟩
    · have hlt := hread.unfinished
      obtain ⟨hcount, hcomplete, hbuf, hfault, hres, hstate, hsize, huploaded⟩ :=
        readBody_reading hread d
      obtain ⟨hused', hend, hmore⟩ := parseBody_clamped env hread d
      rw [arrive_body hread.body hinput hd, hused', hcount, hused]
      by_cases hle : n ≤ seen.length + d.length
      · refine .inr ⟨(hend hle).1, ?_, ?_, ?_, (hend hle).2⟩
        · show seen.length + min d.length (n - seen.length) = n
          omega
        · rw [List.length_append]
          exact hle
        · have hmin : min d.length (n - seen.length) = n - seen.length := by omega
          show d.drop (min d.length (n - seen.length)) = _
          rw [hmin, List.drop_append, List.drop_eq_nil_of_le (Nat.le_of_lt hlt), List.nil_append]
      · rw [Nat.not_le] at hle
        have hmin : min d.length (n - seen.length) = d.length := by omega
        have hstatus := readBody_status r.parser d
        rw [hmin] at huploaded
        rw [hmin, hmore hle]
        refine .inl ⟨⟨?_, ?_, ?_, hbuf, ?_, hsize, ?_, ?_, ?_, hfault⟩, ?_, ?_⟩
        · rw [hstatus]
          exact hread.body
        · rw [hstatus]
          exact hread.clamped
        · rw [hstate]
          exact hread.state
        · rw [hcomplete, decide_eq_false (by omega)]
        · rw [huploaded, List.length_append]
        · rw [List.length_append]
          exact hle
        · rw [hres]
          exact hread.res
        · exact List.drop_length
        · rw [List.length_append]
  · exact .inr (hdone.arrive d)

end Clamped

/-! ## Multipart bodies -/

section Multip

variable {env} {b : Bytes} {q : MpParse × Bytes} {p : BodyParser} {r : BodyRun} {u : Upload}

/-- A second turn without more data does nothing. -/
theorem mpLoop_mpLoop (trim : Bytes → Bytes) (m : MpParse) (buf : Bytes) :
    mpLoop trim (mpLoop trim m buf).1 (mpLoop trim m buf).2 = mpLoop trim m buf := by
  have hagain := (mpReader trim).feed_again m buf
  have hloop : mpLoop trim m buf
      = mpNoLine ((mpReader trim).feed m buf).1 ((mpReader trim).feed m buf).2 := rfl
  rw [hloop]
  generalize (mpReader trim).feed m buf = s at hagain
  have hidle : mpNoLine s.1 s.2 = s → mpLoop trim (mpNoLine s.1 s.2).1 (mpNoLine s.1 s.2).2
      = mpNoLine s.1 s.2 := by
    intro hsame
    unfold mpLoop
    rw [hsame, hagain, hsame]
  have hfail : mpNoLine s.1 s.2 = (s.1.fail .invalidType, s.2) →
      mpLoop trim (mpNoLine s.1 s.2).1 (mpNoLine s.1 s.2).2 = mpNoLine s.1 s.2 := by
    intro hfailed
    rw [hfailed]
    unfold mpLoop
    rw [(mpReader trim).feed_halted (by simp [mpReader, MpParse.fail])]
    exact if_pos (.inr nofun)
  by_cases hactive : s.1.completed = true ∨ s.1.stage ≠ .content
  · exact hidle (if_pos hactive)
  · have hinactive : s.1.completed = false ∧ s.1.stage = .content := by simpa using hactive
    cases hkind : s.1.tree.currentNode.kind with
    | form value => exact hidle (by unfold mpNoLine; rw [if_neg hactive, hkind])
    | file filename size appendCrlf written =>
      by_cases hlong : maxContentBufLen ≤ s.2.length
      · have hflush : mpNoLine s.1 s.2 = ({ s.1 with tree := s.1.tree.modifyCurrent fun n =>
            { n with kind := .file filename size false (written ++ heldBack appendCrlf ++ s.2) } },
            []) := by
          unfold mpNoLine
          rw [if_neg hactive, hkind]
          exact if_pos hlong
        rw [hflush]
        unfold mpLoop
        simp only [(mpReader trim).feed_noCrlf _ noCrlf_nil]
        unfold mpNoLine
        rw [if_neg (by simpa using hinactive)]
        simp [maxContentBufLen]
      · exact hidle (by unfold mpNoLine; rw [if_neg hactive, hkind]; exact if_neg hlong)
    | unset => exact hfail (by unfold mpNoLine; rw [if_neg hactive, hkind])
    | subcontent ty st en cs => exact hfail (by unfold mpNoLine; rw [if_neg hactive, hkind])

/-- An upload without an error, or one that has failed before its end. -/
def Faultless (u : Upload) : Prop := u.error = none ∨ (u.stage = .failed ∧ u.completed = false)

theorem faultless_line (trim : Bytes → Bytes) (h : Faultless u)
    (hrun : (Upload.reader trim b).halted u = false) (l : Bytes) :
    Faultless ((Upload.reader trim b).line u l) := by
  have hopen : u.completed = false ∧ u.stage ≠ .failed := by simpa [Upload.reader] using hrun
  have herror : u.error = none := h.resolve_right fun hfailed => hopen.2 hfailed.1
  have hfail : ∀ e, Faultless (u.fail e) := fun e => .inr ⟨rfl, hopen.1⟩
  show Faultless (Upload.line trim b u l)
  unfold Upload.line
  split
  · split
    · exact .inl herror
    · exact hfail _
  · split
    · exact .inl herror
    · unfold Upload.headerLine
      split
      · exact .inl herror
      · exact hfail _
  · unfold Upload.contentLine
    split
    · exact hfail _
    · split
      · exact .inl herror
      · split
        · exact .inl herror
        · exact .inl herror
  · exact h

theorem faultless_noLine (h : Faultless u) (buf : Bytes) : Faultless (u.noLine buf).1 := by
  unfold Upload.noLine
  split
  · exact h
  · next hactive =>
    rw [not_or, Bool.not_eq_true] at hactive
    split
    · split
      · exact h
      · exact h
    · exact h
    · exact .inr ⟨rfl, hactive.1⟩

theorem faultless_call (trim : Bytes → Bytes) (h : Faultless u) (buf d : Bytes) :
    Faultless (Upload.call trim b (u, buf) d).1 := by
  unfold Upload.call
  split
  · exact h
  · exact faultless_noLine ((Upload.reader trim b).feed_invariant
      (fun s l hs hrun => faultless_line trim hs hrun l) h _) _

/-- The parser reads a multipart body, and the variables of the multipart parser are `q`. -/
structure Multip (q : MpParse × Bytes) (p : BodyParser) : Prop where
  status : p.status = .parseFormMultipart
  buffer : p.mpBuf = some q.2
  tree : p.mpTree = some q.1.tree
  state : p.mpState = q.1.stage
  completed : p.mpCompleted = q.1.completed
  error : q.1.error = none
  res : p.res.isSome
  fault : p.fault = none

/-- **A call of `parse_form_multip` takes all it is given.** -/
theorem parseBody_multip (env : BodyEnv) (h : Multip q p) (hstage : q.1.stage ≠ .failed) (d : Bytes)
    (herror : (mpCall env.trim q d).1.error = none) :
    (parseBody env p d).2 = d.length ∧
      ((mpCall env.trim q d).1.completed = false →
        Multip (mpCall env.trim q d) (parseBody env p d).1) ∧
      ((mpCall env.trim q d).1.completed = true →
        (parseBody env p d).1.status = .readyToExec ∧ (parseBody env p d).1.fault = none) := by
  obtain ⟨paused, hpaused⟩ := Option.isSome_iff_exists.1 h.res
  have hmultip : ∀ p' : BodyParser, p'.mpState = p.mpState → p'.mpCompleted = p.mpCompleted →
      p'.multip q.1.tree = q.1 := by
    intro p' hstate hcompleted
    unfold multip
    rw [hstate, hcompleted, h.state, h.completed, ← h.error]
  have hcall : mpCall env.trim q d = mpLoop env.trim q.1 (q.2 ++ d) := if_neg hstage
  have hparse : parseBody env p d = (multipDone (({ p with uploaded := p.uploaded + d.length } :
      BodyParser).setMultip (mpCall env.trim q d)) (mpCall env.trim q d).1, d.length) := by
    unfold parseBody
    rw [h.status]
    show parseFormMultip env p d = _
    unfold parseFormMultip
    rw [if_neg (by rw [h.state]; exact hstage)]
    simp only [h.buffer, h.tree]
    have hself := hmultip { p with
      uploaded := p.uploaded + d.length
      mpBuf := some q.2
      mpTree := some q.1.tree } rfl rfl
    rw [hself, hcall]
  have hres : (({ p with uploaded := p.uploaded + d.length } : BodyParser).setMultip
      (mpCall env.trim q d)).res = some paused := hpaused
  rw [hparse]
  refine ⟨rfl, fun hopen => ?_, fun hdone => ?_⟩
  · have hsame : multipDone (({ p with uploaded := p.uploaded + d.length } : BodyParser).setMultip
        (mpCall env.trim q d)) (mpCall env.trim q d).1
        = ({ p with uploaded := p.uploaded + d.length } : BodyParser).setMultip
          (mpCall env.trim q d) := by
      unfold multipDone
      rw [hres, herror, hopen]
    rw [hsame]
    exact ⟨h.status, rfl, rfl, rfl, rfl, herror, h.res, h.fault⟩
  · unfold multipDone
    rw [hres, herror, hdone]
    exact ⟨rfl, h.fault⟩

/-- An upload that is still to be completed has not failed. -/
theorem not_failed_of_completes {trim : Bytes → Bytes} {u : Upload} (hopen : u.completed = false)
    {s : Bytes} (hdone : ((Upload.reader trim b).feed u s).1.completed = true) : u.stage ≠ .failed := by
  intro hfailed
  have hhalt : (Upload.reader trim b).halted u = true := by simp [Upload.reader, hfailed]
  rw [(Upload.reader trim b).feed_halted hhalt, hopen] at hdone
  cases hdone

/-- **A multipart body is cut off at its end, if a call ends there.** The induction is on the calls
    up to the end; what is left of them always completes the upload and leaves nothing over. -/
theorem framed_multip {ds₁ : List Bytes} (hmp : Multip q r.parser) (hinput : r.input = [])
    {seen : Bytes} (hused : r.used = seen.length) (hshows : Shows b q.1 u)
    (hopen : u.completed = false) (hfaultless : Faultless u)
    (hsettled : mpLoop env.trim q.1 q.2 = q)
    (hidle : (Upload.reader env.trim b).feed u q.2 = (u, q.2))
    (hsafe : SafeCalls env.trim b q ds₁)
    (hdone : ((Upload.reader env.trim b).feed u (q.2 ++ ds₁.flatten)).1.completed = true)
    (hrest : ((Upload.reader env.trim b).feed u (q.2 ++ ds₁.flatten)).2 = [])
    {n : Nat} (hn : n = seen.length + ds₁.flatten.length) (ds₂ : List Bytes) (k : Nat) :
    Framed n (seen ++ ((ds₁ ++ ds₂).take k).flatten) (receive env r ((ds₁ ++ ds₂).take k)) := by
  induction ds₁ generalizing q r u seen k with
  | nil =>
    rw [List.flatten_nil, List.append_nil, hidle] at hdone
    exact absurd (hopen.symm.trans hdone) Bool.false_ne_true
  | cons d ds ih =>
    cases k with
    | zero =>
      rw [List.take_zero, List.flatten_nil, List.append_nil]
      refine ⟨?_, ?_, hmp.fault⟩
      · show r.used = _
        omega
      · show r.input = _
        rw [hinput, List.drop_eq_nil_of_le (by omega)]
    | succ k =>
      have hstage : q.1.stage ≠ .failed := by
        rw [hshows.stage]
        exact not_failed_of_completes hopen hdone
      obtain ⟨hharmless, hsafe⟩ := hsafe.resolve_left (by simp [hshows.completed, hopen])
      rw [List.flatten_cons] at hdone hrest
      by_cases hd : d = []
      · subst hd
        have hcall : mpCall env.trim q [] = q := by
          rw [mpCall, if_neg hstage, List.append_nil, hsettled]
        have hrun : receive env r (([] :: ds ++ ds₂).take (k + 1))
            = receive env r ((ds ++ ds₂).take k) := by
          show receive env (arrive env r []) ((ds ++ ds₂).take k) = _
          rw [arrive_nil hinput]
        rw [hcall] at hsafe
        rw [hrun]
        exact ih hmp hinput hused hshows hopen hfaultless hsettled hidle hsafe hdone hrest hn k
      · obtain ⟨hharm, hidle'⟩ := call_harmless env.trim hshows hopen hharmless hdone
        obtain ⟨hnext, hnextBuf⟩ := hshows.call env.trim q.2 d
        have hfaultless' := faultless_call env.trim (b := b) hfaultless q.2 d
        have hnextBuf' : (mpCall env.trim q d).2 = (Upload.call env.trim b (u, q.2) d).2 := hnextBuf
        rw [← hharm, ← hnextBuf'] at hdone hrest
        have hidle' : (Upload.reader env.trim b).feed (Upload.call env.trim b (u, q.2) d).1
            (mpCall env.trim q d).2
            = ((Upload.call env.trim b (u, q.2) d).1, (mpCall env.trim q d).2) := by
          rw [hnextBuf', hidle']
        have herror : (mpCall env.trim q d).1.error = none := by
          refine hnext.error.trans (hfaultless'.resolve_right ?_)
          rintro ⟨hfailed, hunfinished⟩
          exact not_failed_of_completes hunfinished hdone hfailed
        obtain ⟨hcount, hmore, hend⟩ := parseBody_multip env hmp hstage d herror
        have hbody : r.parser.status.parsingBody = true := by
          rw [hmp.status]
          rfl
        have harrive : arrive env r d
            = ⟨(parseBody env r.parser d).1, [], seen.length + d.length⟩ := by
          rw [arrive_body hbody hinput hd, hcount, hused, List.drop_length]
        have hrun : receive env r ((d :: ds ++ ds₂).take (k + 1))
            = receive env ⟨(parseBody env r.parser d).1, [], seen.length + d.length⟩
              ((ds ++ ds₂).take k) := by
          show receive env (arrive env r d) ((ds ++ ds₂).take k) = _
          rw [harrive]
        have htext : seen ++ ((d :: ds ++ ds₂).take (k + 1)).flatten
            = (seen ++ d) ++ ((ds ++ ds₂).take k).flatten := by simp
        have hlen : seen.length + d.length = (seen ++ d).length := List.length_append.symm
        rw [hrun, htext]
        by_cases hfinished : (Upload.call env.trim b (u, q.2) d).1.completed = true
        · -- nothing is left over, so the calls that follow before the end carry no data
          have hhalt : (Upload.reader env.trim b).halted (Upload.call env.trim b (u, q.2) d).1
              = true := by simp [Upload.reader, hfinished]
          rw [(Upload.reader env.trim b).feed_halted hhalt] at hrest
          have hnil : ds.flatten = [] := (List.append_eq_nil_iff.1 hrest).2
          have hn' : n = seen.length + d.length := by
            rw [hn, List.flatten_cons, hnil, List.append_nil]
          obtain ⟨hready, hfault⟩ := hend (hnext.completed.trans hfinished)
          have hcomplete : Done n (seen ++ d)
              ⟨(parseBody env r.parser d).1, [], seen.length + d.length⟩ := by
            refine ⟨hready, hn'.symm, by omega, ?_, hfault⟩
            rw [List.drop_eq_nil_of_le (by omega)]
          have hwaits : ∀ seen r d, Done n seen r → Done n (seen ++ d) (arrive env r d) :=
            fun _ _ d h => h.arrive d
          exact (receive_invariant hwaits hcomplete ((ds ++ ds₂).take k)).framed
        · rw [Bool.not_eq_true] at hfinished
          refine ih (hmore (hnext.completed.trans hfinished)) rfl hlen hnext hfinished hfaultless' ?_
            hidle' hsafe hdone hrest ?_ k
          · rw [mpCall, if_neg hstage]
            exact mpLoop_mpLoop env.trim q.1 (q.2 ++ d)
          · rw [hn, List.flatten_cons, List.length_append, List.length_append]
            omega

end Multip

/-! ## Requests -/

section Requests

variable {env} {p : BodyParser} {n : Nat} {ct : Bytes}

/-- The request is accepted at the end of its headers, and has a body of `n` bytes. -/
structure Announces (env : BodyEnv) (p : BodyParser) (n : Nat) : Prop where
  idle : Idle p
  fault : p.fault = none
  status : p.status = .parseHeader
  valid : (validateHeaders env p).2 = false
  accepted : (validateHeaders env p).1.status = .parseHeader
  length : ∃ cl, (p.head.hdrs.getD (.empty _ _)).getFirst (bytes "content-length") = some cl ∧
    env.strToNum cl = some n

/-- The content type of a request. -/
def typeOf (p : BodyParser) : Option Bytes :=
  (p.head.hdrs.getD (.empty _ _)).getFirst (bytes "content-type")

/-- What the parser does for the part of the content type that it knows. -/
def chosen (env : BodyEnv) (p : BodyParser) (ct : Bytes) : ParserState → BodyParser
  | .parseFormMultipart | .error => initMultip env (p.setStatus .parseFormMultipart) ct
  | s => p.setStatus s

/-- The loop over the content type stops at the first part it knows. -/
theorem contentType_eq (env : BodyEnv) (p : BodyParser) (ct : Bytes) (segs : List Bytes) :
    contentType env p ct segs
      = (segs.findSome? (segState env.toConnEnv ct)).elim p (chosen env p ct) := by
  induction segs with
  | nil => rfl
  | cons seg segs ih =>
    rw [List.findSome?_cons]
    by_cases hu : lower seg = enctypeUrlencoded
    · simp only [contentType, segState, hu, if_true]
      rfl
    · by_cases hm : lower seg = enctypeMultipart
      · simp only [contentType, segState, hm, if_true]
        by_cases hboundary : World.getBoundary env.toConnEnv ct = []
        · rw [if_pos hboundary]
          rfl
        · rw [if_neg hboundary]
          rfl
      · by_cases ht : lower seg = enctypeText
        · simp only [contentType, segState, ht, if_true]
          rfl
        · have hnone : segState env.toConnEnv ct seg = none := by
            simp only [segState, hu, hm, ht, if_false]
          simp only [contentType, hnone, hu, hm, ht, if_false]
          exact ih

theorem contentType_clamped (env : BodyEnv) (hstatus : p.status = .parseBody)
    (hmultip : World.contentState env.toConnEnv ct ≠ .parseFormMultipart)
    (herror : World.contentState env.toConnEnv ct ≠ .error) :
    contentType env p ct ((env.trim ct).splitOn 59)
      = p.setStatus (World.contentState env.toConnEnv ct) := by
  rw [contentType_eq]
  rw [contentState_eq] at *
  generalize ((env.trim ct).splitOn 59).findSome? (segState env.toConnEnv ct) = found at *
  cases found with
  | none =>
    show p = p.setStatus .parseBody
    rw [← hstatus]
    rfl
  | some s =>
    cases s with
    | parseFormMultipart => exact absurd rfl hmultip
    | error => exact absurd rfl herror
    | _ => rfl

theorem contentType_multip (env : BodyEnv)
    (hmultip : World.contentState env.toConnEnv ct = .parseFormMultipart) :
    contentType env p ct ((env.trim ct).splitOn 59)
      = { p.setStatus .parseFormMultipart with
          mpBuf := some []
          mpTree := some (LibEvmvc.initMultip (World.getBoundary env.toConnEnv ct)).tree } := by
  have hboundary := ((contentState_multipart env.toConnEnv ct).1 hmultip).2
  rw [contentType_eq]
  rw [contentState_eq] at hmultip
  cases hfind : ((env.trim ct).splitOn 59).findSome? (segState env.toConnEnv ct) with
  | none =>
    rw [hfind] at hmultip
    cases hmultip
  | some s =>
    rw [hfind] at hmultip
    obtain rfl : s = .parseFormMultipart := hmultip
    show initMultip env (p.setStatus .parseFormMultipart) ct = _
    unfold initMultip
    simp only [if_neg hboundary]

/-- What the end of the headers comes to. -/
theorem endOfHeaders_typed (h : Announces env p n) (hct : typeOf p = some ct) :
    ∃ q : BodyParser, Idle q ∧ q.fault = none ∧ q.res.isSome ∧ q.status = .parseBody ∧
      q.bodySize = n ∧ (endOfHeaders env p).1
        = if (contentType env q ct ((env.trim ct).splitOn 59)).status ≠ .parseFormMultipart then
            initBody (contentType env q ct ((env.trim ct).splitOn 59))
          else contentType env q ct ((env.trim ct).splitOn 59) := by
  obtain ⟨cl, hcl, hn⟩ := h.length
  obtain ⟨hfault, hhead, -, haccepted⟩ := validateHeaders_cases env p h.status
  have hidle := validateHeaders_idle env h.idle
  have hstatus := h.accepted
  have hres := (haccepted h.accepted h.valid).2
  have hpost : (endOfHeaders env p).1 = (postHeadersValidation env (validateHeaders env p).1).1 := by
    have hvalid := h.valid
    unfold endOfHeaders
    split
    · next q hq =>
      rw [hq] at hvalid
      cases hvalid
    · next q hq => rw [hq]
  rw [h.fault] at hfault
  have hhdrs : (validateHeaders env p).1.head.hdrs = p.head.hdrs := congrArg HeadInfo.hdrs hhead
  rw [hpost]
  generalize (validateHeaders env p).1 = q at *
  refine ⟨{ q with bodySize := n }.setStatus .parseBody, hidle.of_eq rfl rfl rfl, hfault, hres, rfl,
    rfl, ?_⟩
  rw [← hhdrs] at hcl
  have hct' : (q.head.hdrs.getD (.empty _ _)).getFirst (bytes "content-type") = some ct := by
    rw [hhdrs]
    exact hct
  unfold postHeadersValidation
  rw [if_neg (by rw [hstatus]; exact not_not.2 rfl)]
  simp only [hcl, hn, hct']
  split
  · rfl
  · rfl

/-- `init_body` starts a body that ends at the content length. -/
theorem initBody_clamped (hidle : Idle p) (hfault : p.fault = none) (hres : p.res.isSome)
    (hbody : p.status.parsingBody = true) (hmultip : p.status ≠ .parseFormMultipart) :
    Clamped p.bodySize [] ⟨initBody p, [], 0⟩ := by
  obtain ⟨paused, hpaused⟩ := Option.isSome_iff_exists.1 hres
  unfold initBody
  simp only [hpaused]
  split
  · next hzero => exact .inr ⟨rfl, hzero.symm, Nat.le_of_eq hzero, (List.drop_nil).symm, hfault⟩
  · next hpos =>
    have hopen : (decide (p.bodySize = 0)) = false := decide_eq_false hpos
    refine .inl ⟨⟨hbody, hmultip, ?_, rfl, hopen, rfl, rfl, Nat.pos_of_ne_zero hpos, rfl, hfault⟩,
      rfl, rfl⟩
    show p.mpState ≠ .failed
    rw [hidle.state]
    nofun

/-- The states of a body that is not multipart. -/
theorem contentState_body (env : ConnEnv) (hmultip : World.contentState env ct ≠ .parseFormMultipart)
    (herror : World.contentState env ct ≠ .error) :
    (World.contentState env ct).parsingBody = true := by
  rw [contentState_eq] at *
  cases hfind : ((env.trim ct).splitOn 59).findSome? (segState env ct) with
  | none => rfl
  | some s =>
    rw [hfind] at hmultip herror
    obtain ⟨seg, -, hseg⟩ := List.exists_of_findSome?_eq_some hfind
    show s.parsingBody = true
    unfold segState at hseg
    split at hseg
    · cases hseg
      rfl
    · split at hseg
      · split at hseg
        · cases hseg
          exact absurd rfl herror
        · cases hseg
          exact absurd rfl hmultip
      · split at hseg
        · cases hseg
          rfl
        · cases hseg

/-- The body is well formed, if it is multipart. -/
def WellFormed (env : BodyEnv) (ct body : Bytes) : Prop :=
  World.contentState env.toConnEnv ct = .parseFormMultipart →
    ∃ rs, PlainUpload env.trim (World.getBoundary env.toConnEnv ct) rs ∧
      body = bodyText (World.getBoundary env.toConnEnv ct) rs

/-- A call ends where a multipart body does, and the calls up to there write out no line they should
    not. -/
def CutAtEnd (env : BodyEnv) (ct body : Bytes) (ds : List Bytes) : Prop :=
  World.contentState env.toConnEnv ct = .parseFormMultipart →
    ∃ ds₁ ds₂, ds = ds₁ ++ ds₂ ∧ ds₁.flatten = body ∧
      SafeCalls env.trim (World.getBoundary env.toConnEnv ct)
        (LibEvmvc.initMultip (World.getBoundary env.toConnEnv ct), []) ds₁

/-- **A request uses up its body and nothing else**, at every moment: of every kind of body that has
    a type, however it is cut, if a multipart body is cut at its end. -/
theorem body_framed (h : Announces env p n) (hct : typeOf p = some ct)
    (hkind : World.contentState env.toConnEnv ct ≠ .error) (body more : Bytes)
    (hlen : body.length = n) (hform : WellFormed env ct body) (ds : List Bytes) (hds : ds.flatten = body ++ more)
    (hcut : CutAtEnd env ct body ds) :
    (receive env (atBody env p) ds).used = n ∧ (receive env (atBody env p) ds).input = more ∧
      ∀ k, Framed n (ds.take k).flatten (receive env (atBody env p) (ds.take k)) := by
  have hall : ∀ k, Framed n (ds.take k).flatten (receive env (atBody env p) (ds.take k)) := by
    intro k
    obtain ⟨q, hidle, hfault, hres, hstatus, hsize, hend⟩ := endOfHeaders_typed h hct
    by_cases hmultip : World.contentState env.toConnEnv ct = .parseFormMultipart
    · obtain ⟨rs, hplain, hbody⟩ := hform hmultip
      obtain ⟨ds₁, ds₂, rfl, hflat, hsafe⟩ := hcut hmultip
      have hbodyText := feed_body env.trim hplain []
      rw [List.append_nil, ← hbody, ← hflat] at hbodyText
      have hstart : Multip (LibEvmvc.initMultip (World.getBoundary env.toConnEnv ct), [])
          (atBody env p).parser := by
        show Multip _ (endOfHeaders env p).1
        rw [hend, contentType_multip env hmultip]
        exact ⟨rfl, rfl, rfl, hidle.state, hidle.completed, rfl, hres, hfault⟩
      have hused : (atBody env p).used = ([] : Bytes).length := rfl
      have hn : n = ([] : Bytes).length + ds₁.flatten.length := by
        rw [hflat, hlen, List.length_nil, Nat.zero_add]
      exact framed_multip hstart rfl hused (shows_init _) rfl (.inl rfl) rfl rfl hsafe
        (by rw [List.nil_append, hbodyText]; rfl) (by rw [List.nil_append, hbodyText]) hn ds₂ k
    · have hbody := contentState_body env.toConnEnv hmultip hkind
      have htype := contentType_clamped env hstatus hmultip hkind
      have hne : (q.setStatus (World.contentState env.toConnEnv ct)).status ≠ .parseFormMultipart :=
        hmultip
      have hstart : Clamped n [] (atBody env p) := by
        unfold atBody
        rw [hend, htype, if_pos hne, ← hsize]
        exact initBody_clamped (p := q.setStatus (World.contentState env.toConnEnv ct))
          (hidle.of_eq rfl rfl rfl) hfault hres hbody hne
      have hstep : ∀ seen r d, Clamped n seen r → Clamped n (seen ++ d) (arrive env r d) :=
        fun _ _ d h => h.arrive d
      exact (receive_invariant hstep hstart (ds.take k)).framed
  have htotal := hall ds.length
  rw [List.take_length, hds] at htotal
  refine ⟨?_, ?_, hall⟩
  · rw [htotal.used, List.length_append]
    omega
  · rw [htotal.input, ← hlen]
    exact List.drop_left

end Requests

/-- A request for which a part without headers is sent, at the end of its headers. -/
def upload (ct : Bytes) : BodyParser :=
  { fresh with
    head := { ParserHead.fresh with
      status := .parseHeader
      hdrs := some ((((UMap.empty lower (List Bytes)).emplace (bytes "Host") [bytes "a"]).emplace
        (bytes "Content-Length") [bytes "16"]).emplace contentTypeName [ct]) } }

/-- The body of one empty part. -/
def emptyPart : Bytes := bodyText (bytes "b") [⟨[], []⟩]

theorem announces_upload :
    Announces openEnv (upload (bytes "multipart/form-data;boundary=b")) 16 := by
  refine ⟨⟨rfl, rfl, rfl⟩, rfl, rfl, by decide, by decide, bytes "16", by decide, by decide⟩

theorem wellFormed_emptyPart :
    WellFormed openEnv (bytes "multipart/form-data;boundary=b") emptyPart := by
  have hboundary : World.getBoundary openEnv.toConnEnv (bytes "multipart/form-data;boundary=b")
      = bytes "b" := by decide
  intro _
  rw [hboundary]
  refine ⟨[⟨[], []⟩], ⟨⟨by decide, by decide⟩, by simp, ?_, ?_⟩, rfl⟩
  · intro r hr
    rw [List.mem_singleton.1 hr]
    exact ⟨by simp, by decide⟩
  · intro r hr
    rw [List.mem_singleton.1 hr]
    decide

/-- The body comes first, and then the next request. -/
theorem body_framed_cut :
    (receive openEnv (atBody openEnv (upload (bytes "multipart/form-data;boundary=b")))
        [emptyPart, bytes "GET"]).used = 16 ∧
      (receive openEnv (atBody openEnv (upload (bytes "multipart/form-data;boundary=b")))
        [emptyPart, bytes "GET"]).input = bytes "GET" ∧
      ∀ k, Framed 16 ([emptyPart, bytes "GET"].take k).flatten
        (receive openEnv (atBody openEnv (upload (bytes "multipart/form-data;boundary=b")))
          ([emptyPart, bytes "GET"].take k)) := by
  have htype : typeOf (upload (bytes "multipart/form-data;boundary=b"))
      = some (bytes "multipart/form-data;boundary=b") := by decide
  refine body_framed announces_upload htype (by decide) emptyPart (bytes "GET") (by decide)
    wellFormed_emptyPart _ rfl ?_
  intro _
  refine ⟨[emptyPart], [bytes "GET"], rfl, rfl, .inr ⟨?_, trivial⟩⟩
  intro hflush
  exact absurd hflush.2.2.1 (by decide)

/-- The next request comes with the end of a multipart body, and is used up with it. -/
theorem multipart_takes_next :
    ¬ ∀ (env : BodyEnv) (p : BodyParser) (n : Nat) (ct : Bytes), Announces env p n →
      typeOf p = some ct → World.contentState env.toConnEnv ct ≠ .error →
      ∀ body more : Bytes, body.length = n → WellFormed env ct body →
      ∀ ds : List Bytes, ds.flatten = body ++ more → (receive env (atBody env p) ds).used = n := by
  intro hall
  have hused := hall openEnv (upload (bytes "multipart/form-data;boundary=b")) 16
    (bytes "multipart/form-data;boundary=b") announces_upload (by decide) (by decide) emptyPart
    (bytes "GET") (by decide) wellFormed_emptyPart [emptyPart ++ bytes "GET"] (by simp)
  revert hused
  decide

end BodyParser

end LibEvmvc
