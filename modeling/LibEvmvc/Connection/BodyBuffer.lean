import LibEvmvc.Connection.BodyParser

set_option autoImplicit false

/-! # A body state has a body buffer

The parser reaches a body state at the end of a request's headers. The buffer is allocated there,
unless the request has a content length and no content type: then `post_headers_validation` returns
before it. -/

namespace LibEvmvc

namespace BodyParser

variable (env : BodyEnv)

/-- What the body states work on is there, and it was when they worked on it. -/
structure BodyReady (p : BodyParser) : Prop where
  buffer : p.status.parsingBody = true → p.mpBuf.isSome
  current : p.status = .parseFormMultipart → p.mpTree.isSome
  noBuffer : p.fault ≠ some .noBuffer
  noCurrent : p.fault ≠ some .noCurrent

/-- `validate_headers` gets as far as the access rules: there is a host, and a route. -/
def Accepted (h : HeadInfo) : Prop :=
  ∃ host, (h.hdrs.getD (.empty _ _)).getFirst (bytes "host") = some host ∧
    env.baseOk (env.trim host) h.uriString = true ∧
    World.routeFound env.toConnEnv (env.trim host) h = true

/-- A request that is accepted and has a content length has a content type. -/
def Typed (h : HeadInfo) : Prop :=
  Accepted env h → ((h.hdrs.getD (.empty _ _)).getFirst (bytes "content-length")).isSome →
    ((h.hdrs.getD (.empty _ _)).getFirst (bytes "content-type")).isSome

/-! ## The end of the headers -/

section EndOfHeaders

variable {env} {p : BodyParser}

/-- A parser that is in no body state. -/
theorem BodyReady.of_status (h : BodyReady p) {q : BodyParser} (hfault : q.fault = p.fault)
    (hstatus : q.status.parsingBody = false) : BodyReady q where
  buffer hbody := by
    rw [hstatus] at hbody
    cases hbody
  current hmultip := by
    rw [hmultip] at hstatus
    cases hstatus
  noBuffer := hfault ▸ h.noBuffer
  noCurrent := hfault ▸ h.noCurrent

/-- `validate_headers` either leaves the headers to be looked at, or the parser in no body state. -/
theorem validateHeaders_cases (env : BodyEnv) (p : BodyParser) (hs : p.status = .parseHeader) :
    (validateHeaders env p).1.fault = p.fault ∧
      (validateHeaders env p).1.head.toHeadInfo = p.head.toHeadInfo ∧
      ((validateHeaders env p).1.status.parsingBody = false) ∧
      ((validateHeaders env p).1.status = .parseHeader → (validateHeaders env p).2 = false →
        Accepted env p.head.toHeadInfo ∧ (validateHeaders env p).1.res.isSome) := by
  unfold validateHeaders
  split
  · refine ⟨rfl, rfl, rfl, ?_⟩
    intro hstatus
    cases hstatus
  · next host hhost =>
    simp only
    split
    · refine ⟨rfl, rfl, by rw [hs]; rfl, ?_⟩
      intro _ hthrew
      cases hthrew
    · next hbase =>
      rw [Bool.not_eq_false] at hbase
      split
      · split
        · refine ⟨rfl, rfl, rfl, ?_⟩
          intro hstatus
          cases hstatus
        · next hok =>
          have hfound : World.routeFound env.toConnEnv (env.trim host) p.head.toHeadInfo = true := by
            simp only [Bool.or_eq_true, Bool.not_eq_true', not_or, Bool.not_eq_false] at hok
            exact hok.2
          exact ⟨rfl, rfl, by show p.status.parsingBody = false; rw [hs]; rfl,
            fun _ _ => ⟨⟨host, hhost, hbase, hfound⟩, rfl⟩⟩
      · by_cases hfound : World.routeFound env.toConnEnv (env.trim host) p.head.toHeadInfo = true
        · simp only [hfound, if_true]
          exact ⟨rfl, rfl, by show p.status.parsingBody = false; rw [hs]; rfl,
            fun _ _ => ⟨⟨host, hhost, hbase, hfound⟩, rfl⟩⟩
        · simp only [hfound]
          refine ⟨rfl, rfl, rfl, ?_⟩
          intro hstatus
          cases hstatus

/-- The loop over the content type allocates what a multipart body needs. -/
theorem contentType_spec (env : BodyEnv) (p : BodyParser) (ct : Bytes) (segs : List Bytes) :
    (contentType env p ct segs).fault = p.fault ∧ (contentType env p ct segs).res = p.res ∧
      (p.status ≠ .parseFormMultipart → (contentType env p ct segs).status = .parseFormMultipart →
        (contentType env p ct segs).mpBuf.isSome ∧ (contentType env p ct segs).mpTree.isSome) := by
  induction segs with
  | nil => exact ⟨rfl, rfl, fun hne heq => absurd heq hne⟩
  | cons seg segs ih =>
    unfold contentType
    split
    · exact ⟨rfl, rfl, fun _ hstatus => by cases hstatus⟩
    · split
      · unfold initMultip
        simp only
        split
        · exact ⟨rfl, rfl, fun _ hstatus => by cases hstatus⟩
        · exact ⟨rfl, rfl, fun _ _ => ⟨rfl, rfl⟩⟩
      · split
        · exact ⟨rfl, rfl, fun _ hstatus => by cases hstatus⟩
        · exact ih

/-- `init_body` leaves a buffer. -/
theorem initBody_ready (hres : p.res.isSome) (hne : p.status ≠ .parseFormMultipart)
    (hfault : p.fault ≠ some .noBuffer ∧ p.fault ≠ some .noCurrent) : BodyReady (initBody p) := by
  obtain ⟨paused, hpaused⟩ := Option.isSome_iff_exists.1 hres
  unfold initBody
  simp only [hpaused]
  split
  · exact ⟨fun _ => rfl, nofun, hfault.1, hfault.2⟩
  · exact ⟨fun _ => rfl, fun hstatus => absurd hstatus hne, hfault.1, hfault.2⟩

/-- **At the end of the headers the body states get what they need**, if the body has a type. -/
theorem postHeadersValidation_ready (h : BodyReady p) (hres : p.status = .parseHeader → p.res.isSome)
    (htyped : p.status = .parseHeader →
      ((p.head.hdrs.getD (.empty _ _)).getFirst (bytes "content-length")).isSome →
      ((p.head.hdrs.getD (.empty _ _)).getFirst (bytes "content-type")).isSome) :
    BodyReady (postHeadersValidation env p).1 := by
  unfold postHeadersValidation
  split
  · exact h
  · next hs =>
    rw [not_not] at hs
    simp only
    split
    · exact h.of_status rfl rfl
    · next cl hcl =>
      split
      · exact h
      · next n hn =>
        split
        · next hct =>
          have hsome := htyped hs (by rw [hcl]; rfl)
          rw [hct] at hsome
          cases hsome
        · next ct hct =>
          obtain ⟨hfault, hres', hmultip⟩ := contentType_spec env
            ({ p with bodySize := n }.setStatus .parseBody) ct ((env.trim ct).splitOn 59)
          split
          · next hne =>
            refine initBody_ready ?_ hne ?_
            · rw [hres']
              exact hres hs
            · rw [hfault]
              exact ⟨h.noBuffer, h.noCurrent⟩
          · next heq =>
            rw [not_not] at heq
            obtain ⟨hbuf, htree⟩ := hmultip nofun heq
            refine ⟨fun _ => hbuf, fun _ => htree, ?_, ?_⟩
            · rw [hfault]
              exact h.noBuffer
            · rw [hfault]
              exact h.noCurrent

theorem endOfHeaders_ready (h : BodyReady p) (hs : p.status = .parseHeader)
    (htyped : Typed env p.head.toHeadInfo) : BodyReady (endOfHeaders env p).1 := by
  obtain ⟨hfault, hhead, hbody, haccepted⟩ := validateHeaders_cases env p hs
  have hvalid : BodyReady (validateHeaders env p).1 := h.of_status hfault hbody
  unfold endOfHeaders
  split
  · next q hq =>
    rw [hq] at hvalid
    exact hvalid
  · next q hq =>
    rw [hq] at hvalid hhead haccepted
    refine postHeadersValidation_ready hvalid (fun hstatus => (haccepted hstatus rfl).2) ?_
    intro hstatus hlen
    have hhdrs : q.head.hdrs = p.head.hdrs := congrArg HeadInfo.hdrs hhead
    rw [hhdrs] at hlen ⊢
    exact htyped (haccepted hstatus rfl).1 hlen

/-- The end of the headers uses no buffer. -/
theorem postHeadersValidation_fault (env : BodyEnv) (p : BodyParser) :
    (postHeadersValidation env p).1.fault = p.fault ∨
      (postHeadersValidation env p).1.fault = some .noResponse := by
  unfold postHeadersValidation
  split
  · exact .inl rfl
  · simp only
    split
    · exact .inl rfl
    · split
      · exact .inl rfl
      · next n hn =>
        split
        · exact .inl rfl
        · next ct hct =>
          have hfault := (contentType_spec env ({ p with bodySize := n }.setStatus .parseBody) ct
            ((env.trim ct).splitOn 59)).1
          split
          · unfold initBody
            simp only
            split
            · split
              · exact .inl hfault
              · exact .inr rfl
            · exact .inl hfault
          · exact .inl hfault

theorem endOfHeaders_fault (env : BodyEnv) (hs : p.status = .parseHeader) :
    (endOfHeaders env p).1.fault = p.fault ∨ (endOfHeaders env p).1.fault = some .noResponse := by
  obtain ⟨hfault, -, -, -⟩ := validateHeaders_cases env p hs
  unfold endOfHeaders
  split
  · next q hq =>
    rw [hq] at hfault
    exact .inl hfault
  · next q hq =>
    rw [hq] at hfault
    rw [← hfault]
    exact postHeadersValidation_fault env q

end EndOfHeaders

/-! ## Bodies -/

section Bodies

variable {env} {p : BodyParser}

theorem readBody_spec (data : Bytes) (hbuf : p.mpBuf.isSome) :
    (readBody p data).1.fault = p.fault ∧ (readBody p data).1.mpBuf.isSome ∧
      (readBody p data).1.mpTree = p.mpTree ∧ (readBody p data).1.status = p.status := by
  obtain ⟨buf, hbuf'⟩ := Option.isSome_iff_exists.1 hbuf
  unfold readBody
  split
  · exact ⟨rfl, hbuf, rfl, rfl⟩
  · rw [hbuf']
    exact ⟨rfl, rfl, rfl, rfl⟩

theorem readBody_ready (h : BodyReady p) (hs : p.status.parsingBody = true) (data : Bytes) :
    BodyReady (readBody p data).1 ∧ (readBody p data).1.mpBuf.isSome := by
  obtain ⟨hfault, hbuf, htree, hstatus⟩ := readBody_spec data (h.buffer hs)
  refine ⟨⟨fun _ => hbuf, ?_, hfault ▸ h.noBuffer, hfault ▸ h.noCurrent⟩, hbuf⟩
  rw [hstatus, htree]
  exact h.current

/-- The end of a body that is made into parameters. -/
theorem takeBody_ready (h : BodyReady p) (hbuf : p.mpBuf.isSome) (params : Bytes → MpParams) :
    BodyReady (takeBody p params) := by
  obtain ⟨buf, hbuf⟩ := Option.isSome_iff_exists.1 hbuf
  unfold takeBody
  rw [hbuf]
  cases p.res with
  | some paused => exact h.of_status rfl rfl
  | none => exact ⟨h.buffer, h.current, nofun, nofun⟩

theorem multipDone_ready (h : BodyReady p) (r : MpParse) : BodyReady (multipDone p r) := by
  unfold multipDone
  split
  · exact h.of_status rfl rfl
  · exact h.of_status rfl rfl
  · exact ⟨h.buffer, h.current, nofun, nofun⟩
  · exact ⟨h.buffer, h.current, nofun, nofun⟩
  · exact h

theorem parseFormMultip_ready (h : BodyReady p) (hs : p.status = .parseFormMultipart)
    (data : Bytes) : BodyReady (parseFormMultip env p data).1 := by
  obtain ⟨buf, hbuf⟩ := Option.isSome_iff_exists.1 (h.buffer (by rw [hs]; rfl))
  obtain ⟨tree, htree⟩ := Option.isSome_iff_exists.1 (h.current hs)
  unfold parseFormMultip
  split
  · exact h
  · simp only [hbuf, htree]
    refine multipDone_ready ?_ _
    exact ⟨fun _ => rfl, fun _ => rfl, h.noBuffer, h.noCurrent⟩

/-- **The body states keep what they need**, until the body is over. -/
theorem parseBody_ready (h : BodyReady p) (hs : p.status.parsingBody = true) (data : Bytes) :
    BodyReady (parseBody env p data).1 := by
  obtain ⟨hread, hbuf⟩ := readBody_ready h hs data
  unfold parseBody
  split
  · next hmultip => exact parseFormMultip_ready h hmultip data
  · unfold parseFormUrlenc
    simp only
    split
    · exact takeBody_ready hread hbuf fun body => ⟨urlencParams env.unescape body, []⟩
    · exact hread
  · unfold parseFormTxtpln
    simp only
    split
    · exact hread.of_status rfl rfl
    · exact hread
  · unfold parseRaw
    simp only
    split
    · exact takeBody_ready hread hbuf fun body => ⟨[([], body)], []⟩
    · exact hread

end Bodies

/-! ## Calls -/

section Calls

theorem bodyReady_reset {p : BodyParser} (h : BodyReady p) : BodyReady p.reset := h.of_status rfl rfl

theorem bodyReady_loop : LoopInvariantOn (host env) (Typed env) BodyReady where
  setHead p h hp _ hstatus := by
    refine hp.of_status rfl ?_
    show h.status.parsingBody = false
    rcases hstatus with hstatus | hstatus | hstatus <;> rw [hstatus] <;> rfl
  resetHead p h hp _ _ := hp.of_status rfl rfl
  endOfHeaders p hp htyped hs _ := endOfHeaders_ready hp hs htyped
  threw p hp hs _ := by
    have hreset : ((endOfHeaders env p).1.reset).fault = (endOfHeaders env p).1.fault := rfl
    rcases endOfHeaders_fault env hs with hfault | hfault
    · exact hp.of_status hfault rfl
    · refine ⟨nofun, nofun, ?_, ?_⟩
      · show ((endOfHeaders env p).1.reset).fault ≠ _
        rw [hreset, hfault]
        nofun
      · show ((endOfHeaders env p).1.reset).fault ≠ _
        rw [hreset, hfault]
        nofun
  parseBody p data hp hs := parseBody_ready hp hs data
  crash p hp := ⟨hp.buffer, hp.current, nofun, nofun⟩

/-- The heads whose end a call comes to. -/
def headsOf (p : BodyParser) : Call → List HeadInfo
  | .parse data => (parse (host env) env.toHeadEnv p data).heads.map HeadEnd.head
  | .reset => []

/-- The heads of all calls satisfy `P`. -/
def EachHead (P : HeadInfo → Prop) : BodyParser → List Call → Prop
  | _, [] => True
  | p, c :: cs => (∀ h ∈ headsOf env p c, P h) ∧ EachHead P (call env p c) cs

/-- One call. -/
theorem bodyReady_call {p : BodyParser} (h : BodyReady p) (c : Call)
    (htyped : ∀ h ∈ headsOf env p c, Typed env h) : BodyReady (call env p c) := by
  cases c with
  | reset => exact bodyReady_reset h
  | parse data =>
    have hheads : ∀ e ∈ (parse (host env) env.toHeadEnv p data).heads, Typed env e.head :=
      fun e he => htyped e.head (List.mem_map_of_mem he)
    by_cases herror : p.status = .error
    · by_cases hnil : data = []
      · subst hnil
        exact h
      · have hok : ((host env).head ((host env).reset p)).status ≠ .error := nofun
        show BodyReady (parse (host env) env.toHeadEnv p data).world
        rw [parse_of_error hnil herror hok] at hheads ⊢
        exact (bodyReady_loop env).parse (bodyReady_reset h) hok data hheads
    · exact (bodyReady_loop env).parse h herror data hheads

/-- **Every body state has its buffer**, in every run in which the accepted requests that have a
    content length have a content type. -/
theorem bodyReady_calls (cs : List Call) (htyped : EachHead env (Typed env) fresh cs) :
    BodyReady (calls env fresh cs) := by
  have hrun : ∀ (cs : List Call) (p : BodyParser), BodyReady p → EachHead env (Typed env) p cs →
      BodyReady (calls env p cs) := by
    intro cs
    induction cs with
    | nil => exact fun p hp _ => hp
    | cons c cs ih =>
      intro p hp heach
      exact ih (call env p c) (bodyReady_call env hp c heach.1) heach.2
  exact hrun cs fresh ⟨nofun, nofun, nofun, nofun⟩ htyped

end Calls

/-- Everything is accepted. -/
def openEnv : BodyEnv :=
  { plainEnv .later [] with unescape := id }

/-- A request with a body of one byte. -/
def postHead (type : Bytes) : Bytes :=
  bytes "POST / HTTP/1.1" ++ crlf ++ bytes "Host: a" ++ crlf ++ bytes "Content-Length: 1" ++ crlf
    ++ type ++ crlf

/-- A body with a type has its buffer. -/
theorem bodyReady_calls_typed :
    BodyReady (calls openEnv fresh [.parse (postHead (bytes "Content-Type: text/plain" ++ crlf))]) := by
  have htyped : ∀ h ∈ headsOf openEnv fresh
      (.parse (postHead (bytes "Content-Type: text/plain" ++ crlf))),
      ((h.hdrs.getD (.empty _ _)).getFirst (bytes "content-type")).isSome = true := by decide
  exact bodyReady_calls openEnv _ ⟨fun h hh _ _ => htyped h hh, trivial⟩

/-- A body without a type has none. -/
theorem bodyReady_fails :
    ¬ ∀ (env : BodyEnv) (cs : List Call), BodyReady (calls env fresh cs) := by
  intro hall
  have hbuffer := (hall openEnv [.parse (postHead [])]).buffer
  revert hbuffer
  decide

end BodyParser

end LibEvmvc
