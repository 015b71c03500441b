import LibEvmvc.Http.Cookies
import LibEvmvc.Http.ETag
import LibEvmvc.Http.Methods
import LibEvmvc.Http.Statuses
import LibEvmvc.Routing.Policy

set_option autoImplicit false

/-! # Responses

What a handler can do to a response, and the bytes that reach the connection. Handlers edit the
status, the headers and the cookies; the first operation that replies prepares the head
(`Response.prepareHeaders`): the status line, one line per header value, one per cookie, and an
empty line. Every line is checked for its length just before it is written, when the lines before it
are gone already, and the response counts as started only after the whole head has been written.
`http_parser::exec` answers an exception with an error page, which starts the response again.

The text of the error page, the MIME table, base64, dates, number formatting and the order of the
encodings a client accepts are parameters. Writing to the connection is taken to succeed. The body of
a file follows with the write events, after the handlers. -/

namespace LibEvmvc

/-- The longest header line the code is ready to write: `EVMVC_MAX_RES_HEADER_LINE_LEN`. -/
def maxResHeaderLineLen : Nat := 8192

/-- What a reply depends on besides the response itself. -/
structure ReplyCtx where
  /-- version and headers of the request -/
  httpVer : HttpVersion
  reqHeaders : HeaderMap
  /-- version digits an earlier reply left in the line buffer -/
  staleVer : UInt8 × UInt8
  /-- order in which header maps are walked -/
  order : IterOrder Bytes (List Bytes)
  mimeType : Bytes → Bytes
  compressible : Bytes → Bool
  /-- what `accept_encodings` returns for a header value -/
  acceptEncodings : Bytes → List EncodingType
  trim : Bytes → Bytes
  /-- dates as `time_facet` writes and reads them -/
  timeText : BitVec 64 → Bytes
  readTime : Bytes → Option (BitVec 64)
  numToStr : Nat → Bytes
  base64 : Bytes → Bytes
  errorPage : Nat → CbError → Bytes

/-- `response_t`, without what belongs to the connection. -/
structure Response where
  started : Bool
  eventStarted : Bool
  ended : Bool
  status : Option Nat
  enc : Bytes
  type : Bytes
  headers : HeaderMap
  cookies : HeaderMap
  err : Option (CbError × Nat)
  started_of_event : eventStarted = true → started = true

/-- A response as it is constructed. -/
def Response.fresh : Response :=
  { started := false, eventStarted := false, ended := false, status := none, enc := [], type := [],
    headers := .empty _ _, cookies := .empty _ _, err := none, started_of_event := id }

/-- What `send_file` is given, and what the system and zlib say of it. -/
structure FileAt where
  path : Bytes
  extension : Bytes
  /-- `none` if there is no such file, or nothing can be said of it -/
  stat : Option FileStat
  opens : Bool
  deflateInits : Bool
  deriving DecidableEq, Repr

/-- What one `bufferevent_write` hands to the connection. -/
inductive Write where
  | statusLine (b : Bytes)
  | headerLine (b : Bytes)
  | endOfHead
  | body (b : Bytes)
  deriving DecidableEq, Repr

def Write.bytes : Write → Bytes
  | .statusLine b => b
  | .headerLine b => b
  | .endOfHead => crlf
  | .body b => b

/-- A response, what has been written for it, and two flags of its connection. -/
structure ResState where
  res : Response
  out : List Write
  keepAlive : Bool
  sendingFile : Bool

/-- A response as it is constructed, and nothing has been written. -/
def ResState.fresh : ResState := ⟨.fresh, [], false, false⟩

/-- What an operation that may throw leaves behind. -/
abbrev Outcome := ResState × Option CbError

/-! ## Editing -/

namespace Response

variable (ctx : ReplyCtx)

def setStatus (r : Response) (code : Nat) : Response := { r with status := some code }

def setEncoding (r : Response) (enc : Bytes) : Response := { r with enc := enc }

/-- `response_t::type`. -/
def setType (r : Response) (type enc : Bytes) : Response :=
  let ty := if ctx.mimeType type = [] then type else ctx.mimeType type
  let en := if 0 < enc.length then enc else r.enc
  let ct := if en = [] then ty else ty ++ bytes "; charset=" ++ en
  { r with type := ty, enc := en, headers := r.headers.set (bytes "Content-Type") ct true }

/-- What `response_t::send` does before it starts the reply. -/
def beforeSend (r : Response) (body : Bytes) : Response :=
  let r := if r.type = [] then r.setType ctx (bytes "txt") (bytes "utf-8") else r
  { r with
    headers := r.headers.set (bytes "Content-Length") (ctx.numToStr body.length) true }

def setHeaders (r : Response) (nvs : List (Bytes × Bytes)) : Response :=
  { r with headers := nvs.foldl (fun headers nv => headers.set nv.1 nv.2 true) r.headers }

/-- The headers `connection::_send_file_chunk_start` edits. -/
def chunked (r : Response) : Response :=
  ({ r with headers := r.headers.remove (bytes "Content-Length") } : Response).setHeaders
    [(bytes "Transfer-Encoding", bytes "chunked")]

def start (r : Response) : Response := { r with started := true, started_of_event := fun _ => rfl }

/-- `_event_started = true`, once the reply has been started. -/
def startEvent (r : Response) : Response := { r.start with eventStarted := true, started_of_event := fun _ => rfl }

end Response

/-! ## The head -/

/-- The status line `_prepare_headers` composes in its buffer. -/
def statusLine (ctx : ReplyCtx) (status : Nat) : Bytes :=
  let (major, minor) : UInt8 × UInt8 := match ctx.httpVer with
    | .http10 => (49, 48)
    | .http11 | .http2 => (49, 49)
    | .unknown => ctx.staleVer
  bytes "HTTP/" ++ [major] ++ bytes "." ++ [minor] ++ bytes " " ++ (toStatusText status).take 3 ++
    bytes " " ++ toStatusString status ++ crlf

/-- Whether the connection is kept, from the request's version and `Connection` header. -/
def keepAliveOf (httpVer : HttpVersion) (reqHeaders : HeaderMap) : Bool :=
  match httpVer with
  | .http10 => reqHeaders.compareValue (bytes "connection") (bytes "keep-alive")
  | _ => !reqHeaders.compareValue (bytes "connection") (bytes "close")

/-- The headers with the `Connection` header the code adds. -/
def withConnection (ctx : ReplyCtx) (headers : HeaderMap) : HeaderMap :=
  match ctx.httpVer with
  | .http10 =>
    if ctx.reqHeaders.compareValue (bytes "connection") (bytes "keep-alive") then
      headers.set (bytes "Connection") (bytes "keep-alive") true
    else headers
  | _ =>
    if ctx.reqHeaders.compareValue (bytes "connection") (bytes "close") then
      headers.set (bytes "Connection") (bytes "close") true
    else headers

/-- `name: value`. -/
def headerText (nv : Bytes × Bytes) : Bytes := nv.1 ++ [58, 32] ++ nv.2

/-- The loops that write a header map: each line is checked, then written. -/
def writeLines : List (Bytes × Bytes) → ResState → Outcome
  | [], s => (s, none)
  | nv :: lines, s =>
    if nv.1.length + nv.2.length + 5 > maxResHeaderLineLen then
      (s, some "Header line is larger than the allowed maximum!")
    else writeLines lines { s with out := s.out ++ [.headerLine (headerText nv ++ crlf)] }

/-- `response_t::_prepare_headers`. -/
def prepareHeaders (ctx : ReplyCtx) (s : ResState) : Outcome :=
  if s.res.started then (s, some "unable to prepare headers after response_t is started!")
  else
    let status := s.res.status.getD 200
    let s : ResState :=
      { s with
        res := { s.res with status := some status, headers := withConnection ctx s.res.headers }
        out := s.out ++ [.statusLine (statusLine ctx status)]
        keepAlive := keepAliveOf ctx.httpVer ctx.reqHeaders }
    match writeLines (s.res.headers.lines ctx.order) s with
    | (s, some e) => (s, some e)
    | (s, none) =>
      match writeLines (s.res.cookies.lines ctx.order) s with
      | (s, some e) => (s, some e)
      | (s, none) => ({ s with out := s.out ++ [.endOfHead] }, none)

/-- `response_t::_reply_start`. -/
def replyStart (ctx : ReplyCtx) (s : ResState) : Outcome :=
  if s.res.started then (s, none)
  else
    match prepareHeaders ctx s with
    | (s, some e) => (s, some e)
    | (s, none) => ({ s with res := s.res.start }, none)

/-- `connection::send_file` and `_send_file_chunk_start`. -/
def sendFileStart (ctx : ReplyCtx) (s : ResState) : Outcome :=
  if s.sendingFile then (s, some "Already sending a file")
  else
    match prepareHeaders ctx { s with res := s.res.chunked, sendingFile := true } with
    | (s, some e) => (s, some e)
    | (s, none) => ({ s with res := s.res.start }, none)

/-- `response_t::_reply_raw`. -/
def replyRaw (s : ResState) (data : Bytes) : ResState := { s with out := s.out ++ [.body data] }

/-- The writes of an event. -/
def replyEvent (s : ResState) (writes : List Bytes) : ResState := { s with out := s.out ++ writes.map .body }

/-- `response_t::_reply_end`. -/
def replyEnd (s : ResState) : ResState := { s with res := { s.res with ended := true } }

/-! ## Operations of a handler -/

inductive ResOp where
  | status (code : Nat)
  | encoding (enc : Bytes)
  | type (t enc : Bytes)
  | setHeader (name val : Bytes) (clearExisting : Bool)
  | removeHeader (name : Bytes)
  | setCookie (name val : Bytes) (opts : CookieOptions)
  | setError (err : Option CbError) (code : Nat)
  | send (body : Bytes)
  | sendEvent (event data id : Bytes)
  | sendEventMessage (message : Bytes)
  | sendEventComment (comment : Bytes)
  | sendFile (file : FileAt) (enc : Bytes)
  | sendStatus (code : Nat)
  | html (body : Bytes)
  | redirect (newLocation : Bytes) (code : Nat)
  | error (code : Nat) (err : CbError)
  | sendError
  | finish
  /-- what `exec` does once the handlers are through, with their error if they report one -/
  | complete (err : Option CbError)
  /-- the handler throws -/
  | throw (err : CbError)
  deriving DecidableEq, Repr

/-- How far an operation comes before it replies. -/
inductive Plan where
  | edit (r : Response)
  | reply (r : Response) (body : Bytes)
  | finish (r : Response)
  | event (r : Response) (writes : List Bytes)
  | file (r : Response)
  | fail (r : Response) (e : CbError)

namespace Plan

variable (ctx : ReplyCtx)

/-- `response_t::send`. -/
def send (r : Response) (body : Bytes) : Plan := .reply (r.beforeSend ctx body) body

/-- `response_t::html`. -/
def html (r : Response) (body : Bytes) : Plan :=
  send ctx ((r.setEncoding (bytes "utf-8")).setType ctx (bytes "html") []) body

/-- `response_t::send_status`. -/
def sendStatus (r : Response) (code : Nat) : Plan :=
  send ctx (r.setStatus code) (statusesStatus code)

/-- `response_t::error`. -/
def error (r : Response) (code : Nat) (err : CbError) : Plan :=
  html ctx (r.setStatus code) (ctx.errorPage code err)

/-- `response_t::redirect`. -/
def redirect (r : Response) (newLocation : Bytes) (code : Nat) : Plan :=
  if code ∈ [301, 308, 302, 303, 307, 300, 304] then
    sendStatus ctx { r with headers := r.headers.set (bytes "Location") newLocation true } code
  else .fail r "Invalid redirection status!"

/-- `response_t::send_error`. -/
def sendError (r : Response) : Plan :=
  match r.err with
  | none => .fail r "No error was set!"
  | some (err, code) => error ctx r code err

/-- The callback `exec` hands to `execute`. -/
def complete (r : Response) : Option CbError → Plan
  | some err => error ctx r 500 err
  | none =>
    if r.started then .edit r
    else
      match r.err with
      | none => sendStatus ctx r 204
      | some _ => sendError ctx r

/-- `send_event` and its siblings, with what each of them writes. -/
def sendEvent (r : Response) (writes : List Bytes) : Plan :=
  if r.eventStarted then .event r writes
  else if r.started then .fail r "Can't use send_event, the response is already started!"
  else .event (r.setType ctx (bytes "text/event-stream") (bytes "utf-8")) writes

end Plan

/-- A field of an event with a line of its own for each line of the value. -/
def eventLines (label val : Bytes) : Bytes := (val.splitOn 10).flatMap fun s => label ++ s ++ [10]

/-- A field of an event, with a line end if the value has none. -/
def eventField (label val : Bytes) : Bytes :=
  if (label ++ val).getLast? = some 10 then label ++ val else label ++ val ++ [10]

/-- What `send_event` writes. -/
def eventWrites (event data id : Bytes) : List Bytes :=
  (if event = [] then [] else [eventField (bytes "event: ") event]) ++
    (if data = [] then [] else [eventLines (bytes "data: ") data]) ++
    (if id = [] then [] else [eventField (bytes "id: ") id]) ++
    (if event = [] ∧ data = [] ∧ id = [] then [bytes ": \n"] else []) ++ [[10]]

/-- What `send_event_message` and `send_event_comment` write. -/
def eventText (label text : Bytes) : List Bytes :=
  [if text = [] then bytes ": \n" else eventLines label text, [10]]

/-- The client has the file as it is: the tag it sends is the file's, and so is the date. -/
def notModified (ctx : ReplyCtx) (fstat : FileStat) (fetag : Bytes) : Bool :=
  match ctx.reqHeaders.getFirst (bytes "If-None-Match"),
    ctx.reqHeaders.getFirst (bytes "If-Modified-Since") with
  | some retag, some srmtime => ctx.trim retag = fetag && ctx.readTime srmtime = some fstat.mtime
  | _, _ => false

/-- The compression of a client that accepts some encodings. -/
def compressionOf (encs : List EncodingType) : Option Bytes :=
  if encs = [] then some (bytes "gzip")
  else encs.findSome? fun
    | .gzip | .star => some (bytes "gzip")
    | .deflate => some (bytes "deflate")
    | .unsupported => none

/-- The compression of a file, by its type and the client. -/
def fileCompression (ctx : ReplyCtx) (file : FileAt) : Option Bytes :=
  if ctx.compressible (ctx.mimeType file.extension) then
    (ctx.reqHeaders.getFirst (bytes "Accept-Encoding")).bind fun v => compressionOf (ctx.acceptEncodings v)
  else none

namespace Response

/-- The headers `send_file` sets before it opens the file. -/
def datedFile (ctx : ReplyCtx) (r : Response) (fstat : FileStat) : Response :=
  r.setHeaders [(bytes "Last-Modified", ctx.timeText fstat.mtime), (bytes "ETag", getEtag fstat []),
    (bytes "Cache-Control", bytes "max-age=2592000")]

/-- What `send_file` does to the response once the file is open. -/
def openedFile (ctx : ReplyCtx) (r : Response) (file : FileAt) (enc : Bytes) : Response :=
  let r := r.setHeaders ((fileCompression ctx file).toList.map fun c => (bytes "Content-Encoding", c))
  let r := if r.status = none then r.setStatus 200 else r
  (r.setEncoding (if enc = [] then bytes "utf-8" else enc)).setType ctx file.extension []

end Response

/-- `response_t::send_file`. -/
def Plan.sendFile (ctx : ReplyCtx) (r : Response) (file : FileAt) (enc : Bytes) : Plan :=
  if file.path = [] then sendStatus ctx r 400
  else
    match file.stat with
    | none => sendStatus ctx r 400
    | some fstat =>
      if notModified ctx fstat (getEtag fstat []) then sendStatus ctx r 304
      else if !file.opens then sendStatus ctx (r.datedFile ctx fstat) 400
      else if (fileCompression ctx file).isSome && !file.deflateInits then
        .fail (r.datedFile ctx fstat) "deflateInit2 failed!"
      else .file ((r.datedFile ctx fstat).openedFile ctx file enc)

/-- Each operation up to the point where it replies. -/
def ResOp.plan (ctx : ReplyCtx) (r : Response) : ResOp → Plan
  | .status code => .edit (r.setStatus code)
  | .encoding enc => .edit (r.setEncoding enc)
  | .type t enc => .edit (r.setType ctx t enc)
  | .setHeader name val clearExisting =>
    .edit { r with headers := r.headers.set name val clearExisting }
  | .removeHeader name => .edit { r with headers := r.headers.remove name }
  | .setCookie name val opts =>
    .edit { r with cookies := LibEvmvc.setCookie ctx.base64 r.cookies name val opts }
  | .setError err code => .edit { r with err := err.map fun e => (e, code) }
  | .send body => Plan.send ctx r body
  | .sendEvent event data id => Plan.sendEvent ctx r (eventWrites event data id)
  | .sendEventMessage message => Plan.sendEvent ctx r (eventText (bytes "data: ") message)
  | .sendEventComment comment => Plan.sendEvent ctx r (eventText (bytes ": ") comment)
  | .sendFile file enc => Plan.sendFile ctx r file enc
  | .sendStatus code => Plan.sendStatus ctx r code
  | .html body => Plan.html ctx r body
  | .redirect newLocation code => Plan.redirect ctx r newLocation code
  | .error code err => Plan.error ctx r code err
  | .sendError => Plan.sendError ctx r
  | .finish =>
    .finish (if r.started then r
      else (r.setEncoding (bytes "utf-8")).setType ctx (bytes "txt") [])
  | .complete err => Plan.complete ctx r err
  | .throw err => .fail r err

/-- `response_t::end`, once the reply has been started. -/
def endReply (s : ResState) : ResState := if s.res.ended then s else replyEnd s

def Plan.run (ctx : ReplyCtx) (s : ResState) : Plan → Outcome
  | .edit r => ({ s with res := r }, none)
  | .reply r body =>
    match replyStart ctx { s with res := r } with
    | (s, some e) => (s, some e)
    | (s, none) => (endReply (replyRaw s body), none)
  | .finish r =>
    match replyStart ctx { s with res := r } with
    | (s, some e) => (s, some e)
    | (s, none) => (endReply s, none)
  | .event r writes =>
    if r.eventStarted then (replyEvent { s with res := r } writes, none)
    else
      match replyStart ctx { s with res := r } with
      | (s, some e) => (s, some e)
      | (s, none) => (replyEvent { s with res := s.res.startEvent } writes, none)
  | .file r => sendFileStart ctx { s with res := r }
  | .fail r e => ({ s with res := r }, some e)

def ResOp.run (ctx : ReplyCtx) (s : ResState) (op : ResOp) : Outcome := (op.plan ctx s.res).run ctx s

/-- A handler's operations in order; a handler may swallow the exception of an operation. -/
def runOps (ctx : ReplyCtx) : List (ResOp × Bool) → ResState → Outcome
  | [], s => (s, none)
  | (op, swallows) :: ops, s =>
    match op.run ctx s with
    | (s, none) => runOps ctx ops s
    | (s, some e) => if swallows then runOps ctx ops s else (s, some e)

/-- `http_parser::exec`: the handlers run inside a `try`, and so does the completion callback when
    they call back at once; an exception is answered with an error page. -/
def execHandlers (ctx : ReplyCtx) (ops : List (ResOp × Bool)) (err : Option CbError)
    (s : ResState) : Outcome :=
  match runOps ctx (ops ++ [(.complete err, false)]) s with
  | (s, none) => (s, none)
  | (s, some e) => (ResOp.error 500 e).run ctx s

/-! ## All or nothing -/

/-- The lines of the head between the status line and the empty line. -/
def headLines (ctx : ReplyCtx) (r : Response) : List (Bytes × Bytes) :=
  (withConnection ctx r.headers).lines ctx.order ++ r.cookies.lines ctx.order

/-- Every line of the head fits into the line buffer. -/
def Fits (ctx : ReplyCtx) (r : Response) : Prop :=
  ∀ nv ∈ headLines ctx r, nv.1.length + nv.2.length + 5 ≤ maxResHeaderLineLen

/-- The head of a response as it should be written. -/
def headWrites (ctx : ReplyCtx) (r : Response) : List Write :=
  .statusLine (statusLine ctx (r.status.getD 200)) ::
    (headLines ctx r).map (fun nv => .headerLine (headerText nv ++ crlf)) ++ [.endOfHead]

/-- Preparing the head writes all of it or throws and writes nothing. -/
def AllOrNothing (ctx : ReplyCtx) (s : ResState) : Prop :=
  let (s', e) := prepareHeaders ctx s
  (e = none ∧ s'.out = s.out ++ headWrites ctx s.res) ∨ (e ≠ none ∧ s'.out = s.out)

/-- The status lines among what has been written. -/
def statusLines (out : List Write) : Nat :=
  out.countP fun | .statusLine _ => true | _ => false

section Head

variable (ctx : ReplyCtx) {s : ResState}

@[simp] theorem statusLines_append (a b : List Write) :
    statusLines (a ++ b) = statusLines a + statusLines b := by
  simp [statusLines, List.countP_append]

theorem statusLines_headerLines (lines : List (Bytes × Bytes)) :
    statusLines (lines.map fun nv => .headerLine (headerText nv ++ crlf)) = 0 := by
  unfold statusLines
  rw [List.countP_eq_zero]
  intro w hw
  obtain ⟨nv, -, rfl⟩ := List.mem_map.1 hw
  simp

/-- The lines before the first one that is too long are written; the response is not touched. -/
theorem writeLines_spec (lines : List (Bytes × Bytes)) (s : ResState) :
    ∃ written, (writeLines lines s).1 =
        { s with out := s.out ++ written.map fun nv => .headerLine (headerText nv ++ crlf) } ∧
      ((writeLines lines s).2 = none ↔
        ∀ nv ∈ lines, nv.1.length + nv.2.length + 5 ≤ maxResHeaderLineLen) ∧
      ((writeLines lines s).2 = none → written = lines) := by
  induction lines generalizing s with
  | nil => exact ⟨[], by simp [writeLines], by simp [writeLines], fun _ => rfl⟩
  | cons nv lines ih =>
    simp only [writeLines]
    split
    · next hlong =>
      refine ⟨[], by simp, ⟨by simp, fun h => ?_⟩, by simp⟩
      have := h nv (List.mem_cons_self ..)
      omega
    · next hshort =>
      obtain ⟨written, hout, hnone, hall⟩ :=
        ih { s with out := s.out ++ [.headerLine (headerText nv ++ crlf)] }
      refine ⟨nv :: written, by rw [hout]; simp, ?_, fun h => by rw [hall h]⟩
      rw [hnone]
      simp only [List.mem_cons, forall_eq_or_imp]
      constructor
      · intro h
        exact ⟨by omega, h⟩
      · exact fun h => h.2

theorem writeLines_res (lines : List (Bytes × Bytes)) (s : ResState) :
    (writeLines lines s).1.res = s.res := by
  obtain ⟨written, hout, -⟩ := writeLines_spec lines s
  rw [hout]

/-- Writing two maps in a row is writing their lines in a row. -/
theorem writeLines_append (a b : List (Bytes × Bytes)) (s : ResState) :
    writeLines (a ++ b) s =
      match writeLines a s with
      | (s, some e) => (s, some e)
      | (s, none) => writeLines b s := by
  induction a generalizing s with
  | nil => rfl
  | cons nv a ih =>
    simp only [List.cons_append, writeLines]
    split
    · rfl
    · exact ih _

/-- The state once the status line is out. -/
def statusLineOut (ctx : ReplyCtx) (s : ResState) : ResState :=
  { s with
    res := { s.res with
      status := some (s.res.status.getD 200), headers := withConnection ctx s.res.headers }
    out := s.out ++ [.statusLine (statusLine ctx (s.res.status.getD 200))]
    keepAlive := keepAliveOf ctx.httpVer ctx.reqHeaders }

theorem prepareHeaders_eq (hs : s.res.started = false) :
    prepareHeaders ctx s =
      match writeLines (headLines ctx s.res) (statusLineOut ctx s) with
      | (s, some e) => (s, some e)
      | (s, none) => ({ s with out := s.out ++ [.endOfHead] }, none) := by
  have hres := writeLines_res ((withConnection ctx s.res.headers).lines ctx.order)
    (statusLineOut ctx s)
  unfold prepareHeaders
  rw [if_neg (by simp [hs]), headLines, writeLines_append]
  simp only [statusLineOut] at hres ⊢
  split
  · next s' e h => rfl
  · next s' h =>
    rw [h] at hres
    simp only at hres
    rw [hres]

/-- **What preparing the head of a response that has not been started does**: the status line is
    written first; the rest of the head follows exactly if every line fits. -/
theorem prepareHeaders_spec (hs : s.res.started = false) :
    ∃ written, (prepareHeaders ctx s).1.out =
        s.out ++ .statusLine (statusLine ctx (s.res.status.getD 200)) ::
          written.map (fun nv => .headerLine (headerText nv ++ crlf)) ++
          (if (prepareHeaders ctx s).2 = none then [.endOfHead] else []) ∧
      ((prepareHeaders ctx s).2 = none ↔ Fits ctx s.res) ∧
      ((prepareHeaders ctx s).2 = none → written = headLines ctx s.res) ∧
      (prepareHeaders ctx s).1.res.started = false := by
  obtain ⟨written, hout, hnone, hall⟩ :=
    writeLines_spec (headLines ctx s.res) (statusLineOut ctx s)
  refine ⟨written, ?_⟩
  rw [prepareHeaders_eq ctx hs]
  rcases h : writeLines (headLines ctx s.res) (statusLineOut ctx s) with ⟨s', _ | e⟩
  · rw [h] at hout hnone hall
    have hres : s' = _ := hout
    refine ⟨?_, hnone, hall, ?_⟩
    · simp [hres, statusLineOut]
    · simp [hres, statusLineOut, hs]
  · rw [h] at hout hnone hall
    have hres : s' = _ := hout
    refine ⟨?_, hnone, hall, ?_⟩
    · simp [hres, statusLineOut]
    · simp [hres, statusLineOut, hs]

/-- The head is all or nothing exactly if the response has been started already, so that nothing is
    tried, or every line fits. -/
theorem allOrNothing_iff : AllOrNothing ctx s ↔ s.res.started = true ∨ Fits ctx s.res := by
  by_cases hs : s.res.started = true
  · simp [AllOrNothing, prepareHeaders, hs]
  · have hs' : s.res.started = false := by simpa using hs
    obtain ⟨written, hout, hnone, hall, -⟩ := prepareHeaders_spec ctx hs'
    unfold AllOrNothing
    simp only [hs, false_or, Bool.false_eq_true]
    rcases h : prepareHeaders ctx s with ⟨s', _ | e⟩
    · simp only [h] at hout hnone hall
      simp only [hout, hall trivial, headWrites, hnone.1 trivial]
      simp
    · simp only [h] at hout hnone
      have hnf : ¬ Fits ctx s.res := fun hf => by simpa using hnone.2 hf
      simp [hout, hnf]

end Head

/-! ## One status line for each request -/

namespace Plan

/-- The response whose head a plan has prepared, when no reply has been started. -/
def head? (sendingFile : Bool) : Plan → Option Response
  | .reply r _ => some r
  | .finish r => some r
  | .event r _ => some r
  | .file r => if sendingFile then none else some r.chunked
  | .edit _ => none
  | .fail _ _ => none

/-- The response a plan goes on with. -/
def response : Plan → Response
  | .edit r => r
  | .reply r _ => r
  | .finish r => r
  | .event r _ => r
  | .file r => r
  | .fail r _ => r

/-- What a plan throws before it comes to a head. -/
def error? (sendingFile : Bool) : Plan → Option CbError
  | .fail _ e => some e
  | .file _ => if sendingFile then some "Already sending a file" else none
  | _ => none

end Plan

/-- The response that a handler's first reply starts with, if it comes to one. -/
def firstHead (ctx : ReplyCtx) : List (ResOp × Bool) → Response → Option Response
  | [], _ => none
  | (op, swallows) :: ops, r =>
    match (op.plan ctx r).head? false with
    | some r' => some r'
    | none =>
      if ((op.plan ctx r).error? false).isSome && !swallows then none
      else firstHead ctx ops (op.plan ctx r).response

/-- The head of the first reply inside the `try` of `exec` fits, if there is one. -/
def FirstHeadFits (ctx : ReplyCtx) (ops : List (ResOp × Bool)) (err : Option CbError)
    (r : Response) : Prop :=
  ∀ r', firstHead ctx (ops ++ [(.complete err, false)]) r = some r' → Fits ctx r'

section Exec

variable (ctx : ReplyCtx) {s : ResState}

@[simp] theorem setType_started (r : Response) (t enc : Bytes) :
    (r.setType ctx t enc).started = r.started := rfl

@[simp] theorem setHeaders_started (r : Response) (nvs : List (Bytes × Bytes)) :
    (r.setHeaders nvs).started = r.started := rfl

@[simp] theorem chunked_started (r : Response) : r.chunked.started = r.started := rfl

@[simp] theorem beforeSend_started (r : Response) (body : Bytes) :
    (r.beforeSend ctx body).started = r.started := by
  unfold Response.beforeSend
  split <;> rfl

theorem openedFile_started (r : Response) (file : FileAt) (enc : Bytes) :
    (r.openedFile ctx file enc).started = r.started := by
  simp only [Response.openedFile, setType_started, Response.setEncoding]
  split <;> rfl

theorem eventStarted_of_unstarted {r : Response} (h : r.started = false) : r.eventStarted = false := by
  by_contra hevent
  rw [r.started_of_event (by simpa using hevent)] at h
  cases h

/-- No edit starts a response. -/
theorem ResOp.plan_started (op : ResOp) (r : Response) : (op.plan ctx r).response.started = r.started := by
  have hsend : ∀ (r₁ : Response) (body : Bytes), (Plan.send ctx r₁ body).response.started = r₁.started :=
    fun r₁ body => beforeSend_started ctx r₁ body
  have hstatus : ∀ (r₁ : Response) (code : Nat),
      (Plan.sendStatus ctx r₁ code).response.started = r₁.started := fun _ _ => hsend _ _
  have herror : ∀ (code : Nat) (e : CbError), (Plan.error ctx r code e).response.started = r.started :=
    fun _ _ => hsend _ _
  have hsendError : (Plan.sendError ctx r).response.started = r.started := by
    unfold Plan.sendError
    split
    · rfl
    · exact herror _ _
  have hevent : ∀ writes, (Plan.sendEvent ctx r writes).response.started = r.started := by
    intro writes
    unfold Plan.sendEvent
    split
    · rfl
    · split <;> rfl
  cases op with
  | send body => exact hsend _ _
  | sendEvent event data id => exact hevent _
  | sendEventMessage message => exact hevent _
  | sendEventComment comment => exact hevent _
  | sendFile file enc =>
    simp only [ResOp.plan, Plan.sendFile]
    split
    · exact hstatus _ _
    · split
      · exact hstatus _ _
      · split
        · exact hstatus _ _
        · split
          · exact hstatus _ _
          · split
            · rfl
            · exact openedFile_started ctx _ file enc
  | sendStatus code => exact hstatus _ _
  | html body => exact hsend _ _
  | error code e => exact herror _ _
  | sendError => exact hsendError
  | redirect newLocation code =>
    simp only [ResOp.plan, Plan.redirect]
    split
    · exact hstatus _ _
    · rfl
  | complete err =>
    cases err with
    | some e => exact herror _ _
    | none =>
      simp only [ResOp.plan, Plan.complete]
      split
      · rfl
      · split
        · exact hstatus _ _
        · exact hsendError
  | finish =>
    simp only [ResOp.plan, Plan.response]
    split <;> rfl
  | _ => rfl

@[simp] theorem endReply_out : (endReply s).out = s.out := by
  unfold endReply
  split <;> rfl

@[simp] theorem endReply_started : (endReply s).res.started = s.res.started := by
  unfold endReply
  split <;> rfl

@[simp] theorem statusLines_replyRaw (body : Bytes) : statusLines (replyRaw s body).out = statusLines s.out := by
  simp [replyRaw, statusLines]

@[simp] theorem statusLines_replyEvent (writes : List Bytes) :
    statusLines (replyEvent s writes).out = statusLines s.out := by
  have hbodies : statusLines (writes.map Write.body) = 0 := by
    unfold statusLines
    rw [List.countP_eq_zero]
    intro w hw
    obtain ⟨b, -, rfl⟩ := List.mem_map.1 hw
    simp
  rw [replyEvent, statusLines_append, hbodies, Nat.add_zero]

/-- The head of `r` is begun with a status line behind `out`; the response is started if it fits, and an exception is
    thrown if it does not. -/
structure Begins (ctx : ReplyCtx) (out : List Write) (r : Response) (o : Outcome) : Prop where
  lines : statusLines o.1.out = statusLines out + 1
  none_iff : o.2 = none ↔ Fits ctx r
  started_iff : o.1.res.started = true ↔ Fits ctx r

theorem replyStart_begins (hs : s.res.started = false) : Begins ctx s.out s.res (replyStart ctx s) := by
  obtain ⟨written, hout, hnone, -, hstarted⟩ := prepareHeaders_spec ctx hs
  have hlines : statusLines (prepareHeaders ctx s).1.out = statusLines s.out + 1 := by
    rw [hout, List.append_assoc, statusLines_append, List.cons_append]
    have hhead : ∀ (b : Bytes) (l : List Write),
        statusLines (.statusLine b :: l) = statusLines l + 1 := by
      intro b l
      simp [statusLines]
    rw [hhead, statusLines_append, statusLines_headerLines]
    split <;> rfl
  unfold replyStart
  rw [if_neg (by simp [hs])]
  rcases h : prepareHeaders ctx s with ⟨s', _ | e⟩
  · rw [h] at hlines hnone hstarted
    exact ⟨hlines, hnone, iff_of_true rfl (hnone.1 rfl)⟩
  · rw [h] at hlines hnone hstarted
    refine ⟨hlines, hnone, ?_⟩
    rw [← hnone]
    simp [show s'.res.started = false from hstarted]

/-- What follows the start of a reply neither writes a status line nor undoes the start. -/
theorem replyStart_then (hs : s.res.started = false) (finish : ResState → ResState)
    (hfinish : ∀ s, statusLines (finish s).out = statusLines s.out ∧
      (s.res.started = true → (finish s).res.started = true)) :
    Begins ctx s.out s.res (match replyStart ctx s with
      | (s, some e) => (s, some e)
      | (s, none) => (finish s, none)) := by
  obtain ⟨hlines, hnone, hstarted⟩ := replyStart_begins ctx hs
  rcases hstart : replyStart ctx s with ⟨s', _ | e⟩
  · rw [hstart] at hlines hnone hstarted
    have hfits := hnone.1 rfl
    exact ⟨(hfinish s').1.trans hlines, hnone, iff_of_true ((hfinish s').2 (hstarted.2 hfits)) hfits⟩
  · rw [hstart] at hlines hnone hstarted
    exact ⟨hlines, hnone, hstarted⟩

/-- Sending a file starts the reply, unless one is being sent. -/
theorem sendFileStart_eq (hs : s.res.started = false) (hfile : s.sendingFile = false) :
    sendFileStart ctx s = replyStart ctx { s with res := s.res.chunked, sendingFile := true } := by
  unfold sendFileStart replyStart
  rw [hfile, chunked_started, hs]
  rfl

/-- What an operation does to a response that has not been started. -/
theorem ResOp.run_unstarted (op : ResOp) (hs : s.res.started = false) :
    match (op.plan ctx s.res).head? s.sendingFile with
    | none => op.run ctx s =
        ({ s with res := (op.plan ctx s.res).response }, (op.plan ctx s.res).error? s.sendingFile)
    | some r => Begins ctx s.out r (op.run ctx s) := by
  have hplan := op.plan_started ctx s.res
  unfold ResOp.run
  cases h : op.plan ctx s.res with
  | edit r => rfl
  | fail r e => rfl
  | reply r body =>
    rw [h, hs] at hplan
    exact @replyStart_then ctx { s with res := r } hplan (fun s => endReply (replyRaw s body))
      fun s => ⟨by simp, by simp [replyRaw]⟩
  | finish r =>
    rw [h, hs] at hplan
    exact @replyStart_then ctx { s with res := r } hplan endReply fun s => ⟨by simp, by simp⟩
  | event r writes =>
    rw [h, hs] at hplan
    have hevent : r.eventStarted = false := eventStarted_of_unstarted hplan
    simp only [Plan.run, hevent, Bool.false_eq_true, if_false]
    exact @replyStart_then ctx { s with res := r } hplan
      (fun s => replyEvent { s with res := s.res.startEvent } writes) fun s => ⟨by simp, fun _ => rfl⟩
  | file r =>
    rw [h, hs] at hplan
    cases hfile : s.sendingFile with
    | true =>
      simp only [Plan.run, sendFileStart, hfile, Plan.head?, if_true]
      rfl
    | false =>
      have hrun := @sendFileStart_eq ctx { s with res := r } hplan hfile
      simp only [Plan.run, hrun, Plan.head?, Bool.false_eq_true, if_false]
      exact @replyStart_begins ctx { s with res := r.chunked, sendingFile := true } hplan

/-- A response that has been started stays so, and no operation writes another status line. -/
theorem ResOp.run_started (op : ResOp) (hs : s.res.started = true) :
    statusLines (op.run ctx s).1.out = statusLines s.out ∧
      (op.run ctx s).1.res.started = true := by
  have hplan := op.plan_started ctx s.res
  unfold ResOp.run
  cases h : op.plan ctx s.res with
  | fail r e =>
    rw [h, hs] at hplan
    exact ⟨rfl, hplan⟩
  | edit r =>
    rw [h, hs] at hplan
    exact ⟨rfl, hplan⟩
  | reply r body =>
    rw [h, hs] at hplan
    have hr : r.started = true := hplan
    simp only [Plan.run, replyStart, hr, if_true]
    exact ⟨by simp, by simp [replyRaw, hr]⟩
  | finish r =>
    rw [h, hs] at hplan
    have hr : r.started = true := hplan
    simp only [Plan.run, replyStart, hr, if_true]
    exact ⟨by simp, by simp [hr]⟩
  | event r writes =>
    rw [h, hs] at hplan
    have hr : r.started = true := hplan
    simp only [Plan.run, replyStart, hr, if_true]
    split
    · exact ⟨by simp, hr⟩
    · exact ⟨by simp, rfl⟩
  | file r =>
    rw [h, hs] at hplan
    have hr : r.started = true := hplan
    simp only [Plan.run, sendFileStart, prepareHeaders, chunked_started, hr, if_true]
    split
    · exact ⟨rfl, hr⟩
    · exact ⟨rfl, hr⟩

/-- An operation begins a head, or the response is not started by it. -/
theorem ResOp.run_lines (op : ResOp) (hs : s.res.started = false) :
    statusLines (op.run ctx s).1.out = statusLines s.out + 1 ∨
      (statusLines (op.run ctx s).1.out = statusLines s.out ∧ (op.run ctx s).1.res.started = false) := by
  have hrun := op.run_unstarted ctx hs
  split at hrun
  · refine .inr ?_
    rw [hrun]
    exact ⟨rfl, (op.plan_started ctx s.res).trans hs⟩
  · exact .inl hrun.lines

/-- The error page of `exec` starts a reply if none has been started. -/
theorem errorPage_run (code : Nat) (e : CbError) (hs : s.res.started = false) :
    statusLines ((ResOp.error code e).run ctx s).1.out = statusLines s.out + 1 :=
  ((ResOp.error code e).run_unstarted ctx hs).lines

/-- Unless it has been started, the completion callback replies. -/
theorem complete_plan (err : Option CbError) (r : Response) (hr : r.started = false) :
    ∃ r' body, ResOp.plan ctx r (.complete err) = .reply r' body := by
  cases err with
  | some e => exact ⟨_, _, rfl⟩
  | none =>
    simp only [ResOp.plan, Plan.complete, hr, Bool.false_eq_true, if_false, Plan.sendError]
    split
    · exact ⟨_, _, rfl⟩
    · next x y hxy =>
      rw [hxy]
      exact ⟨_, _, rfl⟩

theorem execHandlers_nil (err : Option CbError) :
    execHandlers ctx [] err s =
      match (ResOp.complete err).run ctx s with
      | (s, none) => (s, none)
      | (s, some e) => (ResOp.error 500 e).run ctx s := by
  simp only [execHandlers, List.nil_append, runOps]
  rcases (ResOp.complete err).run ctx s with ⟨s', _ | e⟩ <;> rfl

theorem execHandlers_cons (op : ResOp) (swallows : Bool) (ops : List (ResOp × Bool))
    (err : Option CbError) :
    execHandlers ctx ((op, swallows) :: ops) err s =
      match op.run ctx s with
      | (s, none) => execHandlers ctx ops err s
      | (s, some e) =>
        if swallows then execHandlers ctx ops err s else (ResOp.error 500 e).run ctx s := by
  simp only [execHandlers, List.cons_append, runOps]
  rcases op.run ctx s with ⟨s', _ | e⟩
  · rfl
  · cases swallows <;> rfl

/-- Nothing that follows the start of a response writes a status line. -/
theorem execHandlers_started (ops : List (ResOp × Bool)) (err : Option CbError)
    (hs : s.res.started = true) :
    statusLines (execHandlers ctx ops err s).1.out = statusLines s.out := by
  induction ops generalizing s with
  | nil =>
    obtain ⟨hlines, hstarted⟩ := (ResOp.complete err).run_started ctx hs
    rw [execHandlers_nil]
    rcases h : (ResOp.complete err).run ctx s with ⟨s', _ | e⟩
    · rw [h] at hlines
      exact hlines
    · rw [h] at hlines hstarted
      exact ((ResOp.error 500 e).run_started ctx hstarted).1.trans hlines
  | cons x ops ih =>
    obtain ⟨op, swallows⟩ := x
    obtain ⟨hlines, hstarted⟩ := op.run_started ctx hs
    rw [execHandlers_cons]
    rcases h : op.run ctx s with ⟨s', _ | e⟩
    · rw [h] at hlines hstarted
      exact (ih hstarted).trans hlines
    · rw [h] at hlines hstarted
      cases swallows with
      | true => exact (ih hstarted).trans hlines
      | false => exact ((ResOp.error 500 e).run_started ctx hstarted).1.trans hlines

/-- Whatever goes on after an operation writes a status line if none has been begun. -/
theorem lines_after {op : ResOp} (hs : s.res.started = false) {n : Nat}
    (hstarted : (op.run ctx s).1.res.started = true → statusLines (op.run ctx s).1.out ≤ n)
    (hunstarted : (op.run ctx s).1.res.started = false → statusLines (op.run ctx s).1.out + 1 ≤ n) :
    statusLines s.out + 1 ≤ n := by
  rcases op.run_lines ctx hs with hlines | ⟨hlines, hrun⟩
  · cases h : (op.run ctx s).1.res.started with
    | true =>
      have hle := hstarted h
      omega
    | false =>
      have hle := hunstarted h
      omega
  · have hle := hunstarted hrun
    omega

/-- A request gets a status line, also one whose file cannot be sent. -/
theorem execHandlers_pos (ops : List (ResOp × Bool)) (err : Option CbError)
    (hs : s.res.started = false) :
    statusLines s.out + 1 ≤ statusLines (execHandlers ctx ops err s).1.out := by
  induction ops generalizing s with
  | nil =>
    have hbegins := (ResOp.complete err).run_unstarted ctx hs
    obtain ⟨r, body, hplan⟩ := complete_plan ctx err s.res hs
    rw [hplan] at hbegins
    have hlines := hbegins.lines
    rw [execHandlers_nil]
    rcases h : (ResOp.complete err).run ctx s with ⟨s', _ | e⟩
    · rw [h] at hlines
      exact hlines.ge
    · rw [h] at hlines
      cases hs' : s'.res.started with
      | true =>
        have hsame := ((ResOp.error 500 e).run_started ctx hs').1
        simp only at hlines ⊢
        omega
      | false =>
        have hpage := errorPage_run ctx 500 e hs'
        simp only at hlines ⊢
        omega
  | cons x ops ih =>
    obtain ⟨op, swallows⟩ := x
    rw [execHandlers_cons]
    refine @lines_after ctx _ op hs _ ?_ ?_
    · intro hrun
      rcases h : op.run ctx s with ⟨s', _ | e⟩
      · rw [h] at hrun
        exact (execHandlers_started ctx ops err hrun).ge
      · rw [h] at hrun
        cases swallows with
        | true => exact (execHandlers_started ctx ops err hrun).ge
        | false => exact ((ResOp.error 500 e).run_started ctx hrun).1.ge
    · intro hrun
      rcases h : op.run ctx s with ⟨s', _ | e⟩
      · rw [h] at hrun
        exact ih hrun
      · rw [h] at hrun
        cases swallows with
        | true => exact ih hrun
        | false => exact (errorPage_run ctx 500 e hrun).ge

/-- An operation that begins a head either starts the response, with one status line, or throws, and
    whatever answers the exception writes a second one. -/
theorem reply_count {op : ResOp} {r : Response} (hbegins : Begins ctx s.out r (op.run ctx s))
    (ok : ResState → Outcome) (fail : CbError → ResState → Outcome)
    (hok : ∀ s', s'.res.started = true → statusLines (ok s').1.out = statusLines s'.out)
    (hfail : ∀ e s', s'.res.started = false →
      statusLines s'.out + 1 ≤ statusLines (fail e s').1.out) :
    let final := match op.run ctx s with
      | (s, none) => ok s
      | (s, some e) => fail e s
    (Fits ctx r ∧ statusLines final.1.out = statusLines s.out + 1) ∨
      (¬ Fits ctx r ∧ statusLines s.out + 2 ≤ statusLines final.1.out) := by
  obtain ⟨hlines, hnone, hstarted⟩ := hbegins
  intro final
  rcases h : op.run ctx s with ⟨s', _ | e⟩
  · rw [h] at hlines hnone hstarted
    have hfinal : final = ok s' := by simp only [final, h]
    have hf : Fits ctx r := hnone.1 rfl
    exact Or.inl ⟨hf, by rw [hfinal, hok s' (hstarted.2 hf)]; exact hlines⟩
  · rw [h] at hlines hnone hstarted
    have hfinal : final = fail e s' := by simp only [final, h]
    have hnf : ¬ Fits ctx r := fun hf => by simpa using hnone.2 hf
    have hs' : s'.res.started = false := by simpa [hnf] using hstarted
    have hmore := hfail e s' hs'
    simp only at hlines
    exact Or.inr ⟨hnf, by rw [hfinal]; omega⟩

/-- **How many status lines a request gets**: one if the first reply inside the `try` fits, and at
    least two if it does not. -/
theorem execHandlers_count (ops : List (ResOp × Bool)) (err : Option CbError)
    (hs : s.res.started = false) (hfile : s.sendingFile = false) :
    (FirstHeadFits ctx ops err s.res ∧
        statusLines (execHandlers ctx ops err s).1.out = statusLines s.out + 1) ∨
      (¬ FirstHeadFits ctx ops err s.res ∧
        statusLines s.out + 2 ≤ statusLines (execHandlers ctx ops err s).1.out) := by
  induction ops generalizing s with
  | nil =>
    obtain ⟨r, body, hplan⟩ := complete_plan ctx err s.res hs
    have hbegins := (ResOp.complete err).run_unstarted ctx hs
    rw [hplan] at hbegins
    have hfits : FirstHeadFits ctx [] err s.res ↔ Fits ctx r := by
      simp [FirstHeadFits, firstHead, hplan, Plan.head?]
    rw [hfits, execHandlers_nil]
    exact reply_count ctx hbegins (fun s => (s, none))
      (fun e s => (ResOp.error 500 e).run ctx s) (fun _ _ => rfl)
      (fun e s' hs' => (errorPage_run ctx 500 e hs').ge)
  | cons x ops ih =>
    obtain ⟨op, swallows⟩ := x
    have hrun := op.run_unstarted ctx hs
    have hstarted := (op.plan_started ctx s.res).trans hs
    rw [hfile] at hrun
    rw [execHandlers_cons]
    cases hhead : (op.plan ctx s.res).head? false with
    | some r =>
      have hfits : FirstHeadFits ctx ((op, swallows) :: ops) err s.res ↔ Fits ctx r := by
        simp [FirstHeadFits, firstHead, hhead]
      rw [hhead] at hrun
      rw [hfits]
      refine reply_count ctx hrun (execHandlers ctx ops err) _
        (fun s' hs' => execHandlers_started ctx ops err hs') ?_
      -- what follows an exception writes a status line, in the handler or in the `catch`
      intro e s' hs'
      split
      · exact execHandlers_pos ctx ops err hs'
      · exact (errorPage_run ctx 500 e hs').ge
    | none =>
      rw [hhead] at hrun
      have hrest := @ih { s with res := (op.plan ctx s.res).response, sendingFile := false } hstarted rfl
      cases herr : (op.plan ctx s.res).error? false with
      | none =>
        have hfits : FirstHeadFits ctx ((op, swallows) :: ops) err s.res ↔
            FirstHeadFits ctx ops err (op.plan ctx s.res).response := by
          simp [FirstHeadFits, firstHead, hhead, herr]
        rw [hfits, hrun, herr]
        exact hrest
      | some e =>
        cases swallows with
        | true =>
          have hfits : FirstHeadFits ctx ((op, true) :: ops) err s.res ↔
              FirstHeadFits ctx ops err (op.plan ctx s.res).response := by
            simp [FirstHeadFits, firstHead, hhead]
          rw [hfits, hrun, herr]
          exact hrest
        | false =>
          rw [hrun, herr]
          refine Or.inl ⟨?_, ?_⟩
          · simp [FirstHeadFits, firstHead, hhead, herr]
          · exact @errorPage_run ctx
              { s with res := (op.plan ctx s.res).response, sendingFile := false } 500 e hstarted

end Exec

/-- **The head of a response is all or nothing exactly if every line fits**, and a request gets
    exactly one status line exactly if the head of the first reply its handlers start fits. -/
theorem head_all_or_nothing_iff_fits (ctx : ReplyCtx) (s : ResState) (ops : List (ResOp × Bool))
    (err : Option CbError) :
    (AllOrNothing ctx s ↔ s.res.started = true ∨ Fits ctx s.res) ∧
      (statusLines (execHandlers ctx ops err .fresh).1.out = 1 ↔ FirstHeadFits ctx ops err .fresh) := by
  refine ⟨allOrNothing_iff ctx, ?_⟩
  have hcount := @execHandlers_count ctx .fresh ops err rfl rfl
  have hnil : statusLines ResState.fresh.out = 0 := rfl
  rw [hnil] at hcount
  rcases hcount with ⟨hfits, hone⟩ | ⟨hnot, htwo⟩
  · exact iff_of_true hone hfits
  · exact iff_of_false (by omega) hnot

/-- A plain `HTTP/1.1` request, with a MIME table and number formatting that do for it. -/
def plainCtx : ReplyCtx :=
  { httpVer := .http11, reqHeaders := .empty _ _, staleVer := (118, 118), order := .insertion _ _,
    mimeType := id, compressible := fun _ => false, acceptEncodings := fun _ => [], trim := id,
    timeText := fun _ => [], readTime := fun _ => none, numToStr := fun n => bytes (toString n),
    base64 := id, errorPage := fun _ e => bytes e }

/-- A header value of 8192 bytes. -/
def longValue : Bytes := List.replicate 8192 120

def setLongHeader : ResOp := .setHeader (bytes "X") longValue true

/-- With a header that does not fit the status line goes out and the rest does not, and a handler
    that sends such a response makes `exec` write a second status line. -/
theorem long_header_splits_head :
    ¬ AllOrNothing plainCtx (setLongHeader.run plainCtx .fresh).1 ∧
      statusLines (execHandlers plainCtx [(setLongHeader, false), (.send [], false)] none
        .fresh).1.out ≠ 1 := by
  have hlong : ∀ r : Response, (bytes "X", longValue) ∈ headLines plainCtx r →
      ¬ Fits plainCtx r := by
    intro r hmem hfits
    have hlen := hfits _ hmem
    have hval : longValue.length = 8192 := List.length_replicate ..
    simp only [hval, maxResHeaderLineLen] at hlen
    omega
  constructor
  · rw [allOrNothing_iff]
    rintro (hs | hf)
    · cases hs
    · exact hlong _ (List.mem_cons_self ..) hf
  · have hcount := @execHandlers_count plainCtx .fresh [(setLongHeader, false), (.send [], false)] none
      rfl rfl
    rcases hcount with ⟨hfits, -⟩ | ⟨-, htwo⟩
    · exact absurd (hfits _ rfl) (hlong _ (List.mem_cons_self ..))
    · have hnil : statusLines ResState.fresh.out = 0 := rfl
      rw [hnil] at htwo
      omega

end LibEvmvc
