import LibEvmvc.Connection.RequestHead
import Mathlib.Logic.Function.Basic

set_option autoImplicit false

/-! # One connection

The parser of a connection, the responses it has created and the flags that tie them together, under
the events of the event loop. A response is paused while its access rules are at work; pausing it
sets the `paused` flag of the connection, and resuming it goes through the connection to whichever
response the parser holds at that time. `on_connection_read`, `on_connection_write` and
`on_connection_resume` look at the flag, at the state of the parser and at nothing else.

Parameters: URL parsing, route lookup, the access rules' verdicts, number parsing, the multipart
parser and what the handlers do. Writing to the connection is taken to succeed. -/

namespace LibEvmvc

/-! ## Data -/

/-- When the access rules of a request call back, and with what. -/
inductive Access where
  | now (denied : Bool)
  | later
  deriving DecidableEq, Repr

/-- What the multipart parser makes of the bytes it has been given. -/
inductive MpOutcome where
  | more
  | done
  | failed
  deriving DecidableEq, Repr

/-- What a handler does to its response. -/
inductive HandlerAct where
  /-- `send`, or anything that ends in it -/
  | reply
  /-- `send_event` -/
  | event
  /-- `send_file`; one entry for each chunk before the last, which says whether it has any bytes -/
  | file (chunks : List Bool)
  deriving DecidableEq, Repr

/-- What the connection calls. -/
structure ConnEnv extends HeadEnv where
  /-- `url(base_url, uri)` for a host and a URI does not throw -/
  baseOk : Bytes → Bytes → Bool
  /-- there is a route for a host, a method and a URI -/
  resolve : Bytes → Bytes → Bytes → Bool
  /-- the access rules for a response and its request -/
  access : Nat → HeadInfo → Access
  /-- `md::str_to_num<size_t>`, which may throw -/
  strToNum : Bytes → Option Nat
  multip : Nat → List Bytes → MpOutcome
  /-- what the handlers of a response do before they return -/
  handler : Nat → HeadInfo → List HandlerAct

/-- The closure `validate_headers` hands to `response_t::resume`. -/
structure ResumeCb where
  denied : Bool
  notFound : Bool
  deriving DecidableEq, Repr

/-- What the connection sees of a response. -/
structure ResCtl where
  reqHdrs : HeaderMap
  paused : Bool
  resuming : Bool
  started : Bool
  eventStarted : Bool
  ended : Bool
  resumeCb : Option ResumeCb

def ResCtl.fresh (hdrs : HeaderMap) : ResCtl :=
  { reqHdrs := hdrs, paused := false, resuming := false, started := false, eventStarted := false,
    ended := false, resumeCb := none }

def ResCtl.unpaused (r : ResCtl) : ResCtl := { r with paused := false, resuming := false }

def ResCtl.withoutCb (r : ResCtl) : ResCtl := { r with resumeCb := none }

/-- `http_parser`. -/
structure HttpParser where
  head : ParserHead
  bodySize : Nat
  uploaded : Nat
  /-- the pieces added to `_mp_buf`, if there is one -/
  mpBuf : Option (List Bytes)
  mpCompleted : Bool
  mpFailed : Bool
  res : Option Nat

def HttpParser.fresh : HttpParser :=
  { head := .fresh, bodySize := 0, uploaded := 0, mpBuf := none, mpCompleted := false,
    mpFailed := false, res := none }

/-- What is recorded of a run. -/
inductive Mark where
  /-- the access rules of a response have called back -/
  | validated (id : Nat) (denied : Bool)
  /-- `http_parser::exec` -/
  | exec (id : Nat)
  /-- `on_connection_write` resets a parser in this state -/
  | writeReset (status : ParserState)
  deriving DecidableEq, Repr

/-- `connection`, without its input buffer. -/
structure World where
  parser : HttpParser
  /-- the responses by number -/
  ctl : Nat → ResCtl
  nextId : Nat
  paused : Bool
  keepalive : Bool
  sendingFile : Bool
  /-- the chunks of the file that are still to be sent -/
  file : List Bool
  /-- the output buffer is not empty -/
  out : Bool
  /-- the resume event is active -/
  resumeActive : Bool
  /-- responses whose access rules are still at work, and whether their route was missing -/
  pending : List (Nat × Bool)
  /-- responses whose handlers may still act -/
  handling : List Nat
  closed : Bool
  crashed : Bool
  trace : List Mark

namespace World

def fresh : World :=
  { parser := .fresh, ctl := fun _ => .fresh (.empty _ _), nextId := 0, paused := false,
    keepalive := true, sendingFile := false, file := [], out := false, resumeActive := false,
    pending := [], handling := [], closed := false, crashed := false, trace := [] }

def status (w : World) : ParserState := w.parser.head.status

def setStatus (w : World) (s : ParserState) : World :=
  { w with parser := { w.parser with head := { w.parser.head with status := s } } }

def setCtl (w : World) (id : Nat) (f : ResCtl → ResCtl) : World :=
  { w with ctl := Function.update w.ctl id (f (w.ctl id)) }

def setParser (w : World) (p : HttpParser) : World := { w with parser := p }

def setPaused (w : World) (b : Bool) : World := { w with paused := b }

/-- `event_active` on the resume event. -/
def wake (w : World) : World := { w with resumeActive := true }

/-- Write to the output buffer. -/
def putOut (w : World) : World := { w with out := true }

def crash (w : World) : World := { w with crashed := true }

def mark (w : World) (m : Mark) : World := { w with trace := w.trace ++ [m] }

/-- `http_parser::reset`. -/
def reset (w : World) : World :=
  let w := match w.parser.res with
    | some id => w.setCtl id .withoutCb
    | none => w
  w.setParser { HttpParser.fresh with head := w.parser.head.reset }

/-- A parser that is done with its request, or has failed, is reset before it reads on. -/
def renew (w : World) : World :=
  if w.status = .completed ∨ w.status = .error then w.reset else w

/-- `connection::close`. -/
def close (w : World) : World := { w with closed := true }

/-! ## Resuming and replying

Replying resumes a paused response, resuming goes to the connection, and that calls the closure of
the response, which may reply. The connection is not paused any more by then, so the inner reply is
given `id` for `connection::resume`, which does nothing to a connection that is not paused. -/

/-- `response_t::resume`. -/
def resumeRes (resume : World → World) (id : Nat) (w : World) : World :=
  if (w.ctl id).paused = false ∨ (w.ctl id).resuming = true then w
  else resume (w.setCtl id fun r => { r with resuming := true })

/-- `connection::complete_response`. -/
def completeResponse (resume : World → World) (w : World) : World :=
  -- the parser's request counts as answered, whichever response has ended
  let w := w.setStatus .completed
  if w.paused then resume w else w.wake

/-- `response_t::_reply_start`. -/
def replyStart (id : Nat) (w : World) : World :=
  if (w.ctl id).started then w
  else
    let keep := keepAliveOf w.parser.head.httpVer (w.ctl id).reqHdrs
    { (w.setCtl id fun r => { r with started := true }).putOut with keepalive := keep }

/-- `response_t::end`, once started. -/
def replyEnd (resume : World → World) (id : Nat) (w : World) : World :=
  if (w.ctl id).ended then w
  else completeResponse resume (w.setCtl id fun r => { r with ended := true })

/-- `response_t::send`. -/
def reply (resume : World → World) (id : Nat) (w : World) : World :=
  let w := if (w.ctl id).paused then resumeRes resume id w else w
  replyEnd resume id (replyStart id w).putOut

/-- The closure of `validate_headers`, if one is set, run by the response it was given to. -/
def runResumeCb (id : Nat) (cb : Option ResumeCb) (w : World) : World :=
  match cb with
  | none => w
  | some cb =>
    if cb.denied ∨ (cb.notFound ∧ (w.ctl id).started = false) then reply (fun w => w) id w else w

/-- `response_t::_resume`. -/
def finishResume (id : Nat) (w : World) : World :=
  if (w.ctl id).paused = false ∨ (w.ctl id).resuming = false then w
  else (runResumeCb id (w.ctl id).resumeCb (w.setCtl id .unpaused)).setCtl id .withoutCb

/-- `connection::resume`. -/
def connResume (w : World) : World :=
  if w.paused = false then w
  else
    let w := w.setPaused false
    match w.parser.res with
    | none => w.crash
    | some id => (finishResume id w).wake

/-! ## The end of the headers -/

/-- The access rules of a response call back. -/
def validated (id : Nat) (denied notFound : Bool) (w : World) : World :=
  let w := w.mark (.validated id denied)
  if (w.ctl id).paused = false ∨ (w.ctl id).resuming = true then w
  else resumeRes connResume id (w.setCtl id fun r => { r with resumeCb := some ⟨denied, notFound⟩ })

/-- The access rules of a response are through. -/
def unpend (w : World) (id : Nat) : World :=
  { w with pending := w.pending.filter fun e => e.1 ≠ id }

/-- Create a response for the current head, and pause it. -/
def newResponse (w : World) : World :=
  { w with
    parser := { w.parser with res := some w.nextId }
    ctl := Function.update w.ctl w.nextId
      { ResCtl.fresh (w.parser.head.hdrs.getD (.empty _ _)) with paused := true }
    nextId := w.nextId + 1
    paused := true }

variable (env : ConnEnv)

/-- There is a route, or for `HEAD` one that answers `GET`. -/
def routeFound (env : ConnEnv) (host : Bytes) (h : HeadInfo) : Bool :=
  env.resolve host h.methodString h.uriString ||
    (h.method == .head && env.resolve host Method.get.toBytes h.uriString)

/-- `http_parser::validate_headers`, and whether it throws. -/
def validateHeaders (w : World) : World × Bool :=
  let h := w.parser.head
  match (h.hdrs.getD (.empty _ _)).getFirst (bytes "host") with
  | none => (w.setStatus .error, false)
  | some host =>
    let host := env.trim host
    if env.baseOk host h.uriString = false then (w, true)
    else
      -- a request without a route is paused and validated like the rest, with the parser in error
      let found := routeFound env host h.toHeadInfo
      let id := w.nextId
      let w := (if found then w else w.setStatus .error).newResponse
      match env.access id h.toHeadInfo with
      | .now denied => (w.validated id denied (!found), false)
      | .later => ({ w with pending := w.pending ++ [(id, !found)] }, false)

/-- `multip::get_boundary`. -/
def getBoundary (ct : Bytes) : Bytes :=
  let kvs := (ct.splitOn 59).map fun kv => (env.trim kv).splitOn 61
  let boundary := kvs.findSome? fun
    | [k, v] => if env.trim k = bytes "boundary" then some (env.trim v) else none
    | _ => none
  boundary.getD []

/-- The state `post_headers_validation` chooses for a content type, given the whole header value. -/
def contentState (ct : Bytes) : ParserState :=
  let state := ((env.trim ct).splitOn 59).findSome? fun seg =>
    if lower seg = bytes "application/x-www-form-urlencoded" then some .parseFormUrlencoded
    else if lower seg = bytes "multipart/form-data" then
      some (if getBoundary env ct = [] then .error else .parseFormMultipart)
    else if lower seg = bytes "text/plain" then some .parseFormText
    else none
  state.getD .parseBody

/-- `http_parser::init_body`. -/
def initBody (w : World) : World :=
  let p := { w.parser with uploaded := 0, mpBuf := some [], mpCompleted := w.parser.bodySize = 0 }
  if p.bodySize = 0 then
    let w := (w.setParser p).setStatus .readyToExec
    match p.res with
    -- this also clears the flags that hold the request back until its verdict
    | some id => resumeRes connResume id w
    | none => w.crash
  else w.setParser p

/-- `http_parser::post_headers_validation`, and whether it throws. -/
def postHeadersValidation (w : World) : World × Bool :=
  if w.status ≠ .parseHeader then (w, false)
  else
    let hdrs := w.parser.head.hdrs.getD (.empty _ _)
    match hdrs.getFirst (bytes "content-length") with
    | none => (w.setStatus .readyToExec, false)
    | some cl =>
      match env.strToNum cl with
      | none => (w, true)
      | some n =>
        let w := w.setParser { w.parser with bodySize := n }
        match hdrs.getFirst (bytes "content-type") with
        | none => (w.setStatus .parseBody, false)
        | some ct =>
          -- a multipart body without a boundary is an error, and gets a body buffer like the rest
          if contentState env ct = .parseFormMultipart then
            ((w.setParser { w.parser with mpBuf := some [] }).setStatus .parseFormMultipart, false)
          else (initBody (w.setStatus (contentState env ct)), false)

/-- What `parse_headers` does at the blank line. -/
def endOfHeaders (w : World) : World × Bool :=
  match validateHeaders env w with
  | (w, true) => (w, true)
  | (w, false) => postHeadersValidation env w

/-! ## Bodies -/

/-- How much of `data` still belongs to the body. -/
def clampBody (p : HttpParser) (data : Bytes) : Nat :=
  if p.uploaded + data.length > p.bodySize then p.bodySize - p.uploaded else data.length

/-- `parse_body`, `parse_form_urlenc` and `parse_form_txtpln`: what they read is clamped to the
    announced size, and without a buffer the first byte is fatal. -/
def readBody (w : World) (data : Bytes) : World × Nat :=
  let p := w.parser
  if p.mpFailed then (w, 0)
  else
    match p.mpBuf with
    | none => (w.crash, 0)
    | some buf =>
      let n := clampBody p data
      if p.bodySize ≤ p.uploaded + n then
        ((w.setParser { p with uploaded := 0, mpBuf := none, mpCompleted := false }).setStatus
          .readyToExec, n)
      else
        (w.setParser { p with uploaded := p.uploaded + n, mpBuf := some (buf ++ [data.take n]) }, n)

/-- `parse_form_multip`. -/
def readMultip (w : World) (data : Bytes) : World × Nat :=
  let p := w.parser
  if p.mpFailed then (w, 0)
  else
    match p.mpBuf, p.res with
    | some buf, some id =>
      let p := { p with mpBuf := some (buf ++ [data]) }
      match env.multip id (buf ++ [data]) with
      | .more => (w.setParser p, data.length)
      | .done =>
        ((w.setParser { p with uploaded := 0, mpBuf := none, mpCompleted := false }).setStatus
          .readyToExec, data.length)
      | .failed => (reply connResume id (w.setParser { p with mpFailed := true }), data.length)
    | _, _ => (w.crash, 0)

def parseBody (w : World) (data : Bytes) : World × Nat :=
  if w.status = .parseFormMultipart then readMultip env w data else readBody w data

/-! ## Handlers -/

/-- `send_event`, and whether it throws. -/
def sendEvent (id : Nat) (w : World) : World × Bool :=
  if (w.ctl id).eventStarted = false ∧ (w.ctl id).started = true then (w, true)
  else
    let w := replyStart id w
    let w := w.setCtl id fun r => { r with eventStarted := true }
    (w.putOut.wake, false)

/-- `connection::send_file`, and whether it throws. -/
def sendFile (id : Nat) (chunks : List Bool) (w : World) : World × Bool :=
  if w.sendingFile then (w, true)
  else
    let w := { w with sendingFile := true, file := chunks }
    -- the flag stays up when a response that has been started makes this throw
    if (w.ctl id).started then (w, true) else (replyStart id w, false)

def runAct (id : Nat) (w : World) : HandlerAct → World × Bool
  | .reply => (reply connResume id w, false)
  | .event => sendEvent id w
  | .file chunks => sendFile id chunks w

/-- What a handler does, up to the first exception. -/
def runActs (id : Nat) : List HandlerAct → World → World × Bool
  | [], w => (w, false)
  | act :: acts, w =>
    match runAct id w act with
    | (w, true) => (w, true)
    | (w, false) => runActs id acts w

/-- What the handlers of a response do to it; an exception is answered with an error page. -/
def answer (id : Nat) (w : World) : World :=
  match runActs id (env.handler id w.parser.head.toHeadInfo) w with
  | (w, true) => reply connResume id w
  | (w, false) => w

/-- `http_parser::exec`. -/
def exec (w : World) : World :=
  match w.parser.res with
  | none => w.crash
  | some id =>
    let w := answer env id ((w.setStatus .responding).mark (.exec id))
    { w with handling := id :: w.handling }

/-- `connection::_send_file_chunk`. -/
def sendFileChunk (w : World) : World :=
  match w.file with
  | sent :: chunks => { w with file := chunks, out := w.out || sent }
  | [] => completeResponse connResume { w.putOut with sendingFile := false }

/-- The rest of the connection, for the loop over the lines. -/
def host : LineHost World where
  head w := w.parser.head
  setHead w p := w.setParser { w.parser with head := p }
  reset := reset
  endOfHeaders := endOfHeaders env
  paused w := match w.parser.res with
    | some id => (w.ctl id).paused
    | none => false
  parseBody := parseBody env
  crash := crash
  crashed w := w.crashed

end World

/-! ## Events -/

/-- A call of `parse_req_line`: where the line stands in the stream, and the errors before it. -/
structure ReqLineCall where
  offset : Nat
  line : Bytes
  errors : Nat
  deriving DecidableEq, Repr

/-- A connection with its input buffer, and what is recorded of its runs. -/
structure Conn where
  world : World
  bevIn : Bytes
  /-- bytes drained from the input so far -/
  drained : Nat
  /-- how often a read has left the parser in error -/
  errors : Nat
  calls : List ReqLineCall
  heads : List HeadEnd

def Conn.fresh : Conn :=
  { world := .fresh, bevIn := [], drained := 0, errors := 0, calls := [], heads := [] }

inductive Event where
  | read (data : Bytes)
  /-- the output buffer has been written out -/
  | write
  | resume
  | verdict (id : Nat) (denied : Bool)
  | act (id : Nat) (a : HandlerAct)
  deriving DecidableEq, Repr

namespace Conn

variable (env : ConnEnv)

/-- The connection after a call of `parse`, with the bytes it has used up drained. -/
def afterParse (c : Conn) (r : ParseResult World) : Conn :=
  let ok := r.world.status ≠ .error
  -- after an error everything is drained; a count that is too large drains what there is
  let n := if ok then min r.used c.bevIn.length else c.bevIn.length
  { world := r.world
    bevIn := c.bevIn.drop n
    drained := c.drained + n
    errors := if ok then c.errors else c.errors + 1
    calls := c.calls ++ r.reqLines.map fun call => ⟨c.drained + call.1, call.2, c.errors⟩
    heads := c.heads ++ r.heads }

/-- What `on_connection_read` does once `parse` has returned. -/
def afterRead (c : Conn) (r : ParseResult World) : Conn :=
  let c := c.afterParse r
  if c.world.crashed then c
  else if r.failed then { c with world := c.world.close }
  else if c.world.paused then c
  else if c.world.status = .readyToExec then { c with world := c.world.exec env }
  else c

/-- `connection::on_connection_read`. -/
def onRead (c : Conn) : Conn :=
  if c.world.renew.status = .responding ∨ c.bevIn = [] then { c with world := c.world.renew }
  else c.afterRead env (parse (World.host env) env.toHeadEnv c.world.renew c.bevIn)

/-- `connection::on_connection_write`. -/
def onWrite (w : World) : World :=
  if w.paused then w
  else if w.status = .readyToExec then w.exec env
  else if w.sendingFile then w.sendFileChunk
  -- whatever the parser is doing by now
  else if w.keepalive then (w.mark (.writeReset w.status)).reset
  else w.close

/-- `connection::on_connection_resume`. -/
def onResume (c : Conn) : Conn :=
  -- the flag goes down whether or not the response has been resumed
  let c := { c with world := { c.world with paused := false, resumeActive := false } }
  if c.world.status = .readyToExec then { c with world := c.world.exec env }
  else if c.world.out then c
  else if c.bevIn = [] then c
  else c.onRead env

/-- What an event does to a connection that is still there. -/
def handle (c : Conn) : Event → Conn
  | .read data => { c with bevIn := c.bevIn ++ data }.onRead env
  | .write => { c with world := onWrite env { c.world with out := false } }
  | .resume => if c.world.resumeActive then c.onResume env else c
  | .verdict id denied =>
    match c.world.pending.find? fun e => e.1 = id with
    | none => c
    | some (_, notFound) =>
      { c with world := (c.world.unpend id).validated id denied notFound }
  | .act id a =>
    if id ∈ c.world.handling then { c with world := (c.world.runAct id a).1 } else c

def step (c : Conn) (e : Event) : Conn :=
  if c.world.closed ∨ c.world.crashed then c else c.handle env e

def run (c : Conn) (es : List Event) : Conn := es.foldl (step env) c

/-- Every event of a run meets `P` in the state it comes in. -/
def AllSteps (P : Conn → Event → Prop) : Conn → List Event → Prop
  | _, [] => True
  | c, e :: es => P c e ∧ AllSteps P (c.step env e) es

/-- An invariant of the steps that meet `P` is one of the runs whose steps do. -/
theorem run_invariant {P : Conn → Event → Prop} {I : Conn → Prop}
    (hstep : ∀ c e, I c → P c e → I (c.step env e)) {c : Conn} (hc : I c) {es : List Event}
    (hes : AllSteps env P c es) : I (c.run env es) := by
  induction es generalizing c with
  | nil => exact hc
  | cons e es ih => exact ih (hstep c e hc hes.1) hes.2

end Conn

/-! ## A plain server -/

/-- White space at both ends removed. -/
def trimBlanks (b : Bytes) : Bytes :=
  let blank (c : UInt8) : Bool := c == 32 || (9 ≤ c && c ≤ 13)
  ((b.dropWhile blank).reverse.dropWhile blank).reverse

/-- A decimal number, if the text is one. -/
def decimal (b : Bytes) : Option Nat :=
  if b ≠ [] ∧ b.all (fun c => 48 ≤ c && c ≤ 57) then
    some (b.foldl (fun n c => 10 * n + (c.toNat - 48)) 0)
  else none

/-- A server that finds every route, whose access rules call back as given and whose handlers do as
    given. -/
def plainEnv (access : Access) (acts : List HandlerAct) : ConnEnv :=
  { trim := trimBlanks, urlOk := fun _ => true, front := [], baseOk := fun _ _ => true,
    resolve := fun _ _ _ => true, access := fun _ _ => access, strToNum := decimal,
    multip := fun _ _ => .more, handler := fun _ _ => acts }

end LibEvmvc
