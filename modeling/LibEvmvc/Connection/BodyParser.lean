import LibEvmvc.Connection.Connection
import LibEvmvc.Http.ContentType
import LibEvmvc.Multipart.Parser

set_option autoImplicit false

/-! # The body states of the parser

`http_parser` with the variables it reads bodies with: the announced size, the body buffer and the
tree of the multipart parser. `init_body` and `init_multip` allocate them at the end of the headers,
the `reset` functions free them, and the four body states use them.

A read or a write through a null pointer is recorded, and ends the call. Parameters are those of a
connection, and `evmvc::unescape`. -/

namespace LibEvmvc

/-- Undefined behaviour the parser can run into. -/
inductive Fault where
  /-- a line is searched beyond the start of the buffer, see `parseReqLine` -/
  | overread
  /-- `_mp_buf` is null -/
  | noBuffer
  /-- `_mp_current` is null -/
  | noCurrent
  /-- `_res` is null -/
  | noResponse
  deriving DecidableEq, Repr

structure BodyEnv extends ConnEnv where
  /-- `evmvc::unescape` -/
  unescape : Bytes → Bytes

/-- `http_parser`, as far as a request's body needs it. -/
structure BodyParser where
  head : ParserHead
  bodySize : Nat
  mpState : MpStage
  /-- `_mp_uploaded_size` -/
  uploaded : Nat
  mpBuf : Option Bytes
  /-- the contents under `_mp_root`, and `_mp_current` -/
  mpTree : Option MpTree
  mpCompleted : Bool
  /-- the response, if there is one, and whether it is paused -/
  res : Option Bool
  /-- what the body has added to the request's parameters -/
  params : MpParams
  /-- the number of responses created so far -/
  nextId : Nat
  fault : Option Fault

namespace BodyParser

/-- A parser as it is constructed. -/
def fresh : BodyParser :=
  { head := .fresh, bodySize := 0, mpState := .init, uploaded := 0, mpBuf := none, mpTree := none,
    mpCompleted := false, res := none, params := ⟨[], []⟩, nextId := 0, fault := none }

def status (p : BodyParser) : ParserState := p.head.status

def setStatus (p : BodyParser) (s : ParserState) : BodyParser :=
  { p with head := { p.head with status := s } }

def crash (p : BodyParser) (f : Fault) : BodyParser := { p with fault := some f }

/-- `http_parser::reset_body`. -/
def resetBody (p : BodyParser) : BodyParser :=
  { p with uploaded := 0, mpBuf := none, mpCompleted := false }

/-- `http_parser::reset_multip`. -/
def resetMultip (p : BodyParser) : BodyParser :=
  { p with mpState := .init, uploaded := 0, mpBuf := none, mpTree := none, mpCompleted := false }

/-- `http_parser::reset`. -/
def reset (p : BodyParser) : BodyParser :=
  resetMultip (resetBody
    { p with head := p.head.reset, bodySize := 0, res := none, params := ⟨[], []⟩ })

/-- `http_parser::init_body`. -/
def initBody (p : BodyParser) : BodyParser :=
  let p := { p with uploaded := 0, mpBuf := some [], mpCompleted := p.bodySize = 0 }
  if p.bodySize = 0 then
    match p.res with
    | some _ => { p.setStatus .readyToExec with res := some false }
    | none => (p.setStatus .readyToExec).crash .noResponse
  else p

variable (env : BodyEnv)

/-- `http_parser::init_multip`. -/
def initMultip (p : BodyParser) (ct : Bytes) : BodyParser :=
  let p := { p with mpBuf := some [] }
  let boundary := World.getBoundary env.toConnEnv ct
  if boundary = [] then p.setStatus .error
  else { p with mpTree := some (LibEvmvc.initMultip boundary).tree }

/-- `http_parser::validate_headers`, and whether it throws. A request that is refused at once has
    been answered when it returns. -/
def validateHeaders (p : BodyParser) : BodyParser × Bool :=
  match (p.head.hdrs.getD (.empty _ _)).getFirst (bytes "host") with
  | none => (p.setStatus .error, false)
  | some host =>
    let host := env.trim host
    if env.baseOk host p.head.uriString = false then (p, true)
    else
      let found := World.routeFound env.toConnEnv host p.head.toHeadInfo
      let q := { p with nextId := p.nextId + 1 }
      match env.access p.nextId p.head.toHeadInfo with
      | .now denied =>
        if denied || !found then ({ q.setStatus .completed with res := some false }, false)
        else ({ q with res := some false }, false)
      | .later => ({ q.setStatus (if found then p.status else .error) with res := some true }, false)

/-- The loop over the parts of the content type. -/
def contentType (p : BodyParser) (ct : Bytes) : List Bytes → BodyParser
  | [] => p
  | seg :: segs =>
    if lower seg = enctypeUrlencoded then p.setStatus .parseFormUrlencoded
    else if lower seg = enctypeMultipart then initMultip env (p.setStatus .parseFormMultipart) ct
    else if lower seg = enctypeText then p.setStatus .parseFormText
    else contentType p ct segs

/-- `http_parser::post_headers_validation`, and whether it throws. -/
def postHeadersValidation (p : BodyParser) : BodyParser × Bool :=
  if p.status ≠ .parseHeader then (p, false)
  else
    let hdrs := p.head.hdrs.getD (.empty _ _)
    match hdrs.getFirst (bytes "content-length") with
    | none => (p.setStatus .readyToExec, false)
    | some cl =>
      match env.strToNum cl with
      | none => (p, true)
      | some n =>
        let p := { p with bodySize := n }.setStatus .parseBody
        match hdrs.getFirst (bytes "content-type") with
        -- the body buffer is not allocated here
        | none => (p, false)
        | some ct =>
          let p := contentType env p ct ((env.trim ct).splitOn 59)
          if p.status ≠ .parseFormMultipart then (initBody p, false) else (p, false)

/-- What `parse_headers` does at the blank line. -/
def endOfHeaders (p : BodyParser) : BodyParser × Bool :=
  match validateHeaders env p with
  | (p, true) => (p, true)
  | (p, false) => postHeadersValidation env p

/-! ## Reading a body -/

/-- `http_parser::read_body`: the number of bytes it takes. -/
def readBody (p : BodyParser) (data : Bytes) : BodyParser × Nat :=
  if p.mpState = .failed then (p, 0)
  else
    match p.mpBuf with
    | none => (p.crash .noBuffer, 0)
    | some buf =>
      let n := if p.bodySize < p.uploaded + data.length then p.bodySize - p.uploaded else data.length
      ({ p with
        uploaded := p.uploaded + n
        mpBuf := some (buf ++ data.take n)
        mpCompleted := p.mpCompleted || decide (p.bodySize ≤ p.uploaded + n) }, n)

/-- Parameters are added to the request. -/
def addParams (p : BodyParser) (ps : MpParams) : BodyParser :=
  { p with params := ⟨p.params.bodyParams ++ ps.bodyParams, p.params.files ++ ps.files⟩ }

/-- A body that has been read to its end is taken out of the buffer, made into parameters, and the
    buffer is freed. -/
def takeBody (p : BodyParser) (params : Bytes → MpParams) : BodyParser :=
  match p.mpBuf, p.res with
  | some buf, some _ =>
    ((p.addParams (params (buf.take p.bodySize))).resetBody).setStatus .readyToExec
  | none, _ => p.crash .noBuffer
  | _, none => p.crash .noResponse

/-- `http_parser::parse_body`. -/
def parseRaw (p : BodyParser) (data : Bytes) : BodyParser × Nat :=
  let (p, r) := readBody p data
  if p.fault = none ∧ p.mpCompleted then (takeBody p fun body => ⟨[([], body)], []⟩, r) else (p, r)

/-- The loop of `parse_form_urlenc` over the body: the key and the value so far, and which of them
    the next character belongs to. -/
def urlencLoop (unescape : Bytes → Bytes) : Bytes → Bool → Bytes → Bytes → List (Bytes × Bytes)
  | [], _, k, v => if k = [] ∧ v = [] then [] else [(unescape k, unescape v)]
  | c :: rest, tkfv, k, v =>
    if c = 61 then urlencLoop unescape rest false k v
    else if c = 38 then (unescape k, unescape v) :: urlencLoop unescape rest true [] []
    else if tkfv then urlencLoop unescape rest tkfv (k ++ [c]) v
    else urlencLoop unescape rest tkfv k (v ++ [c])

/-- The parameters of a urlencoded body. -/
def urlencParams (unescape : Bytes → Bytes) (body : Bytes) : List (Bytes × Bytes) :=
  urlencLoop unescape (body.map fun c => if c = 43 then 32 else c) true [] []

/-- `http_parser::parse_form_urlenc`. -/
def parseFormUrlenc (p : BodyParser) (data : Bytes) : BodyParser × Nat :=
  let (p, r) := readBody p data
  if p.fault = none ∧ p.mpCompleted then
    (takeBody p fun body => ⟨urlencParams env.unescape body, []⟩, r)
  else (p, r)

/-- `http_parser::parse_form_txtpln`: the body is dropped. -/
def parseFormTxtpln (p : BodyParser) (data : Bytes) : BodyParser × Nat :=
  let (p, r) := readBody p data
  if p.fault = none ∧ p.mpCompleted then (p.resetBody.setStatus .readyToExec, r) else (p, r)

/-- The multipart parser with its buffer. -/
def multip (p : BodyParser) (tree : MpTree) : MpParse :=
  { tree := tree, stage := p.mpState, completed := p.mpCompleted, error := none }

/-- The variables of the multipart parser after its loop. -/
def setMultip (p : BodyParser) (r : MpParse × Bytes) : BodyParser :=
  { p with mpState := r.1.stage, mpBuf := some r.2, mpTree := some r.1.tree,
           mpCompleted := r.1.completed }

/-- What follows the loop of `parse_form_multip`. -/
def multipDone (p : BodyParser) (r : MpParse) : BodyParser :=
  match p.res, r.error, r.completed with
  -- the error is answered, which completes the response
  | some _, some _, _ => { p.setStatus .completed with res := some false }
  | some _, none, true =>
    ((p.addParams (loadMultipartParams r.tree)).resetMultip).setStatus .readyToExec
  | none, some _, _ => p.crash .noResponse
  | none, none, true => p.crash .noResponse
  | _, none, false => p

/-- `http_parser::parse_form_multip`: it takes all it is given. -/
def parseFormMultip (p : BodyParser) (data : Bytes) : BodyParser × Nat :=
  if p.mpState = .failed then (p, 0)
  else
    match p.mpBuf with
    | none => (p.crash .noBuffer, 0)
    | some buf =>
      let p := { p with uploaded := p.uploaded + data.length }
      match p.mpTree with
      -- without a line in the buffer nothing asks for `_mp_current`
      | none =>
        if p.mpState ≠ .content ∧ NoCrlf (buf ++ data) then
          ({ p with mpBuf := some (buf ++ data) }, data.length)
        else (p.crash .noCurrent, 0)
      | some tree =>
        let r := mpLoop env.trim (p.multip tree) (buf ++ data)
        (multipDone (p.setMultip r) r.1, data.length)

/-- The body states of `http_parser::parse`. -/
def parseBody (p : BodyParser) (data : Bytes) : BodyParser × Nat :=
  match p.status with
  | .parseFormMultipart => parseFormMultip env p data
  | .parseFormUrlencoded => parseFormUrlenc env p data
  | .parseFormText => parseFormTxtpln p data
  | _ => parseRaw p data

/-- The rest of the parser, for the loop over the lines. -/
def host : LineHost BodyParser where
  head := head
  setHead p h := { p with head := h }
  reset := reset
  endOfHeaders := endOfHeaders env
  paused p := p.res == some true
  parseBody := parseBody env
  crash p := p.crash .overread
  crashed p := p.fault.isSome

/-! ## Calls -/

/-- What is done to a parser from outside. -/
inductive Call where
  | parse (data : Bytes)
  | reset

def call (p : BodyParser) : Call → BodyParser
  | .parse data => (parse (host env) env.toHeadEnv p data).world
  | .reset => p.reset

def calls (p : BodyParser) (cs : List Call) : BodyParser := cs.foldl (call env) p

end BodyParser

end LibEvmvc
