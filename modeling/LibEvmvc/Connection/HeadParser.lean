import LibEvmvc.Http.Headers
import LibEvmvc.Http.Methods

set_option autoImplicit false

/-! # Parsing the head of a request

The request line and the header lines of `http_parser`, and the loop of `http_parser::parse` that
walks over the lines of the input buffer. Each line is handed on together with the bytes that stand
before it in memory: `rfind_ch` counts an unsigned index down to zero and never stops there, so a
line without a space is searched into whatever precedes it.

Every line reports how many bytes it used up, and the caller drains the sum from the buffer. A
request line reports its own length, a header line its length and the line end, and the empty line
that ends the head reports four bytes.

What happens at the end of the headers, to the body and to the rest of the connection is not the
loop's business: it works on any `LineHost`. -/

namespace LibEvmvc

/-- `parser_state`. -/
inductive ParserState where
  | parseReqLine
  | parseHeader
  | parseBody
  | parseFormMultipart
  | parseFormUrlencoded
  | parseFormText
  | readyToExec
  | responding
  | completed
  | error
  deriving DecidableEq, Repr

/-- `http_parser::parsing_body`. -/
def ParserState.parsingBody : ParserState → Bool
  | .parseBody | .parseFormMultipart | .parseFormUrlencoded | .parseFormText => true
  | _ => false

/-- What `http_parser` keeps of a request's head. -/
structure HeadInfo where
  method : Method
  methodString : Bytes
  uriString : Bytes
  httpVer : HttpVersion
  httpVerString : Bytes
  hdrs : Option HeaderMap

/-- The head, and how far the parser is. -/
structure ParserHead extends HeadInfo where
  status : ParserState

/-- A parser as it is constructed. -/
def ParserHead.fresh : ParserHead :=
  { status := .parseReqLine, method := .unknown, methodString := [], uriString := [],
    httpVer := .unknown, httpVerString := [], hdrs := none }

/-- What `http_parser::reset` does to the head: the strings stay. -/
def ParserHead.reset (p : ParserHead) : ParserHead :=
  { p with status := .parseReqLine, hdrs := none }

/-- What the head parser calls: `md::trim`, whether `url` accepts a text, and the memory before the
    input buffer. -/
structure HeadEnv where
  trim : Bytes → Bytes
  urlOk : Bytes → Bool
  front : Bytes

/-! ## The request line -/

/-- `rfind_ch` over a text and everything before it: the last place of `c`. -/
def rfindCh (c : UInt8) : Bytes → Option Nat
  | [] => none
  | x :: t =>
    match rfindCh c t with
    | some i => some (i + 1)
    | none => if x = c then some 0 else none

/-- The bytes a method is made of. -/
def isMethodChar (c : UInt8) : Bool :=
  (97 ≤ c && c ≤ 122) || (65 ≤ c && c ≤ 90) || (48 ≤ c && c ≤ 57) || c == 45 || c == 95

/-- The version a text names, if it is one the parser supports. -/
def parseHttpVer (ver : Bytes) : HttpVersion :=
  if lower (cstr ver) = bytes "http/1.0" then .http10
  else if lower (cstr ver) = bytes "http/1.1" then .http11
  else .unknown

/-- The name of a method read backwards. -/
def methodName (reversed : Bytes) : Method × Bytes :=
  match parseMethodReversed reversed with
  | .unknown => (.unknown, reversed.reverse)
  | m => (m, m.toBytes)

/-- How parsing a request line ends. -/
inductive ReqLineResult where
  /-- the line is empty: the parser is in error and the caller closes the connection -/
  | bad
  /-- the search for a space has left the memory of the process -/
  | crash
  /-- the parser goes on, in a new state if the line was good -/
  | keep (p : ParserHead)
  /-- an exception was caught, and the parser is to be reset -/
  | thrown (p : ParserHead)

/-- `http_parser::parse_req_line` on `line`, which `before` precedes in memory. -/
def parseReqLine (env : HeadEnv) (before line : Bytes) (p : ParserHead) : ReqLineResult :=
  if line = [] then .bad
  else
    let text := before ++ line
    let base := before.length
    match rfindCh 32 text with
    | none => .crash
    | some ssp =>
      if ssp + 1 = base then .keep p
      else
        let ver := env.trim (text.drop (ssp + 1))
        let p := { p with httpVerString := ver, httpVer := parseHttpVer ver }
        if parseHttpVer ver = .unknown then .keep p
        -- a space at the very start: the second search starts over at the end of the line, finds
        -- the same space, and the URI would have a negative length
        else if ssp = base then .thrown p
        else
          match rfindCh 32 (text.take ssp) with
          | none => .crash
          | some fsp =>
            if fsp + 1 = base then .keep p
            else
              let uri := (text.take ssp).drop (fsp + 1)
              let p := { p with uriString := uri }
              if env.urlOk uri = false then .thrown p
              -- the method is read backwards up to the start of the line, which is missed if the
              -- line starts with the space or later
              else if fsp ≤ base ∧ (text.take fsp).all isMethodChar then .crash
              else
                let from' := if base < fsp then (text.take fsp).drop base else text.take fsp
                let (m, name) := methodName (from'.reverse.takeWhile isMethodChar)
                .keep { p with
                  method := m, methodString := name, status := .parseHeader,
                  hdrs := some (.empty _ _) }

/-! ## Header lines -/

/-- `http_parser::parse_headers` on a line that is not empty: the name up to the colon, the value
    without the blanks that follow it. -/
def parseHeaderLine (line : Bytes) (p : ParserHead) : Option ParserHead :=
  if 58 ∈ line then
    let name := line.takeWhile (· ≠ 58)
    let val := ((line.dropWhile (· ≠ 58)).drop 1).dropWhile (· = 32)
    some { p with hdrs := some ((p.hdrs.getD (.empty _ _)).set name val false) }
  else none

/-! ## The loop over the lines -/

/-- What the loop needs from the rest of the connection. -/
structure LineHost (W : Type) where
  head : W → ParserHead
  setHead : W → ParserHead → W
  /-- `http_parser::reset` -/
  reset : W → W
  /-- `validate_headers(); post_headers_validation();` and whether they threw -/
  endOfHeaders : W → W × Bool
  /-- `_res && _res->paused()` -/
  paused : W → Bool
  /-- the body states of `http_parser::parse` -/
  parseBody : W → Bytes → W × Nat
  crash : W → W
  crashed : W → Bool

/-- One end of headers: the head it was reached with, the state it led to and whether an exception
    was caught. -/
structure HeadEnd where
  head : HeadInfo
  next : ParserState
  threw : Bool

/-- What one line or a whole call of `parse` leaves behind: the state, the number of bytes used up
    and whether `ec` was set; and for the record the lines `parse_req_line` was given, with their
    places in the buffer, and the ends of headers. -/
structure ParseResult (W : Type) where
  world : W
  used : Nat
  failed : Bool
  reqLines : List (Nat × Bytes)
  heads : List HeadEnd

section Loop

variable {W : Type} (H : LineHost W) (env : HeadEnv)

/-- Nothing was done. -/
def ParseResult.idle (w : W) : ParseResult W := ⟨w, 0, false, [], []⟩

/-- The result of the loop, with what its first line has left behind. -/
def ParseResult.followedBy (r r' : ParseResult W) : ParseResult W :=
  { r' with
    failed := r.failed || r'.failed
    reqLines := r.reqLines ++ r'.reqLines
    heads := r.heads ++ r'.heads }

/-- `http_parser::parse_req_line`. -/
def reqLineStep (w : W) (before line : Bytes) : ParseResult W :=
  let calls := [(before.length, line)]
  match parseReqLine env (env.front ++ before) line (H.head w) with
  | .bad => ⟨H.setHead w { H.head w with status := .error }, 0, true, calls, []⟩
  | .crash => ⟨H.crash w, 0, false, calls, []⟩
  -- the line end is not counted, and stays in the input buffer if nothing else is used up
  | .keep p => ⟨H.setHead w p, line.length, false, calls, []⟩
  | .thrown p => ⟨H.reset (H.setHead w p), line.length, false, calls, []⟩

/-- `http_parser::parse_headers`. -/
def headersStep (w : W) (line : Bytes) : ParseResult W :=
  if line = [] then
    let (w', threw) := H.endOfHeaders w
    let heads := [⟨(H.head w).toHeadInfo, (H.head w').status, threw⟩]
    -- `EVMVC_EOH_SIZE` counts two line ends, the path of the exception one
    if threw then ⟨H.reset w', 2, false, [], heads⟩ else ⟨w', 4, false, [], heads⟩
  else
    match parseHeaderLine line (H.head w) with
    | some p => ⟨H.setHead w p, line.length + 2, false, [], []⟩
    | none => ⟨H.setHead w { H.head w with status := .error }, 0, true, [], []⟩

/-- One turn of the loop. -/
def lineStep (w : W) (before line : Bytes) : ParseResult W :=
  match (H.head w).status with
  | .parseReqLine => reqLineStep H env w before line
  | .parseHeader => headersStep H w line
  | _ => .idle w

/-- The loop, from the current line on, with the bytes used up so far; `tail` follows the last line
    end. -/
def parseLines : Nat → W → Bytes → List Bytes → Bytes → ParseResult W
  | n, w, _, [], _ => { ParseResult.idle w with used := n }
  | n, w, before, line :: lines, tail =>
    let r := lineStep H env w before line
    if H.crashed r.world then r
    else if (H.head r.world).status = .error then { r with used := 0 }
    else if H.paused r.world then { r with used := n + r.used }
    else if (H.head r.world).status.parsingBody then
      if unsplit lines tail = [] then { r with used := n + r.used }
      else
        let (w, k) := H.parseBody r.world (unsplit lines tail)
        { r with world := w, used := n + r.used + k }
    else
      r.followedBy (parseLines (n + r.used) r.world (before ++ line ++ crlf) lines tail)

/-- `http_parser::parse` on the whole input buffer. -/
def parse (w : W) (buf : Bytes) : ParseResult W :=
  if buf = [] then .idle w
  else
    let w := if (H.head w).status = .error then H.reset w else w
    match (H.head w).status with
    | .parseReqLine | .parseHeader => parseLines H env 0 w [] (splitCrlf buf).1 (splitCrlf buf).2
    | .parseBody | .parseFormMultipart | .parseFormUrlencoded | .parseFormText =>
      let (w, n) := H.parseBody w buf
      { ParseResult.idle w with used := n }
    | _ => .idle w

/-! ## What a call of `parse` keeps -/

variable {H env}

/-- A request line leaves the parser in the state it was in, or in the header section. -/
theorem parseReqLine_status (env : HeadEnv) (before line : Bytes) (p p' : ParserHead) :
    (parseReqLine env before line p = .keep p' →
      p'.status = p.status ∨ p'.status = .parseHeader) ∧
    (parseReqLine env before line p = .thrown p' → p'.status = p.status) := by
  unfold parseReqLine
  split
  · exact ⟨nofun, nofun⟩
  · simp only
    split
    · exact ⟨nofun, nofun⟩
    · split
      · exact ⟨by rintro ⟨⟩; exact Or.inl rfl, nofun⟩
      · split
        · exact ⟨by rintro ⟨⟩; exact Or.inl rfl, nofun⟩
        · split
          · exact ⟨nofun, by rintro ⟨⟩; rfl⟩
          · split
            · exact ⟨nofun, nofun⟩
            · split
              · exact ⟨by rintro ⟨⟩; exact Or.inl rfl, nofun⟩
              · split
                · exact ⟨nofun, by rintro ⟨⟩; rfl⟩
                · split
                  · exact ⟨nofun, nofun⟩
                  · exact ⟨by rintro ⟨⟩; exact Or.inr rfl, nofun⟩

/-- A parser in error is reset before it parses. -/
theorem parse_of_error {w : W} {buf : Bytes} (hnil : buf ≠ []) (herror : (H.head w).status = .error)
    (hreset : (H.head (H.reset w)).status ≠ .error) :
    parse H env w buf = parse H env (H.reset w) buf := by
  unfold parse
  rw [if_neg hnil, if_neg hnil]
  simp only [if_pos herror, if_neg hreset]

/-- In a body state all of the input goes to the body. -/
theorem parse_of_body {w : W} {buf : Bytes} (hnil : buf ≠ [])
    (hbody : (H.head w).status.parsingBody = true) :
    parse H env w buf
      = { ParseResult.idle (H.parseBody w buf).1 with used := (H.parseBody w buf).2 } := by
  have herror : (H.head w).status ≠ .error := by
    intro herror
    rw [herror] at hbody
    cases hbody
  unfold parse
  rw [if_neg hnil]
  simp only [if_neg herror]
  split
  · next hs =>
    rw [hs] at hbody
    cases hbody
  · next hs =>
    rw [hs] at hbody
    cases hbody
  · rfl
  · rfl
  · rfl
  · rfl
  · next hraw hmultip hurlenc htext =>
    cases hs : (H.head w).status with
    | parseBody => exact absurd hs hraw
    | parseFormMultipart => exact absurd hs hmultip
    | parseFormUrlencoded => exact absurd hs hurlenc
    | parseFormText => exact absurd hs htext
    | _ =>
      rw [hs] at hbody
      cases hbody

/-- A request that is read to its end is not parsed any further. -/
theorem parse_of_ready {w : W} (hready : (H.head w).status = .readyToExec) (buf : Bytes) :
    parse H env w buf = .idle w := by
  unfold parse
  split
  · rfl
  · rw [if_neg (by rw [hready]; nofun)]
    simp only [hready]

variable (H) in
/-- A property of the connection that the loop keeps, one case for each thing it does, as long as the
    heads it comes to the end of satisfy `P`. -/
structure LoopInvariantOn (P : HeadInfo → Prop) (I : W → Prop) : Prop where
  setHead : ∀ w p, I w → (H.head w).status = .parseReqLine ∨ (H.head w).status = .parseHeader →
    p.status = .parseReqLine ∨ p.status = .parseHeader ∨ p.status = .error → I (H.setHead w p)
  resetHead : ∀ w p, I w → (H.head w).status = .parseReqLine → p.status = .parseReqLine →
    I (H.reset (H.setHead w p))
  endOfHeaders : ∀ w, I w → P (H.head w).toHeadInfo → (H.head w).status = .parseHeader →
    (H.endOfHeaders w).2 = false → I (H.endOfHeaders w).1
  threw : ∀ w, I w → (H.head w).status = .parseHeader → (H.endOfHeaders w).2 = true →
    I (H.reset (H.endOfHeaders w).1)
  parseBody : ∀ w b, I w → (H.head w).status.parsingBody = true → I (H.parseBody w b).1
  crash : ∀ w, I w → I (H.crash w)

section Invariant

variable {P : HeadInfo → Prop} {I : W → Prop} (hI : LoopInvariantOn H P I)

include hI

theorem LoopInvariantOn.reqLineStep {w : W} (hw : I w) (hs : (H.head w).status = .parseReqLine)
    (before line : Bytes) : I (reqLineStep H env w before line).world := by
  have hstatus := parseReqLine_status env (env.front ++ before) line (H.head w)
  unfold LibEvmvc.reqLineStep
  simp only
  split
  · exact hI.setHead w _ hw (Or.inl hs) (Or.inr (Or.inr rfl))
  · exact hI.crash w hw
  · next p hp =>
    have hp' := (hstatus p).1 hp
    rw [hs] at hp'
    exact hI.setHead w p hw (Or.inl hs) (hp'.imp_right Or.inl)
  · next p hp => exact hI.resetHead w p hw hs (((hstatus p).2 hp).trans hs)

theorem LoopInvariantOn.headersStep {w : W} (hw : I w) (hs : (H.head w).status = .parseHeader)
    {line : Bytes} (hP : ∀ e ∈ (headersStep H w line).heads, P e.head) :
    I (headersStep H w line).world := by
  unfold LibEvmvc.headersStep at hP ⊢
  split at hP
  · next hblank =>
    have hhead : P (H.head w).toHeadInfo := by
      simp only at hP
      split at hP
      · exact hP _ (List.mem_singleton.2 rfl)
      · exact hP _ (List.mem_singleton.2 rfl)
    rw [if_pos hblank]
    simp only
    split
    · next h => exact hI.threw w hw hs h
    · next h => exact hI.endOfHeaders w hw hhead hs (by simpa using h)
  · next hblank =>
    rw [if_neg hblank]
    split
    · next p hp =>
      refine hI.setHead w p hw (Or.inr hs) (Or.inr (Or.inl ?_))
      unfold parseHeaderLine at hp
      split at hp
      · cases hp
        exact hs
      · cases hp
    · exact hI.setHead w _ hw (Or.inr hs) (Or.inr (Or.inr rfl))

theorem LoopInvariantOn.parseLines {w : W} (hw : I w) (n : Nat) (before : Bytes)
    (lines : List Bytes) (tail : Bytes)
    (hP : ∀ e ∈ (parseLines H env n w before lines tail).heads, P e.head) :
    I (parseLines H env n w before lines tail).world := by
  induction lines generalizing w n before with
  | nil => exact hw
  | cons line lines ih =>
    have hstep : (∀ e ∈ (lineStep H env w before line).heads, P e.head) →
        I (lineStep H env w before line).world := by
      intro hheads
      unfold lineStep at hheads ⊢
      split
      · next hs => exact hI.reqLineStep hw hs before line
      · next hs =>
        rw [hs] at hheads
        exact hI.headersStep hw hs hheads
      · exact hw
    unfold LibEvmvc.parseLines at hP ⊢
    simp only at hP ⊢
    split at hP
    · next hcrash =>
      rw [if_pos hcrash]
      exact hstep hP
    · next hcrash =>
      rw [if_neg hcrash]
      split at hP
      · next herror =>
        rw [if_pos herror]
        exact hstep hP
      · next herror =>
        rw [if_neg herror]
        split at hP
        · next hpaused =>
          rw [if_pos hpaused]
          exact hstep hP
        · next hpaused =>
          rw [if_neg hpaused]
          split at hP
          · next hbody =>
            rw [if_pos hbody]
            split at hP
            · next hnil =>
              rw [if_pos hnil]
              exact hstep hP
            · next hnil =>
              rw [if_neg hnil]
              exact hI.parseBody _ _ (hstep hP) hbody
          · next hbody =>
            rw [if_neg hbody]
            exact ih (hstep fun e he => hP e (List.mem_append_left _ he)) _ _
              fun e he => hP e (List.mem_append_right _ he)

/-- **What every step of the loop keeps, a call of `parse` keeps.** -/
theorem LoopInvariantOn.parse {w : W} (hw : I w) (hok : (H.head w).status ≠ .error) (buf : Bytes)
    (hP : ∀ e ∈ (parse H env w buf).heads, P e.head) : I (parse H env w buf).world := by
  unfold LibEvmvc.parse at hP ⊢
  rw [if_neg hok] at hP ⊢
  split at hP
  · next hnil =>
    rw [if_pos hnil]
    exact hw
  · next hnil =>
    rw [if_neg hnil]
    simp only at hP ⊢
    split at hP
    · exact hI.parseLines hw _ _ _ _ hP
    · exact hI.parseLines hw _ _ _ _ hP
    · next hs => exact hI.parseBody _ _ hw (by rw [hs]; rfl)
    · next hs => exact hI.parseBody _ _ hw (by rw [hs]; rfl)
    · next hs => exact hI.parseBody _ _ hw (by rw [hs]; rfl)
    · next hs => exact hI.parseBody _ _ hw (by rw [hs]; rfl)
    · exact hw

end Invariant

variable (H) in
/-- A property of the connection that the loop keeps, one case for each thing it does. -/
structure LoopInvariant (I : W → Prop) : Prop where
  setHead : ∀ w p, I w → (H.head w).status = .parseReqLine ∨ (H.head w).status = .parseHeader →
    p.status = .parseReqLine ∨ p.status = .parseHeader ∨ p.status = .error → I (H.setHead w p)
  resetHead : ∀ w p, I w → (H.head w).status = .parseReqLine → p.status = .parseReqLine →
    I (H.reset (H.setHead w p))
  endOfHeaders : ∀ w, I w → (H.head w).status = .parseHeader → (H.endOfHeaders w).2 = false →
    I (H.endOfHeaders w).1
  threw : ∀ w, I w → (H.head w).status = .parseHeader → (H.endOfHeaders w).2 = true →
    I (H.reset (H.endOfHeaders w).1)
  parseBody : ∀ w b, I w → (H.head w).status.parsingBody = true → I (H.parseBody w b).1
  crash : ∀ w, I w → I (H.crash w)

theorem LoopInvariant.parse {I : W → Prop} (hI : LoopInvariant H I) {w : W} (hw : I w)
    (hok : (H.head w).status ≠ .error) (buf : Bytes) : I (parse H env w buf).world := by
  have hon : LoopInvariantOn H (fun _ => True) I :=
    ⟨hI.setHead, hI.resetHead, fun w hw _ => hI.endOfHeaders w hw, hI.threw, hI.parseBody, hI.crash⟩
  exact hon.parse hw hok buf fun _ _ => trivial

end Loop

end LibEvmvc
