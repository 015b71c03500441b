import LibEvmvc.Connection.HeadParser
import LibEvmvc.Http.Response

set_option autoImplicit false

/-! # Parsing a well-formed request head

What one call of `http_parser::parse` does to the bytes of a well-formed head, or to the first part
of one, on any `LineHost`. The lines are taken up one after the other (`parseLines`), but the
number of bytes reported lags two behind, since the request line does not count its line end: a call
that stops inside the header section leaves a line end in the buffer that has been read already. -/

namespace LibEvmvc

/-! ## Well-formed heads -/

/-- A request head: `METHOD SP URI SP HTTP/1.x` and header lines. -/
structure ReqHead where
  method : Bytes
  uri : Bytes
  ver : Bytes
  headers : List (Bytes × Bytes)
  method_ne : method ≠ []
  method_space : 32 ∉ method
  uri_space : 32 ∉ uri
  ver_ok : ver = bytes "HTTP/1.0" ∨ ver = bytes "HTTP/1.1"
  reqLine_noCrlf : NoCrlf (method ++ 32 :: (uri ++ 32 :: ver))
  headers_noCrlf : ∀ nv ∈ headers, NoCrlf (headerText nv)

namespace ReqHead

variable (h : ReqHead)

def reqLine : Bytes := h.method ++ 32 :: (h.uri ++ 32 :: h.ver)

def headerLines : List Bytes := h.headers.map headerText

/-- The request line and the header lines. -/
def lines : List Bytes := h.reqLine :: h.headerLines

/-- The head with its blank line. -/
def bytes : Bytes := unsplit (h.lines ++ [[]]) []

/-- The head parser accepts the URI, and `md::trim` leaves the version alone. -/
structure Accepted (env : HeadEnv) : Prop where
  urlOk : env.urlOk h.uri = true
  trim : env.trim h.ver = h.ver

/-- The parser once the request line is through. -/
def afterReqLine : ParserHead :=
  let (m, name) := methodName (h.method.reverse.takeWhile isMethodChar)
  { status := .parseHeader, method := m, methodString := name, uriString := h.uri,
    httpVer := parseHttpVer h.ver, httpVerString := h.ver, hdrs := some (.empty _ _) }

end ReqHead

/-! ## The request line -/

theorem rfindCh_none {c : UInt8} {b : Bytes} (h : c ∉ b) : rfindCh c b = none := by
  induction b with
  | nil => rfl
  | cons x b ih =>
    rw [List.mem_cons, not_or] at h
    rw [rfindCh, ih h.2]
    exact if_neg fun hx => h.1 hx.symm

theorem rfindCh_last (c : UInt8) (a : Bytes) {b : Bytes} (h : c ∉ b) :
    rfindCh c (a ++ c :: b) = some a.length := by
  induction a with
  | nil =>
    rw [List.nil_append, rfindCh, rfindCh_none h]
    exact if_pos rfl
  | cons x a ih =>
    rw [List.cons_append, rfindCh, ih]
    rfl

theorem ReqHead.ver_facts (h : ReqHead) : 32 ∉ h.ver ∧ parseHttpVer h.ver ≠ .unknown := by
  rcases h.ver_ok with hv | hv
  · rw [hv]
    decide
  · rw [hv]
    decide

/-- **A well-formed request line is understood, whatever stands before it in memory.** -/
theorem parseReqLine_reqLine {env : HeadEnv} {h : ReqHead} (hacc : h.Accepted env)
    (before : Bytes) (p : ParserHead) :
    parseReqLine env before h.reqLine p = .keep h.afterReqLine := by
  obtain ⟨hspace, hver⟩ := h.ver_facts
  have hmlen : 0 < h.method.length := List.length_pos_iff.2 h.method_ne
  have hne : h.reqLine ≠ [] := by simp [ReqHead.reqLine]
  have hcut : before ++ h.reqLine = (before ++ h.method ++ 32 :: h.uri) ++ 32 :: h.ver := by
    simp [ReqHead.reqLine]
  -- the last space stands before the version, and the last one before that before the URI
  have hssp : rfindCh 32 (before ++ h.reqLine) = some (before ++ h.method ++ 32 :: h.uri).length := by
    rw [hcut]
    exact rfindCh_last 32 _ hspace
  have hverText : (before ++ h.reqLine).drop ((before ++ h.method ++ 32 :: h.uri).length + 1)
      = h.ver := by
    rw [hcut, ← List.drop_drop]
    simp
  have htake : (before ++ h.reqLine).take (before ++ h.method ++ 32 :: h.uri).length
      = before ++ h.method ++ 32 :: h.uri := by
    rw [hcut]
    exact List.take_left
  have hfsp : rfindCh 32 (before ++ h.method ++ 32 :: h.uri) = some (before ++ h.method).length :=
    rfindCh_last 32 _ h.uri_space
  have huri : (before ++ h.method ++ 32 :: h.uri).drop ((before ++ h.method).length + 1) = h.uri := by
    rw [← List.drop_drop]
    simp
  have hmethod : ((before ++ h.reqLine).take (before ++ h.method).length).drop before.length
      = h.method := by
    have hshape : before ++ h.reqLine = (before ++ h.method) ++ 32 :: (h.uri ++ 32 :: h.ver) := by
      simp [ReqHead.reqLine]
    rw [hshape, List.take_left]
    exact List.drop_left
  -- the method is not empty, so neither space is the first byte of the line or before it
  have hlen₁ : (before ++ h.method ++ 32 :: h.uri).length + 1 ≠ before.length := by
    simp only [List.length_append, List.length_cons]
    omega
  have hlen₂ : (before ++ h.method ++ 32 :: h.uri).length ≠ before.length := by
    simp only [List.length_append, List.length_cons]
    omega
  have hlen₃ : (before ++ h.method).length + 1 ≠ before.length := by
    rw [List.length_append]
    omega
  have hlen₄ : before.length < (before ++ h.method).length := by
    rw [List.length_append]
    omega
  unfold parseReqLine
  rw [if_neg hne]
  simp only [hssp, hverText, hacc.trim, htake, hfsp, huri, hacc.urlOk, if_neg hlen₁, if_neg hver,
    if_neg hlen₂, if_neg hlen₃, if_pos hlen₄, hmethod, Bool.true_eq_false, if_false]
  rw [if_neg fun hle => absurd hle.1 (Nat.not_le.2 hlen₄)]
  rfl

/-! ## One line after the other -/

/-- What the loop relies on. -/
structure LineHost.Lawful {W : Type} (H : LineHost W) : Prop where
  head_setHead : ∀ w p, H.head (H.setHead w p) = p
  crashed_setHead : ∀ w p, H.crashed (H.setHead w p) = H.crashed w
  paused_setHead : ∀ w p, H.paused (H.setHead w p) = H.paused w
  head_reset : ∀ w, H.head (H.reset w) = (H.head w).reset
  crashed_reset : ∀ w, H.crashed (H.reset w) = H.crashed w
  paused_reset : ∀ w, H.paused (H.reset w) = false
  /-- the end of headers leaves the head alone -/
  endOfHeaders_info : ∀ w, (H.head (H.endOfHeaders w).1).toHeadInfo = (H.head w).toHeadInfo
  /-- and leaves the header section, unless it throws -/
  endOfHeaders_status : ∀ w, (H.head w).status = .parseHeader → (H.endOfHeaders w).2 = false →
    (H.head (H.endOfHeaders w).1).status ≠ .parseReqLine ∧
    (H.head (H.endOfHeaders w).1).status ≠ .parseHeader
  endOfHeaders_threw : ∀ w, (H.endOfHeaders w).2 = true →
    H.crashed (H.endOfHeaders w).1 = H.crashed w

section Lines

variable {W : Type} {H : LineHost W} {env : HeadEnv}

/-- The parser reads the head and nothing holds it up. -/
structure LineHost.Ready (H : LineHost W) (w : W) (s : ParserState) : Prop where
  status : (H.head w).status = s
  notCrashed : H.crashed w = false
  notPaused : H.paused w = false

theorem LineHost.Ready.setHead (hH : H.Lawful) {w : W} {s : ParserState} (hw : H.Ready w s)
    (p : ParserHead) : H.Ready (H.setHead w p) p.status :=
  ⟨by rw [hH.head_setHead], by rw [hH.crashed_setHead]; exact hw.notCrashed,
    by rw [hH.paused_setHead]; exact hw.notPaused⟩

/-- A line after which the head goes on. -/
theorem parseLines_cons {w : W} {s : ParserState} {before line : Bytes} {r : ParseResult W}
    (hstep : lineStep H env w before line = r) (hr : H.Ready r.world s)
    (hs : s = .parseReqLine ∨ s = .parseHeader) (n : Nat) (lines : List Bytes) (tail : Bytes) :
    parseLines H env n w before (line :: lines) tail
      = r.followedBy
          (parseLines H env (n + r.used) r.world (before ++ line ++ crlf) lines tail) := by
  have hok : (H.head r.world).status ≠ .error ∧
      (H.head r.world).status.parsingBody = false := by
    rw [hr.status]
    rcases hs with rfl | rfl
    · exact ⟨by decide, rfl⟩
    · exact ⟨by decide, rfl⟩
  rw [parseLines, hstep]
  simp only [hr.notCrashed, hr.notPaused, hok.1, hok.2, Bool.false_eq_true, if_false]

theorem lineStep_reqLine {h : ReqHead} (hacc : h.Accepted env) {w : W}
    (hw : H.Ready w .parseReqLine) (before : Bytes) :
    lineStep H env w before h.reqLine
      = ⟨H.setHead w h.afterReqLine, h.reqLine.length, false,
          [(before.length, h.reqLine)], []⟩ := by
  unfold lineStep
  simp only [hw.status]
  unfold reqLineStep
  rw [parseReqLine_reqLine hacc]

/-- A header line, taken up. -/
def addHeader (H : LineHost W) (w : W) (nv : Bytes × Bytes) : W :=
  match parseHeaderLine (headerText nv) (H.head w) with
  | some p => H.setHead w p
  | none => w

/-- The name and the value `parse_headers` reads from a header line. -/
def readHeader (nv : Bytes × Bytes) : Bytes × Bytes :=
  ((headerText nv).takeWhile (· ≠ 58),
    (((headerText nv).dropWhile (· ≠ 58)).drop 1).dropWhile (· = 32))

theorem parseHeaderLine_headerText (nv : Bytes × Bytes) (p : ParserHead) :
    parseHeaderLine (headerText nv) p = some { p with
      hdrs := some ((p.hdrs.getD (.empty _ _)).set (readHeader nv).1 (readHeader nv).2 false) } := by
  have hcolon : 58 ∈ headerText nv := by simp [headerText]
  unfold parseHeaderLine
  rw [if_pos hcolon]
  rfl

theorem head_addHeader (hH : H.Lawful) (w : W) (nv : Bytes × Bytes) :
    H.head (addHeader H w nv) = { H.head w with
      hdrs := some (((H.head w).hdrs.getD (.empty _ _)).set (readHeader nv).1 (readHeader nv).2
        false) } := by
  unfold addHeader
  rw [parseHeaderLine_headerText]
  exact hH.head_setHead _ _

theorem addHeader_ready (hH : H.Lawful) {w : W} (hw : H.Ready w .parseHeader)
    (nv : Bytes × Bytes) : H.Ready (addHeader H w nv) .parseHeader := by
  have hset := hw.setHead hH { H.head w with
    hdrs := some (((H.head w).hdrs.getD (.empty _ _)).set (readHeader nv).1 (readHeader nv).2 false) }
  unfold addHeader
  rw [parseHeaderLine_headerText]
  exact ⟨hset.status.trans hw.status, hset.notCrashed, hset.notPaused⟩

theorem lineStep_header {w : W} (hw : H.Ready w .parseHeader) (before : Bytes)
    (nv : Bytes × Bytes) :
    lineStep H env w before (headerText nv)
      = ⟨addHeader H w nv, (headerText nv).length + 2, false, [], []⟩ := by
  have hne : headerText nv ≠ [] := by simp [headerText]
  unfold lineStep
  simp only [hw.status]
  unfold headersStep addHeader
  rw [if_neg hne, parseHeaderLine_headerText]

/-- The header lines of a list, taken up one by one. -/
def addHeaders (H : LineHost W) (w : W) (nvs : List (Bytes × Bytes)) : W :=
  nvs.foldl (addHeader H) w

theorem addHeaders_ready (hH : H.Lawful) {w : W} (hw : H.Ready w .parseHeader)
    (nvs : List (Bytes × Bytes)) : H.Ready (addHeaders H w nvs) .parseHeader := by
  induction nvs generalizing w with
  | nil => exact hw
  | cons nv nvs ih => exact ih (addHeader_ready hH hw nv)

/-- The values the parser holds under a name. -/
def HeadInfo.values (p : HeadInfo) (name : Bytes) : List Bytes :=
  (p.hdrs.getD (.empty _ _)).values name

theorem values_addHeader (hH : H.Lawful) (w : W) (nv : Bytes × Bytes) (name : Bytes) :
    (H.head (addHeader H w nv)).values name
      = if lower name = lower (readHeader nv).1 then (H.head w).values name ++ [(readHeader nv).2]
        else (H.head w).values name := by
  rw [head_addHeader hH]
  exact HeaderMap.values_set ..

theorem length_values_addHeaders (hH : H.Lawful) (w : W) (nvs : List (Bytes × Bytes))
    (name : Bytes) :
    ((H.head w).values name).length ≤ ((H.head (addHeaders H w nvs)).values name).length := by
  induction nvs generalizing w with
  | nil => exact Nat.le_refl _
  | cons nv nvs ih =>
    refine Nat.le_trans ?_ (ih (addHeader H w nv))
    rw [values_addHeader hH]
    split
    · rw [List.length_append]
      exact Nat.le_add_right _ _
    · exact Nat.le_refl _

/-- **No header line is taken up without a trace.** -/
theorem addHeaders_ne (hH : H.Lawful) (w : W) {nvs : List (Bytes × Bytes)} (hne : nvs ≠ []) :
    (H.head (addHeaders H w nvs)).toHeadInfo ≠ (H.head w).toHeadInfo := by
  obtain ⟨nv, nvs, rfl⟩ := List.exists_cons_of_ne_nil hne
  intro heq
  have hfirst : ((H.head w).values (readHeader nv).1).length
      < ((H.head (addHeader H w nv)).values (readHeader nv).1).length := by
    rw [values_addHeader hH, if_pos rfl, List.length_append]
    exact Nat.lt_succ_self _
  have hrest := length_values_addHeaders hH (addHeader H w nv) nvs (readHeader nv).1
  have hcount : ((H.head (addHeaders H w (nv :: nvs))).values (readHeader nv).1).length
      = ((H.head w).values (readHeader nv).1).length := by rw [heq]
  exact absurd (Nat.lt_of_lt_of_le hfirst hrest) (Nat.not_lt.2 (Nat.le_of_eq hcount))

theorem length_unsplit_cons (l : Bytes) (ls : List Bytes) (tail : Bytes) :
    (unsplit (l :: ls) tail).length = l.length + 2 + (unsplit ls tail).length := by
  rw [unsplit_cons, List.length_append, List.length_append]
  rfl

theorem parseLines_headers (hH : H.Lawful) {w : W} (hw : H.Ready w .parseHeader) (n : Nat)
    (before : Bytes) (nvs : List (Bytes × Bytes)) (lines : List Bytes) (tail : Bytes) :
    parseLines H env n w before (nvs.map headerText ++ lines) tail
      = parseLines H env (n + (unsplit (nvs.map headerText) []).length) (addHeaders H w nvs)
          (before ++ unsplit (nvs.map headerText) []) lines tail := by
  induction nvs generalizing w before n with
  | nil => simp [unsplit, addHeaders]
  | cons nv nvs ih =>
    have hnv := addHeader_ready hH hw nv
    have hbefore : before ++ headerText nv ++ crlf ++ unsplit (nvs.map headerText) []
        = before ++ unsplit ((nv :: nvs).map headerText) [] := by
      rw [List.map_cons, unsplit_cons, List.append_assoc before, List.append_assoc]
    have hcount : n + ((headerText nv).length + 2) + (unsplit (nvs.map headerText) []).length
        = n + (unsplit ((nv :: nvs).map headerText) []).length := by
      rw [List.map_cons, length_unsplit_cons]
      omega
    rw [List.map_cons, List.cons_append,
      parseLines_cons (lineStep_header hw before nv) hnv (Or.inr rfl), ih hnv, hbefore, hcount]
    rfl

/-- The state once the request line and some header lines are through. -/
def ReqHead.after (h : ReqHead) (H : LineHost W) (w : W) (nvs : List (Bytes × Bytes)) : W :=
  addHeaders H (H.setHead w h.afterReqLine) nvs

/-- The head with one more header line. -/
def ParserHead.withHeader (p : ParserHead) (nv : Bytes × Bytes) : ParserHead :=
  { p with
    hdrs := some ((p.hdrs.getD (.empty _ _)).set (readHeader nv).1 (readHeader nv).2 false) }

/-- What the parser knows of a head when it comes to its blank line. -/
def ReqHead.info (h : ReqHead) : HeadInfo :=
  (h.headers.foldl ParserHead.withHeader h.afterReqLine).toHeadInfo

theorem ReqHead.info_after (hH : H.Lawful) (h : ReqHead) (w : W) :
    (H.head (h.after H w h.headers)).toHeadInfo = h.info := by
  have hadd : ∀ (nvs : List (Bytes × Bytes)) (w : W),
      H.head (addHeaders H w nvs) = nvs.foldl ParserHead.withHeader (H.head w) := by
    intro nvs
    induction nvs with
    | nil => exact fun w => rfl
    | cons nv nvs ih =>
      intro w
      refine (ih (addHeader H w nv)).trans ?_
      rw [head_addHeader hH]
      rfl
  unfold ReqHead.after ReqHead.info
  rw [hadd, hH.head_setHead]

theorem ReqHead.after_ready (hH : H.Lawful) (h : ReqHead) {w : W} (hw : H.Ready w .parseReqLine)
    (nvs : List (Bytes × Bytes)) : H.Ready (h.after H w nvs) .parseHeader :=
  addHeaders_ready hH (hw.setHead hH h.afterReqLine) nvs

/-- **A request line and header lines, then the rest of the buffer.** -/
theorem parseLines_head (hH : H.Lawful) {h : ReqHead} (hacc : h.Accepted env) {w : W}
    (hw : H.Ready w .parseReqLine) (nvs : List (Bytes × Bytes)) (lines : List Bytes)
    (tail : Bytes) :
    parseLines H env 0 w [] (h.reqLine :: (nvs.map headerText ++ lines)) tail
      = ParseResult.followedBy ⟨h.after H w nvs, 0, false, [(0, h.reqLine)], []⟩
          (parseLines H env ((unsplit (h.reqLine :: nvs.map headerText) []).length - 2)
            (h.after H w nvs) (unsplit (h.reqLine :: nvs.map headerText) []) lines tail) := by
  have hw' : H.Ready (H.setHead w h.afterReqLine) .parseHeader := hw.setHead hH h.afterReqLine
  have hcount : 0 + h.reqLine.length + (unsplit (nvs.map headerText) []).length
      = (unsplit (h.reqLine :: nvs.map headerText) []).length - 2 := by
    rw [length_unsplit_cons]
    omega
  rw [parseLines_cons (lineStep_reqLine hacc hw []) hw' (Or.inr rfl), parseLines_headers hH hw',
    hcount, unsplit_cons]
  rfl

/-! ## What a call of `parse` does -/

theorem splitCrlf_unsplit {ls : List Bytes} (hls : ∀ l ∈ ls, NoCrlf l) (rest : Bytes) :
    splitCrlf (unsplit ls rest) = (ls ++ (splitCrlf rest).1, (splitCrlf rest).2) :=
  splitCrlf_lines hls rest

theorem ReqHead.noCrlf_lines (h : ReqHead) : ∀ l ∈ h.lines, NoCrlf l := by
  intro l hl
  rcases List.mem_cons.1 hl with rfl | hmem
  · exact h.reqLine_noCrlf
  · obtain ⟨nv, hnv, rfl⟩ := List.mem_map.1 hmem
    exact h.headers_noCrlf nv hnv

/-- The text of some lines, cut in two, is cut inside one of them or just before it. -/
theorem unsplit_cut {ls : List Bytes} {b rest : Bytes} (h : b ++ rest = unsplit ls [])
    (hrest : rest ≠ []) :
    ∃ k, ∃ hk : k < ls.length, ∃ t u, b = unsplit (ls.take k) t ∧ t ++ u = ls[k] ++ crlf ∧ u ≠ [] ∧
      rest = u ++ unsplit (ls.drop (k + 1)) [] := by
  induction ls generalizing b with
  | nil => exact absurd (List.append_eq_nil_iff.1 h).2 hrest
  | cons l ls ih =>
    have hlater : ∀ b', b = l ++ crlf ++ b' → b' ++ rest = unsplit ls [] →
        ∃ k, ∃ hk : k < (l :: ls).length, ∃ t u, b = unsplit ((l :: ls).take k) t ∧
          t ++ u = (l :: ls)[k] ++ crlf ∧ u ≠ [] ∧
          rest = u ++ unsplit ((l :: ls).drop (k + 1)) [] := by
      intro b' hb hb'
      obtain ⟨k, hk, t, u, rfl, htu, hu, hrest'⟩ := ih hb'
      exact ⟨k + 1, Nat.succ_lt_succ hk, t, u, by rw [hb, List.take_succ_cons, unsplit_cons], htu, hu,
        hrest'⟩
    rw [unsplit_cons] at h
    rcases List.append_eq_append_iff.1 h with ⟨u, hl, hrest'⟩ | ⟨b', hb, hb'⟩
    · by_cases hu : u = []
      · subst hu
        rw [List.append_nil] at hl
        exact hlater [] (by rw [hl, List.append_nil]) hrest'
      · exact ⟨0, Nat.succ_pos _, b, u, by simp [unsplit], hl.symm, hu, hrest'⟩
    · exact hlater b' hb hb'.symm

theorem unsplit_ne_nil (l : Bytes) (ls : List Bytes) (tail : Bytes) : unsplit (l :: ls) tail ≠ [] := by
  rw [unsplit_cons]
  simp [crlf]

/-- In the head states a call goes over the lines of the buffer. -/
theorem parse_eq_parseLines {w : W} {s : ParserState} (hw : (H.head w).status = s)
    (hs : s = .parseReqLine ∨ s = .parseHeader) {buf : Bytes} (hbuf : buf ≠ []) :
    parse H env w buf = parseLines H env 0 w [] (splitCrlf buf).1 (splitCrlf buf).2 := by
  unfold parse
  rcases hs with rfl | rfl
  · simp only [if_neg hbuf, hw, reduceCtorEq, if_false]
  · simp only [if_neg hbuf, hw, reduceCtorEq, if_false]

/-- A buffer without a line end is left for later. -/
theorem parse_noCrlf {w : W} {s : ParserState} (hw : (H.head w).status = s)
    (hs : s = .parseReqLine ∨ s = .parseHeader) {buf : Bytes} (hbuf : NoCrlf buf) :
    parse H env w buf = .idle w := by
  by_cases hne : buf = []
  · unfold parse
    rw [if_pos hne]
  · rw [parse_eq_parseLines hw hs hne, splitCrlf_noCrlf hbuf]
    rfl

/-- The lines of a head that is cut short, and what is there of the next one. -/
theorem ReqHead.splitCrlf_part (h : ReqHead) (k : Nat) {t : Bytes} (ht : NoCrlf t) :
    splitCrlf (unsplit (h.reqLine :: (h.headers.take k).map headerText) t)
      = (h.reqLine :: (h.headers.take k).map headerText, t) := by
  have hlines : ∀ l ∈ h.reqLine :: (h.headers.take k).map headerText, NoCrlf l := by
    intro l hl
    refine h.noCrlf_lines l (List.mem_cons.2 ((List.mem_cons.1 hl).imp_right fun hmem => ?_))
    exact List.map_subset headerText (List.take_subset k h.headers) hmem
  rw [splitCrlf_unsplit hlines, splitCrlf_noCrlf ht, List.append_nil]

/-- **A head cut short after some header lines.** -/
theorem parse_head_part (hH : H.Lawful) {h : ReqHead} (hacc : h.Accepted env) {w : W}
    (hw : H.Ready w .parseReqLine) (k : Nat) {t : Bytes} (ht : NoCrlf t) :
    parse H env w (unsplit (h.reqLine :: (h.headers.take k).map headerText) t)
      = ⟨h.after H w (h.headers.take k),
          (unsplit (h.reqLine :: (h.headers.take k).map headerText) []).length - 2, false,
          [(0, h.reqLine)], []⟩ := by
  have hhead := parseLines_head hH hacc hw (h.headers.take k) [] t
  rw [List.append_nil] at hhead
  rw [parse_eq_parseLines hw.status (Or.inl rfl) (unsplit_ne_nil _ _ _), h.splitCrlf_part k ht, hhead]
  rfl

theorem ReqHead.bytes_eq (h : ReqHead) (rest : Bytes) :
    h.bytes ++ rest = unsplit (h.lines ++ [[]]) rest :=
  (unsplit_tail _ _).symm

theorem ReqHead.bytes_lines (h : ReqHead) : h.bytes = unsplit h.lines [] ++ crlf := by
  unfold ReqHead.bytes
  rw [unsplit_append, unsplit_tail]
  rfl

theorem ReqHead.length_bytes (h : ReqHead) :
    h.bytes.length = (unsplit h.lines []).length + 2 := by
  rw [h.bytes_lines, List.length_append]
  rfl

/-- The request line and the blank line have four bytes of line ends. -/
theorem ReqHead.four_le_length (h : ReqHead) : 4 ≤ h.bytes.length := by
  have hlines : (unsplit h.lines []).length
      = h.reqLine.length + 2 + (unsplit h.headerLines []).length := length_unsplit_cons ..
  rw [h.length_bytes, hlines]
  omega

theorem ReqHead.bytes_reqLine (h : ReqHead) :
    h.bytes = h.reqLine ++ crlf ++ unsplit (h.headerLines ++ [[]]) [] := by
  show unsplit (h.reqLine :: (h.headerLines ++ [[]])) [] = _
  exact unsplit_cons ..

theorem ReqHead.reqLine_le_bytes (h : ReqHead) : h.reqLine.length + 2 ≤ h.bytes.length := by
  rw [h.bytes_reqLine, List.length_append, List.length_append]
  exact Nat.le_add_right _ _

/-- The beginning of a head, up to its first line end. -/
theorem ReqHead.noCrlf_before_reqLine (h : ReqHead) {b rest after : Bytes}
    (hb : b ++ rest = h.bytes ++ after) (hlen : b.length < h.reqLine.length + 2) : NoCrlf b := by
  rw [h.bytes_reqLine, List.append_assoc (h.reqLine ++ crlf)] at hb
  rcases List.append_eq_append_iff.1 hb with ⟨u, hl, -⟩ | ⟨b', rfl, -⟩
  · refine h.reqLine_noCrlf.of_unfinished hl.symm ?_
    rintro rfl
    rw [List.append_nil] at hl
    rw [← hl, List.length_append] at hlen
    exact Nat.lt_irrefl _ hlen
  · rw [List.length_append, List.length_append] at hlen
    exact absurd hlen (Nat.not_lt.2 (Nat.le_add_right _ _))

/-- A head cut after its request line: some header lines are complete, and a header line or only the
    blank line is still to come. -/
theorem ReqHead.cut_after_reqLine (h : ReqHead) {b rest : Bytes} (hb : b ++ rest = h.bytes)
    (hrest : rest ≠ []) (hlen : h.reqLine.length + 2 ≤ b.length) :
    ∃ k t, NoCrlf t ∧ b = unsplit (h.reqLine :: (h.headers.take k).map headerText) t ∧
      ((k < h.headers.length ∧ 2 < rest.length) ∨
        (k = h.headers.length ∧ t ++ rest = crlf)) := by
  have hcount : h.headerLines.length = h.headers.length := List.length_map ..
  have hlines : ∀ l ∈ h.headerLines ++ [[]], NoCrlf l := by
    intro l hl
    rcases List.mem_append.1 hl with hmem | hmem
    · exact h.noCrlf_lines l (List.mem_cons_of_mem _ hmem)
    · rw [List.mem_singleton.1 hmem]
      exact noCrlf_nil
  have hcut : b ++ rest = unsplit (h.reqLine :: (h.headerLines ++ [[]])) [] := hb
  obtain ⟨k, hk, t, u, rfl, htu, hu, hrestEq⟩ := unsplit_cut hcut hrest
  -- `k` lines are there in full, and the request line is one of them
  cases k with
  | zero =>
    have hshort : t.length + u.length = h.reqLine.length + 2 := by
      rw [← List.length_append, htu]
      exact List.length_append
    have hpos : 0 < u.length := List.length_pos_iff.2 hu
    have hb : h.reqLine.length + 2 ≤ t.length := by simpa [unsplit] using hlen
    omega
  | succ k =>
    have hk' : k < (h.headerLines ++ [[]]).length := Nat.lt_of_succ_lt_succ hk
    have ht : NoCrlf t := (hlines _ (List.getElem_mem hk')).of_unfinished htu hu
    have hle : k ≤ h.headerLines.length := by
      rw [List.length_append, List.length_singleton] at hk'
      exact Nat.lt_succ_iff.1 hk'
    refine ⟨k, t, ht, ?_, ?_⟩
    · rw [List.take_succ_cons, List.take_append_of_le_length hle, List.map_take]
      rfl
    · rw [List.drop_succ_cons] at hrestEq
      -- the line that is cut is a header line, or the blank line
      rcases Nat.lt_or_eq_of_le hle with hlt | heq
      · left
        refine ⟨hcount ▸ hlt, ?_⟩
        have hpos : 0 < u.length := List.length_pos_iff.2 hu
        rw [hrestEq, List.drop_append_of_le_length hlt, unsplit_append, unsplit_tail,
          List.length_append, List.length_append]
        show 2 < u.length + (_ + 2)
        omega
      · right
        refine ⟨heq.trans hcount, ?_⟩
        subst heq
        have hnone : (h.headerLines ++ [[]]).drop (h.headerLines.length + 1) = [] := by simp
        have hblank : t ++ u = crlf := by simpa using htu
        rw [hrestEq, hnone, ← hblank]
        simp [unsplit]

/-- More than the blank line is missing of a head: a line end is. -/
theorem ReqHead.not_noCrlf_rest (h : ReqHead) {b rest : Bytes} (hb : b ++ rest = h.bytes)
    (hlong : 2 < rest.length) : ¬ NoCrlf rest := by
  rw [h.bytes_lines] at hb
  rcases List.append_eq_append_iff.1 hb with ⟨front, -, hrest⟩ | ⟨u, -, hcrlf⟩
  · rw [hrest]
    intro hno
    have hend : NoCrlf crlf := hno.append_right
    exact absurd hend (by decide)
  · have hlen := congrArg List.length hcrlf
    rw [List.length_append] at hlen
    have htwo : crlf.length = 2 := rfl
    omega

/-- **A whole head, up to its blank line.** -/
theorem parse_head (hH : H.Lawful) {h : ReqHead} (hacc : h.Accepted env) {w : W}
    (hw : H.Ready w .parseReqLine) (rest : Bytes) :
    parse H env w (h.bytes ++ rest)
      = ParseResult.followedBy ⟨h.after H w h.headers, 0, false, [(0, h.reqLine)], []⟩
          (parseLines H env (h.bytes.length - 4) (h.after H w h.headers) (unsplit h.lines [])
            ([] :: (splitCrlf rest).1) (splitCrlf rest).2) := by
  have hlines : ∀ l ∈ h.lines ++ [[]], NoCrlf l := by
    intro l hl
    rcases List.mem_append.1 hl with hmem | hmem
    · exact h.noCrlf_lines l hmem
    · rw [List.mem_singleton.1 hmem]
      exact noCrlf_nil
  have hne : h.bytes ++ rest ≠ [] := by
    rw [h.bytes_eq]
    exact unsplit_ne_nil _ _ _
  have hhead := parseLines_head hH hacc hw h.headers ([] :: (splitCrlf rest).1) (splitCrlf rest).2
  have hcount : (unsplit h.lines []).length - 2 = h.bytes.length - 4 := by
    rw [h.length_bytes]
    omega
  have hsplit : h.lines ++ [[]] ++ (splitCrlf rest).1
      = h.reqLine :: (h.headers.map headerText ++ [] :: (splitCrlf rest).1) := by
    simp [ReqHead.lines, ReqHead.headerLines]
  rw [parse_eq_parseLines hw.status (Or.inl rfl) hne, h.bytes_eq, splitCrlf_unsplit hlines, hsplit,
    hhead, ← hcount]
  rfl

/-- A call that finds a line end first takes it for the end of the headers. -/
theorem parse_blank {w : W} (hw : H.Ready w .parseHeader) (rest : Bytes) :
    parse H env w (crlf ++ rest)
      = parseLines H env 0 w [] ([] :: (splitCrlf rest).1) (splitCrlf rest).2 := by
  rw [parse_eq_parseLines hw.status (Or.inr rfl) (by simp [crlf])]
  show parseLines H env 0 w [] (splitCrlf (13 :: 10 :: rest)).1 (splitCrlf (13 :: 10 :: rest)).2 = _
  rw [splitCrlf_crlf]

/-! ## The end of the headers -/

/-- What is recorded of an end of headers. -/
def headEnd (H : LineHost W) (w : W) : HeadEnd :=
  ⟨(H.head w).toHeadInfo, (H.head (H.endOfHeaders w).1).status, (H.endOfHeaders w).2⟩

/-- The state an end of headers leads to. -/
def afterHeadEnd (H : LineHost W) (w : W) : W :=
  if (H.endOfHeaders w).2 then H.reset (H.endOfHeaders w).1 else (H.endOfHeaders w).1

theorem afterHeadEnd_eq {w : W} (h : (H.endOfHeaders w).2 = false) :
    afterHeadEnd H w = (H.endOfHeaders w).1 := by
  unfold afterHeadEnd
  rw [h]
  rfl

theorem lineStep_blank {w : W} (hw : H.Ready w .parseHeader) (before : Bytes) :
    lineStep H env w before []
      = ⟨afterHeadEnd H w, if (H.endOfHeaders w).2 then 2 else 4, false, [], [headEnd H w]⟩ := by
  unfold lineStep
  simp only [hw.status]
  unfold headersStep afterHeadEnd headEnd
  simp only [if_true]
  split
  · rfl
  · rfl

/-- Nothing is done to lines that follow a finished head. -/
theorem parseLines_done {w : W} (hcrash : H.crashed w = false)
    (hpause : H.paused w = false) (hbody : (H.head w).status.parsingBody = false)
    (herr : (H.head w).status ≠ .error)
    (hhead : (H.head w).status ≠ .parseReqLine ∧ (H.head w).status ≠ .parseHeader)
    (n : Nat) (before : Bytes) (lines : List Bytes) (tail : Bytes) :
    parseLines H env n w before lines tail = { ParseResult.idle w with used := n } := by
  induction lines generalizing before with
  | nil => rfl
  | cons line lines ih =>
    have hstep : lineStep H env w before line = .idle w := by
      unfold lineStep
      split
      · next hs => exact absurd hs hhead.1
      · next hs => exact absurd hs hhead.2
      · rfl
    rw [parseLines, hstep]
    simp only [ParseResult.idle, hcrash, hpause, hbody, herr, Bool.false_eq_true, if_false]
    rw [Nat.add_zero, ih]
    rfl

/-- After an end of headers that stops the parser, ends the request or leaves it to the handlers, what
    follows in the buffer counts as read and is not looked at. -/
theorem parseLines_rests (hH : H.Lawful) {w : W} (hw : H.Ready w .parseHeader)
    (hthrow : (H.endOfHeaders w).2 = false) (hcrash : H.crashed (H.endOfHeaders w).1 = false)
    (hrests : (H.head (H.endOfHeaders w).1).status = .error ∨ H.paused (H.endOfHeaders w).1 = true ∨
      (H.head (H.endOfHeaders w).1).status.parsingBody = false)
    (n : Nat) (before : Bytes) (lines : List Bytes) (tail : Bytes) :
    parseLines H env n w before ([] :: lines) tail
      = ⟨(H.endOfHeaders w).1, if (H.head (H.endOfHeaders w).1).status = .error then 0 else n + 4,
          false, [], [headEnd H w]⟩ := by
  have hstatus := hH.endOfHeaders_status w hw.status hthrow
  rw [parseLines, lineStep_blank hw, afterHeadEnd_eq hthrow, hthrow]
  simp only [hcrash, Bool.false_eq_true, if_false]
  split
  · rfl
  · next herr =>
    split
    · rfl
    · next hpause =>
      have hbody := (hrests.resolve_left herr).resolve_left hpause
      rw [if_neg (by simp [hbody]), parseLines_done hcrash (by simpa using hpause) hbody herr hstatus]
      rfl

/-- After one that leads to a body, the bytes that follow are the body's. -/
theorem parseLines_body {w : W} (hw : H.Ready w .parseHeader)
    (hthrow : (H.endOfHeaders w).2 = false) (hcrash : H.crashed (H.endOfHeaders w).1 = false)
    (hpause : H.paused (H.endOfHeaders w).1 = false)
    (hbody : (H.head (H.endOfHeaders w).1).status.parsingBody = true)
    (n : Nat) (before : Bytes) (lines : List Bytes) (tail : Bytes) :
    (parseLines H env n w before ([] :: lines) tail).failed = false ∧
      (parseLines H env n w before ([] :: lines) tail).world
        = if unsplit lines tail = [] then (H.endOfHeaders w).1
          else (H.parseBody (H.endOfHeaders w).1 (unsplit lines tail)).1 := by
  have herr : (H.head (H.endOfHeaders w).1).status ≠ .error := by
    intro herr
    rw [herr] at hbody
    exact Bool.noConfusion hbody
  rw [parseLines, lineStep_blank hw, afterHeadEnd_eq hthrow, hthrow]
  simp only [hcrash, hpause, hbody, herr, Bool.false_eq_true, if_false, if_true]
  split
  · exact ⟨rfl, rfl⟩
  · exact ⟨rfl, rfl⟩

/-- The state after an end of headers that throws. -/
theorem afterHeadEnd_ready (hH : H.Lawful) {w : W} (hw : H.Ready w .parseHeader)
    (hthrow : (H.endOfHeaders w).2 = true) :
    H.Ready (afterHeadEnd H w) .parseReqLine ∧
      (H.head (afterHeadEnd H w)).toHeadInfo = { (H.head w).toHeadInfo with hdrs := none } := by
  have hreset : afterHeadEnd H w = H.reset (H.endOfHeaders w).1 := by
    unfold afterHeadEnd
    rw [hthrow]
    rfl
  have hinfo := hH.endOfHeaders_info w
  rw [hreset]
  refine ⟨⟨?_, ?_, hH.paused_reset _⟩, ?_⟩
  · rw [hH.head_reset]
    rfl
  · rw [hH.crashed_reset, hH.endOfHeaders_threw w hthrow]
    exact hw.notCrashed
  · rw [hH.head_reset, ← hinfo]
    rfl

/-- **After an end of headers that throws, the loop goes on with request lines.** -/
theorem parseLines_threw (hH : H.Lawful) {w : W} (hw : H.Ready w .parseHeader)
    (hthrow : (H.endOfHeaders w).2 = true) (n : Nat) (before : Bytes) (lines : List Bytes)
    (tail : Bytes) :
    parseLines H env n w before ([] :: lines) tail
      = ParseResult.followedBy ⟨afterHeadEnd H w, 0, false, [], [headEnd H w]⟩
          (parseLines H env (n + 2) (afterHeadEnd H w) (before ++ crlf) lines tail) := by
  obtain ⟨hready, -⟩ := afterHeadEnd_ready hH hw hthrow
  rw [parseLines_cons (lineStep_blank hw before) hready (Or.inl rfl), hthrow, List.append_nil]
  rfl

/-- An empty request line is an error. -/
theorem lineStep_emptyReqLine {w : W} (hw : H.Ready w .parseReqLine) (before : Bytes) :
    lineStep H env w before []
      = ⟨H.setHead w { H.head w with status := .error }, 0, true, [(before.length, [])], []⟩ := by
  unfold lineStep
  simp only [hw.status]
  rfl

theorem parseLines_emptyReqLine (hH : H.Lawful) {w : W} (hw : H.Ready w .parseReqLine) (n : Nat)
    (before : Bytes) (lines : List Bytes) (tail : Bytes) :
    parseLines H env n w before ([] :: lines) tail
      = ⟨H.setHead w { H.head w with status := .error }, 0, true, [(before.length, [])], []⟩ := by
  rw [parseLines, lineStep_emptyReqLine hw]
  simp only [hH.crashed_setHead, hw.notCrashed, hH.head_setHead, Bool.false_eq_true, if_false,
    if_true]

/-- The first thing that happens to a blank line is recorded first. -/
theorem heads_of_blank {w : W} (hw : H.Ready w .parseHeader) (n : Nat) (before : Bytes)
    (lines : List Bytes) (tail : Bytes) :
    ∃ more, (parseLines H env n w before ([] :: lines) tail).heads = headEnd H w :: more := by
  rw [parseLines, lineStep_blank hw]
  simp only
  split
  · exact ⟨[], rfl⟩
  · split
    · exact ⟨[], rfl⟩
    · split
      · exact ⟨[], rfl⟩
      · split
        · split
          · exact ⟨[], rfl⟩
          · exact ⟨[], rfl⟩
        · exact ⟨_, rfl⟩

/-- A line handed to `parse_req_line` is recorded. -/
theorem reqLines_of_line (env : HeadEnv) {w : W} (hw : H.Ready w .parseReqLine) (n : Nat)
    (before line : Bytes) (lines : List Bytes) (tail : Bytes) :
    (before.length, line) ∈ (parseLines H env n w before (line :: lines) tail).reqLines := by
  have hstep : (lineStep H env w before line).reqLines = [(before.length, line)] := by
    unfold lineStep
    simp only [hw.status]
    unfold reqLineStep
    split
    · rfl
    · rfl
    · rfl
    · rfl
  have hmem : (before.length, line) ∈ (lineStep H env w before line).reqLines := by
    rw [hstep]
    exact List.mem_singleton.2 rfl
  rw [parseLines]
  simp only
  split
  · exact hmem
  · split
    · exact hmem
    · split
      · exact hmem
      · split
        · split
          · exact hmem
          · exact hmem
        · exact List.mem_append_left _ hmem

end Lines

end LibEvmvc
