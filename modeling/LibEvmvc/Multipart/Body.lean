import LibEvmvc.Multipart.Upload

set_option autoImplicit false

/-! # Well-formed multipart bodies

A body is sent as its parts, each after a boundary line: header lines, an empty line, the content.
Read in one piece it gives the parts as they were sent (`feed_body`), except that a form field loses
the line ends in its value. -/

namespace LibEvmvc

/-- A part as it is sent. -/
structure RawPart where
  headers : List Bytes
  content : Bytes

/-- The text of a part, from its first header to the end of its content. -/
def RawPart.text (r : RawPart) : Bytes := unsplit r.headers (crlf ++ r.content)

/-- The parts of a body with boundary `b`, each after a boundary line. -/
def partsText (b : Bytes) (rs : List RawPart) : Bytes :=
  rs.flatMap fun r => (setBoundary b).1 ++ crlf ++ r.text ++ crlf

/-- The text of a body with boundary `b`. -/
def bodyText (b : Bytes) (rs : List RawPart) : Bytes := partsText b rs ++ (setBoundary b).2 ++ crlf

/-- The lines of a text, with what follows the last line end. -/
def allLines (s : Bytes) : List Bytes := (splitCrlf s).1 ++ [(splitCrlf s).2]

/-- The parser takes a line for a boundary line. It looks at the C string only. -/
def IsBoundaryLine (b l : Bytes) : Prop := (setBoundary b).1 = cstr l ∨ (setBoundary b).2 = cstr l

instance (b l : Bytes) : Decidable (IsBoundaryLine b l) :=
  inferInstanceAs (Decidable ((setBoundary b).1 = cstr l ∨ (setBoundary b).2 = cstr l))

/-- A boundary that the lines of a body can hold. -/
structure PlainBoundary (b : Bytes) : Prop where
  noCrlf : NoCrlf b
  noNul : 0 ∉ b

/-- A part whose headers are header lines and whose content holds no boundary line. -/
structure RawPart.Plain (b : Bytes) (r : RawPart) : Prop where
  headers : ∀ h ∈ r.headers, NoCrlf h ∧ 58 ∈ cstr h
  content : ∀ l ∈ allLines r.content, ¬ IsBoundaryLine b l

/-! ## Lines of a text -/

theorem unsplit_allLines (s rest : Bytes) : unsplit (allLines s) rest = s ++ crlf ++ rest := by
  have hs := unsplit_splitCrlf s
  rw [unsplit_tail] at hs
  rw [allLines, unsplit_append, unsplit_cons, unsplit_tail]
  simp only [unsplit, List.flatMap_nil, List.nil_append, List.append_nil] at hs ⊢
  rw [← List.append_assoc, ← List.append_assoc, hs, List.append_assoc]

theorem noCrlf_of_mem_allLines {s l : Bytes} (hl : l ∈ allLines s) : NoCrlf l := by
  rcases List.mem_append.1 hl with hl | hl
  · exact noCrlf_of_mem_splitCrlf s l hl
  · rw [List.mem_singleton.1 hl]
    exact noCrlf_splitCrlf s

theorem mem_of_mem_allLines {s l : Bytes} (hl : l ∈ allLines s) {c : UInt8} (hc : c ∈ l) : c ∈ s := by
  rw [← unsplit_splitCrlf s, unsplit]
  rcases List.mem_append.1 hl with hl | hl
  · exact List.mem_append_left _ (List.mem_flatMap.2 ⟨l, hl, List.mem_append_left _ hc⟩)
  · rw [List.mem_singleton.1 hl] at hc
    exact List.mem_append_right _ hc

theorem allLines_ne_nil (s : Bytes) : allLines s ≠ [] := by simp [allLines]

/-- A text is its lines with the line ends between them. -/
theorem intercalate_allLines (s : Bytes) : crlf.intercalate (allLines s) = s := by
  have hjoin : ∀ (ls : List Bytes) (t : Bytes), crlf.intercalate (ls ++ [t]) = unsplit ls t := by
    intro ls t
    induction ls with
    | nil => simp [unsplit]
    | cons l ls ih =>
      rw [List.cons_append, List.intercalate_cons_of_ne_nil (by simp), ih, unsplit_cons]
  rw [allLines, hjoin, unsplit_splitCrlf]

/-- The line ends of a text are what its lines do not hold. -/
theorem flatten_allLines {s : Bytes} : (allLines s).flatten = s ↔ NoCrlf s := by
  constructor
  · intro h
    have hlen : ∀ (ls : List Bytes) (t : Bytes),
        (unsplit ls t).length = (ls ++ [t]).flatten.length + 2 * ls.length := by
      intro ls t
      induction ls with
      | nil => simp [unsplit]
      | cons l ls ih =>
        rw [unsplit_cons]
        simp only [List.length_append, ih, List.cons_append, List.flatten_cons, List.length_cons,
          crlf, List.length_nil]
        omega
    have hsplit := hlen (splitCrlf s).1 (splitCrlf s).2
    rw [unsplit_splitCrlf] at hsplit
    have hnil : (splitCrlf s).1 = [] := by
      have hflat : ((splitCrlf s).1 ++ [(splitCrlf s).2]).flatten.length = s.length :=
        congrArg List.length h
      exact List.length_eq_zero_iff.1 (by omega)
    by_contra hno
    obtain ⟨l, ls, hl⟩ := splitCrlf_first hno
    rw [hl] at hnil
    cases hnil
  · intro h
    rw [allLines, splitCrlf_noCrlf h]
    simp

theorem noCrlf_setBoundary {b : Bytes} (h : NoCrlf b) :
    NoCrlf (setBoundary b).1 ∧ NoCrlf (setBoundary b).2 := by
  have hdash : NoCrlf (bytes "--") := by decide
  have hstart : NoCrlf (bytes "--" ++ b) := hdash.append h (.inl (by decide))
  exact ⟨hstart, hstart.append hdash (.inr (by decide))⟩

theorem PlainBoundary.lines {b : Bytes} (h : PlainBoundary b) :
    (NoCrlf (setBoundary b).1 ∧ cstr (setBoundary b).1 = (setBoundary b).1) ∧
      NoCrlf (setBoundary b).2 ∧ cstr (setBoundary b).2 = (setBoundary b).2 := by
  have hnul : 0 ∉ bytes "--" ++ b ++ bytes "--" := by
    simp only [List.mem_append, not_or]
    exact ⟨⟨by decide, h.noNul⟩, by decide⟩
  have hno := noCrlf_setBoundary h.noCrlf
  refine ⟨⟨hno.1, cstr_of_noNul fun hmem => hnul ?_⟩, hno.2, cstr_of_noNul hnul⟩
  exact List.mem_append_left _ hmem

/-! ## Reading a part -/

section Reading

variable (trim : Bytes → Bytes) {b : Bytes} {u : Upload}

/-- What a header line adds to the headers so far. -/
def addPartHeader (hdrs : HeaderMap) (l : Bytes) : HeaderMap :=
  hdrs.set ((cstr l).takeWhile (· ≠ 58)) (((cstr l).dropWhile (· ≠ 58)).drop 1) false

def addPartHeaders (hdrs : HeaderMap) (lines : List Bytes) : HeaderMap := lines.foldl addPartHeader hdrs

/-- A content added to the kind of a part. -/
def withContent (content : Bytes) : MpKind → MpKind
  | .form value => .form (value ++ (allLines content).flatMap cstr)
  | .file filename size appendCrlf written =>
    .file filename size true (written ++ heldBack appendCrlf ++ content)
  | kind => kind

/-- The part its headers announce. -/
def RawPart.announced (trim : Bytes → Bytes) (b : Bytes) (r : RawPart) : Part :=
  Upload.announced trim b (addPartHeaders (.empty _ _) r.headers)

/-- A part as it is received. -/
def RawPart.received (trim : Bytes → Bytes) (b : Bytes) (r : RawPart) : Part :=
  { r.announced trim b with kind := withContent r.content (r.announced trim b).kind }

theorem reader_running (hopen : u.completed = false) (hstage : u.stage ≠ .failed) :
    (Upload.reader trim b).halted u = false := by
  unfold Upload.reader
  cases hs : u.stage <;> simp_all

/-- The header lines of a part. -/
theorem feed_headers (hopen : u.completed = false) (hstage : u.stage = .headers) {hs : List Bytes}
    (hhs : ∀ h ∈ hs, NoCrlf h ∧ 58 ∈ cstr h) (rest : Bytes) :
    (Upload.reader trim b).feed u (unsplit hs rest)
      = (Upload.reader trim b).feed { u with headers := addPartHeaders u.headers hs } rest := by
  induction hs generalizing u with
  | nil => rfl
  | cons h hs ih =>
    obtain ⟨hno, hcolon⟩ := hhs h List.mem_cons_self
    have hne : h ≠ [] := by
      rintro rfl
      simp [cstr] at hcolon
    have hline : (Upload.reader trim b).line u h
        = { u with headers := addPartHeader u.headers h } := by
      show Upload.line trim b u h = _
      unfold Upload.line
      simp only [hstage, if_neg hne, Upload.headerLine, if_pos hcolon, addPartHeader]
    have htext : unsplit (h :: hs) rest = h ++ 13 :: 10 :: unsplit hs rest := by
      rw [unsplit_cons]
      simp [crlf]
    have hrun := reader_running trim (b := b) hopen (by simp [hstage])
    rw [htext, (Upload.reader trim b).feed_line hrun hno, hline]
    exact ih hopen hstage fun h' hmem => hhs h' (List.mem_cons_of_mem _ hmem)

/-- A content line that is no boundary line. -/
theorem line_content (hstage : u.stage = .content) {kind : MpKind} {l : Bytes}
    (hkind : Upload.addLine l u.lastKind = some kind) (hl : ¬ IsBoundaryLine b l) :
    (Upload.reader trim b).line u l = u.setLast kind := by
  show Upload.line trim b u l = _
  obtain ⟨hstart, hend⟩ := not_or.1 hl
  unfold Upload.line
  rw [hstage]
  simp only [Upload.contentLine, hkind, if_neg hstart, if_neg hend]

theorem noLine_completed (u : Upload) (buf : Bytes) : (u.noLine buf).1.completed = u.completed := by
  unfold Upload.noLine
  split
  · rfl
  · split
    · split <;> rfl
    · rfl
    · rfl

@[simp] theorem setLast_stage (u : Upload) (k : MpKind) : (u.setLast k).stage = u.stage := rfl

@[simp] theorem setLast_completed (u : Upload) (k : MpKind) :
    (u.setLast k).completed = u.completed := rfl

theorem setLast_setLast (u : Upload) (k k' : MpKind) : (u.setLast k).setLast k' = u.setLast k' := by
  unfold Upload.setLast
  rcases List.eq_nil_or_concat' u.parts with hnil | ⟨ps, q, hps⟩
  · simp [hnil]
  · simp [hps]

theorem lastKind_setLast (hparts : u.parts ≠ []) (k : MpKind) : (u.setLast k).lastKind = k := by
  obtain ⟨ps, q, hps⟩ := (List.eq_nil_or_concat' u.parts).resolve_left hparts
  simp [Upload.lastKind, Upload.setLast, hps]

theorem setLast_lastKind (hparts : u.parts ≠ []) : u.setLast u.lastKind = u := by
  obtain ⟨ps, q, hps⟩ := (List.eq_nil_or_concat' u.parts).resolve_left hparts
  obtain ⟨parts, headers, stage, completed, error⟩ := u
  obtain rfl : parts = ps ++ [q] := hps
  simp [Upload.lastKind, Upload.setLast]

/-- What lines make of the kind of a part. -/
def addLines (kind : MpKind) (ls : List Bytes) : Option MpKind :=
  ls.foldlM (fun k l => Upload.addLine l k) kind

theorem addLines_form (value : Bytes) (ls : List Bytes) :
    addLines (.form value) ls = some (.form (value ++ ls.flatMap cstr)) := by
  induction ls generalizing value with
  | nil => simp [addLines]
  | cons l ls ih =>
    have hnext := ih (value ++ cstr l)
    rw [addLines, List.foldlM_cons]
    simpa [addLines, Upload.addLine] using hnext

theorem addLines_file (filename : Bytes) (size : Nat) (appendCrlf : Bool) (written : Bytes)
    {ls : List Bytes} (hls : ls ≠ []) :
    addLines (.file filename size appendCrlf written) ls
      = some (.file filename size true (written ++ heldBack appendCrlf ++ crlf.intercalate ls)) := by
  induction ls generalizing appendCrlf written with
  | nil => exact absurd rfl hls
  | cons l ls ih =>
    rw [addLines, List.foldlM_cons]
    by_cases hnil : ls = []
    · subst hnil
      simp [Upload.addLine]
    · have hnext := ih true (written ++ heldBack appendCrlf ++ l) hnil
      rw [List.intercalate_cons_of_ne_nil hnil]
      simpa [addLines, Upload.addLine, heldBack] using hnext

theorem addLines_allLines {kind : MpKind} (hkind : kind ≠ .unset) (hstage : stageOf kind = .content)
    (content : Bytes) : addLines kind (allLines content) = some (withContent content kind) := by
  cases kind with
  | unset => exact absurd rfl hkind
  | form value => exact addLines_form value _
  | file filename size appendCrlf written =>
    rw [addLines_file filename size appendCrlf written (allLines_ne_nil content),
      intercalate_allLines]
    rfl
  | subcontent ty s e cs => cases hstage

/-- A part with some content can take more lines. -/
theorem addLine_withContent {kind : MpKind} (hkind : kind ≠ .unset) (hstage : stageOf kind = .content)
    (content l : Bytes) : Upload.addLine l (withContent content kind) ≠ none := by
  cases kind with
  | unset => exact absurd rfl hkind
  | form value => simp [withContent, Upload.addLine]
  | file filename size appendCrlf written => simp [withContent, Upload.addLine]
  | subcontent ty s e cs => cases hstage

/-- The lines of a content, up to the line end before the next boundary line. -/
theorem feed_lines_content (hopen : u.completed = false) (hstage : u.stage = .content)
    (hparts : u.parts ≠ []) {kind kind' : MpKind} {ls : List Bytes}
    (hkind : addLines kind ls = some kind') (hls : ∀ l ∈ ls, NoCrlf l ∧ ¬ IsBoundaryLine b l)
    (rest : Bytes) :
    (Upload.reader trim b).feed (u.setLast kind) (unsplit ls rest)
      = (Upload.reader trim b).feed (u.setLast kind') rest := by
  induction ls generalizing kind with
  | nil =>
    obtain rfl : kind = kind' := Option.some.inj hkind
    rfl
  | cons l ls ih =>
    obtain ⟨hno, hbound⟩ := hls l List.mem_cons_self
    rw [addLines, List.foldlM_cons] at hkind
    obtain ⟨next, hnext, hrest⟩ := Option.bind_eq_some_iff.1 hkind
    have hadd : Upload.addLine l (u.setLast kind).lastKind = some next := by
      rw [lastKind_setLast hparts]
      exact hnext
    have hrun : (Upload.reader trim b).halted (u.setLast kind) = false :=
      reader_running trim hopen fun hfailed => by
        rw [setLast_stage, hstage] at hfailed
        cases hfailed
    have htext : unsplit (l :: ls) rest = l ++ 13 :: 10 :: unsplit ls rest := by
      rw [unsplit_cons]
      simp [crlf]
    have hstage' : (u.setLast kind).stage = .content := hstage
    rw [htext, (Upload.reader trim b).feed_line hrun hno, line_content trim hstage' hadd hbound,
      setLast_setLast]
    exact ih hrest fun l' hl' => hls l' (List.mem_cons_of_mem _ hl')

/-- The kinds of content a part can announce. -/
theorem announced_kind_cases (hdrs : HeaderMap) :
    (∃ ty s e, (Upload.announced trim b hdrs).kind = .subcontent ty s e []) ∨
      (Upload.announced trim b hdrs).kind = .form [] ∨
      ∃ filename, (Upload.announced trim b hdrs).kind = .file filename 0 false [] := by
  unfold Upload.announced
  simp only
  split
  · exact .inl ⟨_, _, _, rfl⟩
  · simp only
    split
    · exact .inr (.inl rfl)
    · exact .inr (.inr ⟨_, rfl⟩)

theorem announced_kind_ne (hdrs : HeaderMap) : (Upload.announced trim b hdrs).kind ≠ .unset := by
  rcases announced_kind_cases trim (b := b) hdrs with ⟨ty, s, e, hkind⟩ | hkind | ⟨f, hkind⟩ <;>
    simp [hkind]

/-- **A part is read with its content**, if it is not a multipart content itself. -/
theorem feed_part (hopen : u.completed = false) (hstage : u.stage = .headers)
    (hheaders : u.headers = .empty _ _) {r : RawPart} (hr : r.Plain b)
    (hkind : stageOf (r.announced trim b).kind = .content) (rest : Bytes) :
    (Upload.reader trim b).feed u (r.text ++ crlf ++ rest) = (Upload.reader trim b).feed
      { u with
        parts := u.parts ++ [r.received trim b]
        headers := addPartHeaders (.empty _ _) r.headers
        stage := .content } rest := by
  let v : Upload := { u with headers := addPartHeaders (.empty _ _) r.headers }
  have htext : r.text ++ crlf ++ rest
      = unsplit r.headers ([] ++ 13 :: 10 :: unsplit (allLines r.content) rest) := by
    rw [unsplit_allLines, RawPart.text, unsplit_tail, unsplit_tail r.headers ([] ++ _)]
    simp [crlf]
  have hopenPart : (Upload.reader trim b).line v [] = v.openPart trim b := by
    show Upload.line trim b v [] = _
    unfold Upload.line
    simp only [show v.stage = .headers from hstage, if_true]
  have hrunning : (Upload.reader trim b).halted v = false :=
    reader_running trim hopen fun hfailed => by
      rw [show v.stage = .headers from hstage] at hfailed
      cases hfailed
  have hparts : (v.openPart trim b).parts ≠ [] := by simp [Upload.openPart]
  have hstage' : (v.openPart trim b).stage = .content := hkind
  have hlast : (v.openPart trim b).lastKind = (r.announced trim b).kind := by
    simp [Upload.openPart, Upload.lastKind]
    rfl
  have hadd : addLines (v.openPart trim b).lastKind (allLines r.content)
      = some (withContent r.content (r.announced trim b).kind) := by
    rw [hlast]
    exact addLines_allLines (announced_kind_ne trim _) hkind r.content
  have hlines : ∀ l ∈ allLines r.content, NoCrlf l ∧ ¬ IsBoundaryLine b l := fun l hl =>
    ⟨noCrlf_of_mem_allLines hl, hr.content l hl⟩
  have hcontent := feed_lines_content trim (u := v.openPart trim b) hopen hstage' hparts hadd hlines
    rest
  have hset : (v.openPart trim b).setLast (withContent r.content (r.announced trim b).kind)
      = { v with parts := u.parts ++ [r.received trim b], stage := .content } := by
    unfold Upload.setLast
    simp only [Upload.openPart, List.dropLast_concat, List.getLast?_concat]
    refine congrArg (fun stage => ({ v with
      parts := u.parts ++ [r.received trim b], stage := stage } : Upload)) hkind
  rw [setLast_lastKind hparts] at hcontent
  rw [htext, feed_headers trim hopen hstage hr.headers, hheaders]
  refine ((Upload.reader trim b).feed_line hrunning noCrlf_nil _).trans ?_
  rw [hopenPart, hcontent, hset]

/-- Where a boundary line can come: at the beginning, or in a content. -/
def AtBoundary (u : Upload) : Prop :=
  u.completed = false ∧ (u.stage = .init ∨ u.stage = .content ∧ ∀ l, Upload.addLine l u.lastKind ≠ none)

theorem AtBoundary.running (h : AtBoundary u) : (Upload.reader trim b).halted u = false :=
  reader_running trim h.1 fun hfailed => by
    rcases h.2 with hstage | ⟨hstage, -⟩ <;>
    · rw [hstage] at hfailed
      cases hfailed

/-- The line before a part. -/
theorem feed_start (hb : PlainBoundary b) (h : AtBoundary u) (rest : Bytes) :
    (Upload.reader trim b).feed u ((setBoundary b).1 ++ crlf ++ rest)
      = (Upload.reader trim b).feed u.nextPart rest := by
  obtain ⟨hno, hcstr⟩ := hb.lines.1
  have hline : (Upload.reader trim b).line u (setBoundary b).1 = u.nextPart := by
    show Upload.line trim b u _ = _
    unfold Upload.line
    rcases h.2 with hstage | ⟨hstage, hadd⟩
    · simp only [hstage, hcstr, if_true]
    · obtain ⟨kind, hkind⟩ := Option.ne_none_iff_exists'.1 (hadd (setBoundary b).1)
      simp only [hstage, Upload.contentLine, hkind, hcstr, if_true]
  have htext : (setBoundary b).1 ++ crlf ++ rest = (setBoundary b).1 ++ 13 :: 10 :: rest := by
    simp [crlf]
  rw [htext, (Upload.reader trim b).feed_line (h.running trim) hno, hline]

/-- The line after the last part. -/
theorem feed_end (hb : PlainBoundary b) (h : AtBoundary u) (hstage : u.stage = .content)
    (rest : Bytes) :
    (Upload.reader trim b).feed u ((setBoundary b).2 ++ crlf ++ rest) = (u.close, rest) := by
  obtain ⟨hno, hcstr⟩ := hb.lines.2
  have hline : (Upload.reader trim b).line u (setBoundary b).2 = u.close := by
    show Upload.line trim b u _ = _
    have hadd := (h.2.resolve_left (by simp [hstage])).2
    obtain ⟨kind, hkind⟩ := Option.ne_none_iff_exists'.1 (hadd (setBoundary b).2)
    unfold Upload.line
    simp only [hstage, Upload.contentLine, hkind, hcstr, if_neg (setBoundary_ne b), if_true]
  have htext : (setBoundary b).2 ++ crlf ++ rest = (setBoundary b).2 ++ 13 :: 10 :: rest := by
    simp [crlf]
  have hhalt : (Upload.reader trim b).halted u.close = true := rfl
  rw [htext, (Upload.reader trim b).feed_line (h.running trim) hno, hline,
    (Upload.reader trim b).feed_halted hhalt]

theorem partsText_cons (r : RawPart) (rs : List RawPart) (rest : Bytes) :
    partsText b (r :: rs) ++ rest
      = (setBoundary b).1 ++ crlf ++ (r.text ++ crlf ++ (partsText b rs ++ rest)) := by
  simp [partsText]

/-- An upload that has been read to its end. -/
def Upload.whole (parts : List Part) : Upload :=
  { parts := parts, headers := .empty _ _, stage := .headers, completed := true, error := none }

/-- After a part has been received, a boundary line can come. -/
theorem AtBoundary.received (hopen : u.completed = false) {r : RawPart}
    (hkind : stageOf (r.announced trim b).kind = .content) (parts : List Part) (hdrs : HeaderMap) :
    AtBoundary { u with
      parts := parts ++ [r.received trim b], headers := hdrs, stage := .content } := by
  refine ⟨hopen, .inr ⟨rfl, ?_⟩⟩
  intro l
  have hlast : Upload.lastKind { u with
      parts := parts ++ [r.received trim b], headers := hdrs, stage := .content }
      = withContent r.content (r.announced trim b).kind := by
    simp [Upload.lastKind, RawPart.received]
  rw [hlast]
  exact addLine_withContent (announced_kind_ne trim _) hkind r.content l

/-- The parts of a body, one after the other. -/
theorem feed_parts (hb : PlainBoundary b) {rs : List RawPart} (hrs : ∀ r ∈ rs, r.Plain b)
    (hkinds : ∀ r ∈ rs, stageOf (r.announced trim b).kind = .content) (h : AtBoundary u)
    (rest : Bytes) :
    ∃ v, (Upload.reader trim b).feed u (partsText b rs ++ rest) = (Upload.reader trim b).feed v rest ∧
      AtBoundary v ∧ v.parts = u.parts ++ rs.map (RawPart.received trim b) ∧ v.error = u.error ∧
      (rs ≠ [] ∨ u.stage = .content → v.stage = .content) := by
  induction rs generalizing u with
  | nil => exact ⟨u, rfl, h, by simp, rfl, fun hor => hor.resolve_left (absurd rfl ·)⟩
  | cons r rs ih =>
    have hkind := hkinds r List.mem_cons_self
    have hpart := feed_part trim (u := u.nextPart) h.1 rfl rfl (hrs r List.mem_cons_self) hkind
      (partsText b rs ++ rest)
    obtain ⟨v, hfeed, hv, hparts, herror, hstage⟩ :=
      ih (fun r' hr' => hrs r' (List.mem_cons_of_mem _ hr'))
        (fun r' hr' => hkinds r' (List.mem_cons_of_mem _ hr'))
        (AtBoundary.received trim (u := u.nextPart) h.1 hkind u.parts
          (addPartHeaders (.empty _ _) r.headers))
    refine ⟨v, ?_, hv, ?_, herror, fun _ => hstage (.inr rfl)⟩
    · rw [partsText_cons, feed_start trim hb h, hpart]
      exact hfeed
    · rw [hparts]
      simp

/-- A well-formed body: it has parts, and none of them is a multipart content itself. -/
structure PlainUpload (trim : Bytes → Bytes) (b : Bytes) (rs : List RawPart) : Prop where
  boundary : PlainBoundary b
  ne_nil : rs ≠ []
  parts : ∀ r ∈ rs, r.Plain b
  kinds : ∀ r ∈ rs, stageOf (r.announced trim b).kind = .content

/-- **A well-formed body read in one piece gives its parts.** -/
theorem feed_body {rs : List RawPart} (h : PlainUpload trim b rs) (epilogue : Bytes) :
    (Upload.reader trim b).feed .fresh (bodyText b rs ++ epilogue)
      = (.whole (rs.map (RawPart.received trim b)), epilogue) := by
  obtain ⟨v, hfeed, hv, hparts, herror, hstage⟩ := feed_parts trim h.boundary h.parts h.kinds
    (u := .fresh) ⟨rfl, .inl rfl⟩ ((setBoundary b).2 ++ crlf ++ epilogue)
  have htext : bodyText b rs ++ epilogue
      = partsText b rs ++ ((setBoundary b).2 ++ crlf ++ epilogue) := by simp [bodyText]
  rw [htext, hfeed, feed_end trim h.boundary hv (hstage (.inl h.ne_nil))]
  obtain ⟨parts, headers, stage, completed, error⟩ := v
  obtain rfl : parts = rs.map (RawPart.received trim b) := hparts
  obtain rfl : error = none := herror
  rfl

end Reading

end LibEvmvc
