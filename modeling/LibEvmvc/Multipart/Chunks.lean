import LibEvmvc.Http.ContentType
import LibEvmvc.Multipart.Body

set_option autoImplicit false

/-! # An upload in pieces

A body comes in pieces, one for each call. Between two calls an unfinished line stays in the buffer,
except in a file, where a long one is written out at once; what follows it is then read as a line of
its own. This does no harm if neither the whole line nor what follows is a boundary line
(`feed_flush`), and then the pieces give the same upload as the whole body. -/

namespace LibEvmvc

/-- The text up to the first line end. -/
def firstLine (s : Bytes) : Bytes := (splitCrlf s).1.headD (splitCrlf s).2

theorem firstLine_line {l : Bytes} (hl : NoCrlf l) (rest : Bytes) :
    firstLine (l ++ 13 :: 10 :: rest) = l := by
  unfold firstLine
  rw [splitCrlf_line hl]
  rfl

/-- Where the unfinished line `x` can be written out before the input `rest` is there: neither the
    line as a whole nor what is left of it is a boundary line, and if the cut is in a line end, the
    next line is none either. -/
structure Harmless (b x rest : Bytes) : Prop where
  whole : ¬ IsBoundaryLine b (firstLine (x ++ rest))
  left : ¬ IsBoundaryLine b (firstLine rest)
  next : x.getLast? = some 13 → rest.head? = some 10 → ¬ IsBoundaryLine b (firstLine rest.tail)

section Flush

variable (trim : Bytes → Bytes) {b : Bytes} {u : Upload}

theorem parts_ne_nil_of_lastKind (h : u.lastKind ≠ .unset) : u.parts ≠ [] := by
  intro hnil
  rw [Upload.lastKind, hnil] at h
  exact h rfl

/-- One line of a file. -/
theorem feed_file_line (hopen : u.completed = false) (hstage : u.stage = .content)
    (hparts : u.parts ≠ []) (filename : Bytes) (size : Nat) (appendCrlf : Bool) (written : Bytes)
    {l : Bytes} (hno : NoCrlf l) (hl : ¬ IsBoundaryLine b l) (rest : Bytes) :
    (Upload.reader trim b).feed (u.setLast (.file filename size appendCrlf written))
        (l ++ 13 :: 10 :: rest)
      = (Upload.reader trim b).feed
        (u.setLast (.file filename size true (written ++ heldBack appendCrlf ++ l))) rest := by
  have hadd : addLines (.file filename size appendCrlf written) [l]
      = some (.file filename size true (written ++ heldBack appendCrlf ++ l)) := by
    rw [addLines_file _ _ _ _ (by simp)]
    simp
  have htext : l ++ 13 :: 10 :: rest = unsplit [l] rest := by simp [unsplit, crlf]
  rw [htext]
  exact feed_lines_content trim hopen hstage hparts hadd (by simp [hno, hl]) rest

/-- Without a line nothing is completed. -/
theorem not_noCrlf_of_completed (hopen : u.completed = false) {buf : Bytes}
    (hdone : ((Upload.reader trim b).feed u buf).1.completed = true) : ¬ NoCrlf buf := by
  intro hno
  rw [(Upload.reader trim b).feed_noCrlf u hno] at hdone
  exact absurd (hopen.symm.trans hdone) Bool.false_ne_true

theorem exists_line {buf : Bytes} (h : ¬ NoCrlf buf) :
    ∃ l rest, buf = l ++ 13 :: 10 :: rest ∧ NoCrlf l := by
  obtain ⟨n, hn⟩ := Option.ne_none_iff_exists'.1 h
  obtain ⟨l, rest, hbuf, -, hl⟩ := eolAt_some hn
  exact ⟨l, rest, hbuf, hl⟩

/-- **Writing out an unfinished line of a file does no harm** where it is allowed. -/
theorem feed_flush (hopen : u.completed = false) (hstage : u.stage = .content) {filename : Bytes}
    {size : Nat} {appendCrlf : Bool} {written : Bytes}
    (hkind : u.lastKind = .file filename size appendCrlf written) {x rest : Bytes} (hx : NoCrlf x)
    (hsafe : Harmless b x rest)
    (hdone : ((Upload.reader trim b).feed u (x ++ rest)).1.completed = true) :
    (Upload.reader trim b).feed
        (u.setLast (.file filename size false (written ++ heldBack appendCrlf ++ x))) rest
      = (Upload.reader trim b).feed u (x ++ rest) := by
  have hparts : u.parts ≠ [] := parts_ne_nil_of_lastKind (by simp [hkind])
  have hself : u = u.setLast (.file filename size appendCrlf written) := by
    rw [← hkind, setLast_lastKind hparts]
  by_cases hseam : x.getLast? = some 13 ∧ rest.head? = some 10
  · -- the cut is between CR and LF: the file gets them with the next line
    obtain ⟨x', rfl⟩ := List.getLast?_eq_some_iff.1 hseam.1
    obtain ⟨rest', rfl⟩ := List.head?_eq_some_iff.1 hseam.2
    have hx' : NoCrlf x' := hx.append_left
    have htext : x' ++ [13] ++ 10 :: rest' = x' ++ 13 :: 10 :: rest' := by simp
    have hwhole := hsafe.whole
    rw [htext, firstLine_line hx'] at hwhole
    rw [htext, hself, feed_file_line trim hopen hstage hparts _ _ _ _ hx' hwhole] at hdone
    have hopen' : (u.setLast (.file filename size true
        (written ++ heldBack appendCrlf ++ x'))).completed = false := hopen
    obtain ⟨l, rest, rfl, hl⟩ := exists_line (not_noCrlf_of_completed trim hopen' hdone)
    have hnext := hsafe.next hseam.1 hseam.2
    rw [List.tail_cons, firstLine_line hl] at hnext
    have hlf : NoCrlf (10 :: l) := (noCrlf_single 10).append hl (.inl (by simp))
    have hleft := hsafe.left
    have hcut : 10 :: (l ++ 13 :: 10 :: rest) = (10 :: l) ++ 13 :: 10 :: rest := rfl
    rw [hcut, firstLine_line hlf] at hleft
    conv_rhs => rw [htext, hself, feed_file_line trim hopen hstage hparts _ _ _ _ hx' hwhole,
      feed_file_line trim hopen hstage hparts _ _ _ _ hl hnext]
    rw [hcut, feed_file_line trim hopen hstage hparts _ _ _ _ hlf hleft]
    simp [heldBack, crlf]
  · have hline : ¬ NoCrlf rest := by
      intro hno
      refine not_noCrlf_of_completed trim hopen hdone (hx.append hno ?_)
      by_contra hboth
      rw [not_or, not_not, not_not] at hboth
      exact hseam hboth
    obtain ⟨l, rest, rfl, hl⟩ := exists_line hline
    have hxl : NoCrlf (x ++ l) := by
      refine hx.append hl ?_
      by_contra hboth
      rw [not_or, not_not, not_not] at hboth
      refine hseam ⟨hboth.1, ?_⟩
      rw [List.head?_append, hboth.2]
      rfl
    have htext : x ++ (l ++ 13 :: 10 :: rest) = (x ++ l) ++ 13 :: 10 :: rest := by simp
    have hwhole := hsafe.whole
    have hleft := hsafe.left
    rw [htext, firstLine_line hxl] at hwhole
    rw [firstLine_line hl] at hleft
    conv_rhs => rw [htext, hself, feed_file_line trim hopen hstage hparts _ _ _ _ hxl hwhole]
    rw [feed_file_line trim hopen hstage hparts _ _ _ _ hl hleft]
    simp [heldBack]

end Flush

/-! ## Calls -/

/-- The parser writes out the unfinished line in its buffer: it is in a file, and the line is long. -/
def Flushes (p : MpParse) (buf : Bytes) : Prop :=
  p.completed = false ∧ p.stage = .content ∧ maxContentBufLen ≤ buf.length ∧
    ∃ filename size appendCrlf written,
      p.tree.currentNode.kind = .file filename size appendCrlf written

/-- `P` holds at the end of every call, before a line is written out: of the parser, its buffer and
    the input that is still to come. -/
def EachCall (trim : Bytes → Bytes) (P : MpParse → Bytes → Bytes → Prop) :
    MpParse × Bytes → List Bytes → Prop
  | _, [] => True
  | p, d :: ds =>
    p.1.completed = true ∨
      P ((mpReader trim).feed p.1 (p.2 ++ d)).1 ((mpReader trim).feed p.1 (p.2 ++ d)).2 ds.flatten ∧
        EachCall trim P (mpCall trim p d) ds

theorem EachCall.imp {trim : Bytes → Bytes} {P Q : MpParse → Bytes → Bytes → Prop}
    (hPQ : ∀ p buf rest, P p buf rest → Q p buf rest) {p : MpParse × Bytes} {ds : List Bytes}
    (h : EachCall trim P p ds) : EachCall trim Q p ds := by
  induction ds generalizing p with
  | nil => exact trivial
  | cons d ds ih => exact Or.imp_right (fun hcall => ⟨hPQ _ _ _ hcall.1, ih hcall.2⟩) h

/-- Every line that is written out unfinished during the calls can be. -/
def SafeCalls (trim : Bytes → Bytes) (b : Bytes) : MpParse × Bytes → List Bytes → Prop :=
  EachCall trim fun p buf rest => Flushes p buf → Harmless b buf rest

section Calls

variable (trim : Bytes → Bytes) {b : Bytes} {p : MpParse} {u : Upload}

/-- A content of no known kind is never completed. -/
theorem feed_badKind (hopen : u.completed = false) (hstage : u.stage = .content)
    (hkind : ∀ l, Upload.addLine l u.lastKind = none) (buf : Bytes) :
    ((Upload.reader trim b).feed u buf).1.completed = false := by
  by_cases hno : NoCrlf buf
  · rw [(Upload.reader trim b).feed_noCrlf u hno]
    exact hopen
  · obtain ⟨l, rest, rfl, hl⟩ := exists_line hno
    have hrun := reader_running trim (b := b) hopen (by simp [hstage])
    have hline : (Upload.reader trim b).line u l = u.fail .invalidType := by
      show Upload.line trim b u l = _
      simp only [Upload.line, hstage, Upload.contentLine, hkind]
    have hhalt : (Upload.reader trim b).halted (u.fail .invalidType) = true := by
      simp [Upload.reader, Upload.fail]
    rw [(Upload.reader trim b).feed_line hrun hl, hline, (Upload.reader trim b).feed_halted hhalt]
    exact hopen

/-- At the end of a call the buffer can be written out without harm. -/
theorem noLine_harmless {buf rest : Bytes}
    (hbuf : (Upload.reader trim b).halted u = true ∨ NoCrlf buf)
    (hsafe : u.completed = false → u.stage = .content → maxContentBufLen ≤ buf.length →
      (∃ filename size appendCrlf written, u.lastKind = .file filename size appendCrlf written) →
      Harmless b buf rest)
    (hdone : ((Upload.reader trim b).feed u (buf ++ rest)).1.completed = true) :
    (Upload.reader trim b).feed (u.noLine buf).1 ((u.noLine buf).2 ++ rest)
      = (Upload.reader trim b).feed u (buf ++ rest) := by
  unfold Upload.noLine
  split
  · rfl
  · next hactive =>
    rw [not_or, not_not, Bool.not_eq_true] at hactive
    obtain ⟨hopen, hstage⟩ := hactive
    cases hkind : u.lastKind with
    | unset =>
      have hnever := feed_badKind trim (b := b) hopen hstage (by simp [hkind, Upload.addLine])
        (buf ++ rest)
      rw [hnever] at hdone
      cases hdone
    | subcontent ty s e cs =>
      have hnever := feed_badKind trim (b := b) hopen hstage (by simp [hkind, Upload.addLine])
        (buf ++ rest)
      rw [hnever] at hdone
      cases hdone
    | form value => rfl
    | file filename size appendCrlf written =>
      simp only
      split
      · next hlong =>
        have hno : NoCrlf buf := by
          refine hbuf.resolve_left ?_
          rw [reader_running trim hopen (by simp [hstage])]
          exact Bool.false_ne_true
        have hharm := hsafe hopen hstage hlong ⟨_, _, _, _, hkind⟩
        rw [List.nil_append, feed_flush trim hopen hstage hkind hno hharm hdone]
      · rfl

theorem noLine_idle {buf : Bytes} (h : (Upload.reader trim b).feed u buf = (u, buf)) :
    (Upload.reader trim b).feed (u.noLine buf).1 (u.noLine buf).2 = u.noLine buf := by
  have hfail : ∀ e, (Upload.reader trim b).feed (u.fail e) buf = (u.fail e, buf) := by
    intro e
    refine (Upload.reader trim b).feed_halted ?_ buf
    simp [Upload.reader, Upload.fail]
  unfold Upload.noLine
  split
  · exact h
  · split
    · split
      · exact (Upload.reader trim b).feed_noCrlf _ noCrlf_nil
      · exact h
    · exact h
    · exact hfail _

/-- After a call that may write out its line, the rest of the input gives what it gave before. -/
theorem call_harmless (hshows : Shows b p u) (hopen : u.completed = false) {buf d rest : Bytes}
    (hsafe : Flushes ((mpReader trim).feed p (buf ++ d)).1 ((mpReader trim).feed p (buf ++ d)).2 →
      Harmless b ((mpReader trim).feed p (buf ++ d)).2 rest)
    (hdone : ((Upload.reader trim b).feed u (buf ++ (d ++ rest))).1.completed = true) :
    (Upload.reader trim b).feed (Upload.call trim b (u, buf) d).1
        ((Upload.call trim b (u, buf) d).2 ++ rest)
      = (Upload.reader trim b).feed u (buf ++ (d ++ rest)) ∧
    (Upload.reader trim b).feed (Upload.call trim b (u, buf) d).1 (Upload.call trim b (u, buf) d).2
      = Upload.call trim b (u, buf) d := by
  have hwhole : (Upload.reader trim b).feed ((Upload.reader trim b).feed u (buf ++ d)).1
      (((Upload.reader trim b).feed u (buf ++ d)).2 ++ rest)
      = (Upload.reader trim b).feed u (buf ++ (d ++ rest)) := by
    rw [(Upload.reader trim b).feed_feed, List.append_assoc]
  have hstage : ¬ u.stage = .failed := by
    intro hfailed
    have hhalt : (Upload.reader trim b).halted u = true := by simp [Upload.reader, hfailed]
    rw [(Upload.reader trim b).feed_halted hhalt, hopen] at hdone
    cases hdone
  have hcall : Upload.call trim b (u, buf) d
      = ((Upload.reader trim b).feed u (buf ++ d)).1.noLine
        ((Upload.reader trim b).feed u (buf ++ d)).2 := if_neg hstage
  obtain ⟨hfeed, hbuf⟩ := hshows.feed trim (buf ++ d)
  -- the parser and the upload write out the same line
  have hflush : ((Upload.reader trim b).feed u (buf ++ d)).1.completed = false →
      ((Upload.reader trim b).feed u (buf ++ d)).1.stage = .content →
      maxContentBufLen ≤ ((Upload.reader trim b).feed u (buf ++ d)).2.length →
      (∃ filename size appendCrlf written, ((Upload.reader trim b).feed u (buf ++ d)).1.lastKind
        = .file filename size appendCrlf written) →
      Harmless b ((Upload.reader trim b).feed u (buf ++ d)).2 rest := by
    rintro hopen' hstage' hlong ⟨filename, size, appendCrlf, written, hkind⟩
    rw [← (hfeed.lastKind hopen' hstage').1] at hkind
    rw [← hbuf] at hlong ⊢
    exact hsafe ⟨hfeed.completed.trans hopen', hfeed.stage.trans hstage', hlong,
      filename, size, appendCrlf, written, hkind⟩
  rw [hcall]
  refine ⟨?_, noLine_idle trim ((Upload.reader trim b).feed_again u (buf ++ d))⟩
  rw [noLine_harmless trim ((Upload.reader trim b).feed_rest u (buf ++ d)) hflush
    (by rw [hwhole]; exact hdone), hwhole]

/-- **Calls that write out nothing they should not give what one call gives.** -/
theorem calls_eq_feed (hshows : Shows b p u) {buf : Bytes} {ds : List Bytes}
    (hidle : (Upload.reader trim b).feed u buf = (u, buf))
    (hsafe : SafeCalls trim b (p, buf) ds)
    (hdone : ((Upload.reader trim b).feed u (buf ++ ds.flatten)).1.completed = true) :
    (Upload.calls trim b (u, buf) ds).1 = ((Upload.reader trim b).feed u (buf ++ ds.flatten)).1 := by
  induction ds generalizing p u buf with
  | nil =>
    rw [List.flatten_nil, List.append_nil, hidle]
    rfl
  | cons d ds ih =>
    rw [Upload.calls]
    by_cases hopen : u.completed = true
    · have hhalt : (Upload.reader trim b).halted u = true := by simp [Upload.reader, hopen]
      rw [if_pos hopen, (Upload.reader trim b).feed_halted hhalt]
    · rw [if_neg hopen]
      rw [Bool.not_eq_true] at hopen
      obtain ⟨hharmless, hsafe⟩ := hsafe.resolve_left (by simp [hshows.completed, hopen])
      rw [List.flatten_cons] at hdone ⊢
      obtain ⟨hharm, hidle'⟩ := call_harmless trim hshows hopen hharmless hdone
      obtain ⟨hnext, hnextBuf⟩ := hshows.call trim buf d
      have hsafe' : SafeCalls trim b ((mpCall trim (p, buf) d).1, (Upload.call trim b (u, buf) d).2)
          ds := by
        rw [← hnextBuf]
        exact hsafe
      rw [← hharm] at hdone ⊢
      exact ih hnext hidle' hsafe' hdone

/-- What is written to the temporary file of a node. -/
def MpNode.written (n : MpNode) : Option Bytes :=
  match n.kind with
  | .file _ _ _ written => some written
  | _ => none

/-- What is written to the temporary files of an upload, in order. -/
def MpTree.filesWritten (t : MpTree) : List Bytes := t.rootContents.filterMap MpNode.written

/-- The contents of the parts that announce a file, in order. -/
def fileContents (trim : Bytes → Bytes) (b : Bytes) (rs : List RawPart) : List Bytes :=
  rs.filterMap fun r => (r.announced trim b).node.written.map fun _ => r.content

/-- A file is received with its content. -/
theorem written_received (r : RawPart) :
    (r.received trim b).node.written
      = (r.announced trim b).node.written.map fun _ => r.content := by
  have hcases := announced_kind_cases trim (b := b) (addPartHeaders (.empty _ _) r.headers)
  unfold RawPart.received MpNode.written Part.node
  rcases hcases with ⟨ty, s, e, hkind⟩ | hkind | ⟨filename, hkind⟩ <;>
  · have hkind' : (r.announced trim b).kind = _ := hkind
    simp [hkind', withContent, heldBack]

variable {rs : List RawPart} {ds : List Bytes} {epilogue : Bytes}

/-- The upload that the pieces of a body give. -/
theorem calls_body (h : PlainUpload trim b rs) (hds : ds.flatten = bodyText b rs ++ epilogue)
    (hsafe : SafeCalls trim b (initMultip b, []) ds) :
    (Upload.calls trim b (.fresh, []) ds).1 = .whole (rs.map (RawPart.received trim b)) := by
  have hbody := feed_body trim h epilogue
  have hwhole : ((Upload.reader trim b).feed .fresh ([] ++ ds.flatten)).1
      = .whole (rs.map (RawPart.received trim b)) := by
    rw [List.nil_append, hds, hbody]
  rw [calls_eq_feed trim (shows_init b) rfl hsafe (by rw [hwhole]; rfl), hwhole]

/-- The files of an upload that shows a whole body. -/
theorem filesWritten_whole (h : Shows b p (.whole (rs.map (RawPart.received trim b)))) :
    p.tree.filesWritten = fileContents trim b rs := by
  unfold MpTree.filesWritten fileContents
  rw [h.rootContents, Upload.whole, List.map_map, List.filterMap_map]
  exact List.filterMap_congr fun r _ => written_received trim r

/-- **An upload in pieces that write out no line they should not is the upload of the whole body**,
    and its files have the contents that were sent. -/
theorem chunks_same_upload (h : PlainUpload trim b rs)
    (hds : ds.flatten = bodyText b rs ++ epilogue)
    (hsafe : SafeCalls trim b (initMultip b, []) ds) :
    (mpCalls trim (initMultip b, []) ds).1.completed = true ∧
      (mpCalls trim (initMultip b, []) ds).1.tree.rootContents
        = (mpCall trim (initMultip b, []) (bodyText b rs ++ epilogue)).1.tree.rootContents ∧
      (mpCalls trim (initMultip b, []) ds).1.tree.filesWritten = fileContents trim b rs := by
  have hshows := ((shows_init b).calls trim [] ds).1
  have hone := ((shows_init b).call trim [] (bodyText b rs ++ epilogue)).1
  rw [calls_body trim h hds hsafe] at hshows
  have hcall : (Upload.call trim b (.fresh, []) (bodyText b rs ++ epilogue)).1
      = .whole (rs.map (RawPart.received trim b)) := by
    show (((Upload.reader trim b).feed .fresh (bodyText b rs ++ epilogue)).1.noLine _).1 = _
    rw [feed_body trim h epilogue]
    rfl
  rw [hcall] at hone
  exact ⟨hshows.completed, hshows.rootContents.trans hone.rootContents.symm,
    filesWritten_whole trim hshows⟩

end Calls

/-- A file as a part. -/
def filePart (content : Bytes) : RawPart where
  headers := [bytes "Content-Disposition: form-data; name=f; filename=a"]
  content := content

theorem plainUpload_file {content : Bytes}
    (h : ∀ l ∈ allLines content, ¬ IsBoundaryLine (bytes "b") l) :
    PlainUpload strip (bytes "b") [filePart content] := by
  have hheaders : ∀ h ∈ (filePart []).headers, NoCrlf h ∧ 58 ∈ cstr h := by decide
  have hkind : stageOf ((filePart []).announced strip (bytes "b")).kind = .content := by decide
  refine ⟨⟨by decide, by decide⟩, by simp, ?_, ?_⟩
  · intro r hr
    rw [List.mem_singleton.1 hr]
    exact ⟨hheaders, h⟩
  · intro r hr
    rw [List.mem_singleton.1 hr]
    exact hkind

/-- A file of two lines, cut between CR and LF. -/
theorem chunks_same_upload_two :
    (mpCalls strip (initMultip (bytes "b"), [])
        [bytes "--b" ++ crlf ++ unsplit (filePart []).headers crlf ++ bytes "x" ++ [13],
          10 :: bytes "y" ++ crlf ++ bytes "--b--" ++ crlf]).1.completed = true ∧
      (mpCalls strip (initMultip (bytes "b"), [])
        [bytes "--b" ++ crlf ++ unsplit (filePart []).headers crlf ++ bytes "x" ++ [13],
          10 :: bytes "y" ++ crlf ++ bytes "--b--" ++ crlf]).1.tree.rootContents
        = (mpCall strip (initMultip (bytes "b"), [])
          (bodyText (bytes "b") [filePart (bytes "x" ++ crlf ++ bytes "y")] ++ [])).1.tree.rootContents ∧
      (mpCalls strip (initMultip (bytes "b"), [])
        [bytes "--b" ++ crlf ++ unsplit (filePart []).headers crlf ++ bytes "x" ++ [13],
          10 :: bytes "y" ++ crlf ++ bytes "--b--" ++ crlf]).1.tree.filesWritten
        = fileContents strip (bytes "b") [filePart (bytes "x" ++ crlf ++ bytes "y")] := by
  refine chunks_same_upload strip (plainUpload_file (by decide)) (by decide)
    (.inr ⟨?_, .inr ⟨?_, trivial⟩⟩)
  · intro hflush
    exact absurd hflush.2.2.1 (by decide)
  · intro hflush
    exact absurd hflush.2.2.1 (by decide)

/-! ## A line end cut in two -/

/-- The body of a long file up to the line end before its last boundary line, and that line. -/
def cutBody (x : Bytes) : List Bytes :=
  [bytes "--b" ++ crlf ++ unsplit (filePart []).headers crlf ++ (x ++ [13]),
    10 :: (bytes "--b--" ++ crlf)]

theorem cutBody_flatten (x : Bytes) :
    (cutBody x).flatten = bodyText (bytes "b") [filePart x] ++ [] := by
  simp [cutBody, bodyText, partsText, filePart, RawPart.text, unsplit, crlf, setBoundary, bytes]

/-- The upload after the headers of the file. -/
def cutHead : Upload :=
  ((Upload.reader strip (bytes "b")).feed .fresh
    (bytes "--b" ++ crlf ++ unsplit (filePart []).headers crlf)).1

/-- The boundary line after the cut is not seen. -/
theorem cutBody_not_completed {x : Bytes} (hx : ∀ c ∈ x, c ≠ 13)
    (hlen : maxContentBufLen ≤ x.length) :
    (Upload.calls strip (bytes "b") (.fresh, []) (cutBody x)).1.completed = false := by
  have hrest : ((Upload.reader strip (bytes "b")).feed .fresh
      (bytes "--b" ++ crlf ++ unsplit (filePart []).headers crlf)).2 = [] := by decide
  have hkind : cutHead.lastKind = .file (bytes "a") 0 false [] := by decide
  have hopen : cutHead.completed = false := by decide
  have hstage : cutHead.stage = .content := by decide
  have hactive : ¬ (cutHead.completed = true ∨ cutHead.stage ≠ .content) := by simp [hopen, hstage]
  have hparts : cutHead.parts ≠ [] := parts_ne_nil_of_lastKind (by simp [hkind])
  have hno : NoCrlf (x ++ [13]) := (noCrlf_of_noCr hx).append (noCrlf_single 13) (.inr (by simp))
  have hfirst : (Upload.reader strip (bytes "b")).feed .fresh
      (bytes "--b" ++ crlf ++ unsplit (filePart []).headers crlf ++ (x ++ [13]))
      = (cutHead, x ++ [13]) := by
    rw [← (Upload.reader strip (bytes "b")).feed_feed, hrest, List.nil_append]
    exact (Upload.reader strip (bytes "b")).feed_noCrlf _ hno
  have hcall : Upload.call strip (bytes "b") (.fresh, [])
      (bytes "--b" ++ crlf ++ unsplit (filePart []).headers crlf ++ (x ++ [13]))
      = (cutHead.setLast (.file (bytes "a") 0 false (x ++ [13])), []) := by
    show Upload.noLine _ _ = _
    rw [List.nil_append, hfirst]
    unfold Upload.noLine
    rw [if_neg hactive, hkind]
    simp only
    rw [if_pos (by rw [List.length_append]; omega)]
    rfl
  have hsecond : (Upload.reader strip (bytes "b")).feed
      (cutHead.setLast (.file (bytes "a") 0 false (x ++ [13])))
      ((10 :: bytes "--b--") ++ 13 :: 10 :: [])
      = (cutHead.setLast (.file (bytes "a") 0 true
        (x ++ [13] ++ heldBack false ++ 10 :: bytes "--b--")), []) := by
    rw [feed_file_line strip hopen hstage hparts _ _ _ _ (by decide) (by decide)]
    exact (Upload.reader strip (bytes "b")).feed_noCrlf _ noCrlf_nil
  have hlast : Upload.call strip (bytes "b")
      (cutHead.setLast (.file (bytes "a") 0 false (x ++ [13])), []) (10 :: (bytes "--b--" ++ crlf))
      = Upload.noLine (cutHead.setLast (.file (bytes "a") 0 true
        (x ++ [13] ++ heldBack false ++ 10 :: bytes "--b--"))) [] := by
    have hrunning : ¬ (cutHead.setLast (.file (bytes "a") 0 false (x ++ [13]))).stage = .failed := by
      rw [setLast_stage, hstage]
      decide
    unfold Upload.call
    rw [if_neg hrunning, List.nil_append]
    exact congrArg (fun r => Upload.noLine r.1 r.2) hsecond
  have hrun : Upload.calls strip (bytes "b") (.fresh, []) (cutBody x)
      = Upload.noLine (cutHead.setLast (.file (bytes "a") 0 true
        (x ++ [13] ++ heldBack false ++ 10 :: bytes "--b--"))) [] := by
    have hnext : ¬ (cutHead.setLast (.file (bytes "a") 0 false (x ++ [13]))).completed = true := by
      rw [setLast_completed, hopen]
      decide
    rw [cutBody, Upload.calls, if_neg (by decide), hcall, Upload.calls, if_neg hnext, hlast]
    rfl
  rw [hrun, noLine_completed]
  exact hopen

/-- A file of 10240 bytes, cut between CR and LF, is not the upload that was sent. -/
theorem chunks_differ :
    ¬ ∀ (trim : Bytes → Bytes) (b : Bytes) (rs : List RawPart) (ds : List Bytes) (epilogue : Bytes),
      PlainUpload trim b rs → ds.flatten = bodyText b rs ++ epilogue →
      (mpCalls trim (initMultip b, []) ds).1.completed = true ∧
        (mpCalls trim (initMultip b, []) ds).1.tree.rootContents
          = (mpCall trim (initMultip b, []) (bodyText b rs ++ epilogue)).1.tree.rootContents ∧
        (mpCalls trim (initMultip b, []) ds).1.tree.filesWritten = fileContents trim b rs := by
  intro hall
  let x : Bytes := List.replicate maxContentBufLen 120
  have hx : ∀ c ∈ x, c = 120 := fun c hc => List.eq_of_mem_replicate hc
  have hcr : ∀ c ∈ x, c ≠ 13 := by
    intro c hc
    rw [hx c hc]
    decide
  have hupload : PlainUpload strip (bytes "b") [filePart x] := by
    refine plainUpload_file fun l hl => ?_
    have hline : l = x := by
      rw [allLines, splitCrlf_noCrlf (noCrlf_of_noCr hcr)] at hl
      exact List.mem_singleton.1 hl
    subst hline
    have hdash : ∀ t : Bytes, 45 ∈ t → ¬ t = cstr x := by
      rintro t ht rfl
      have hmem := hx 45 ((List.takeWhile_sublist _).subset ht)
      exact absurd hmem (by decide)
    exact not_or.2 ⟨hdash _ (by decide), hdash _ (by decide)⟩
  have hdone := (hall strip (bytes "b") [filePart x] (cutBody x) [] hupload (cutBody_flatten x)).1
  have hshows := ((shows_init (bytes "b")).calls strip [] (cutBody x)).1
  rw [hshows.completed, cutBody_not_completed hcr (by simp [x])] at hdone
  cases hdone

end LibEvmvc
