import LibEvmvc.Multipart.Chunks

set_option autoImplicit false

/-! # The sizes of uploaded files

`multipart_content_file_t` has a size, which a request's files take over and the filter rules test.
No line of a file and no part of one that is written out adds to it: it stays 0, whatever is written
(`sizes_zero`). So the sizes are right exactly if nothing is. -/

namespace LibEvmvc

/-! ## What a step does to the parts -/

section Steps

variable (trim : Bytes → Bytes) {b : Bytes}

/-- A line leaves the parts, adds one, or changes the content of the last one. -/
theorem line_parts (u : Upload) (l : Bytes) :
    (u.line trim b l).parts = u.parts ∨
      (u.line trim b l).parts = u.parts ++ [Upload.announced trim b u.headers] ∨
      ∃ kind, Upload.addLine l u.lastKind = some kind ∧
        (u.line trim b l).parts = (u.setLast kind).parts := by
  unfold Upload.line
  split
  · split <;> exact .inl rfl
  · split
    · exact .inr (.inl rfl)
    · unfold Upload.headerLine
      split <;> exact .inl rfl
  · unfold Upload.contentLine
    split
    · exact .inl rfl
    · next kind hkind =>
      split
      · exact .inl rfl
      · split
        · exact .inl rfl
        · exact .inr (.inr ⟨kind, hkind, rfl⟩)
  · exact .inl rfl

/-- At the end of a call the last part may get what is in the buffer. -/
theorem noLine_parts (u : Upload) (buf : Bytes) :
    (u.noLine buf).1.parts = u.parts ∨
      ∃ filename size appendCrlf written, u.lastKind = .file filename size appendCrlf written ∧
        (u.noLine buf).1.parts
          = (u.setLast (.file filename size false (written ++ heldBack appendCrlf ++ buf))).parts := by
  unfold Upload.noLine
  split
  · exact .inl rfl
  · split
    · next filename size appendCrlf written hkind =>
      split
      · exact .inr ⟨filename, size, appendCrlf, written, hkind, rfl⟩
      · exact .inl rfl
    · exact .inl rfl
    · exact .inl rfl

/-- An invariant of lines and of the ends of calls holds after any calls. -/
theorem calls_invariant {I : Upload → Prop} (hline : ∀ u l, I u → I (u.line trim b l))
    (hend : ∀ u buf, I u → I (u.noLine buf).1) {u : Upload} (hu : I u) (buf : Bytes)
    (ds : List Bytes) : I (Upload.calls trim b (u, buf) ds).1 := by
  induction ds generalizing u buf with
  | nil => exact hu
  | cons d ds ih =>
    have hcall : I (Upload.call trim b (u, buf) d).1 := by
      unfold Upload.call
      split
      · exact hu
      · exact hend _ _ ((Upload.reader trim b).feed_invariant (fun s l hs _ => hline s l hs) hu _)
    rw [Upload.calls]
    split
    · exact hu
    · exact ih hcall _

theorem mem_setLast {u : Upload} {kind : MpKind} {q : Part} (hq : q ∈ (u.setLast kind).parts) :
    q ∈ u.parts ∨ q.kind = kind := by
  rcases List.mem_append.1 hq with hq | hq
  · exact .inl (List.mem_of_mem_dropLast hq)
  · obtain ⟨last, -, rfl⟩ := List.mem_map.1 hq
    exact .inr rfl

end Steps

/-! ## Sizes -/

/-- A kind of content as the parser leaves it: a file without a size, a subcontent without
    contents. -/
def Unsized : MpKind → Prop
  | .file _ size _ _ => size = 0
  | .subcontent _ _ _ cs => cs = []
  | _ => True

section Sizes

variable (trim : Bytes → Bytes) {b : Bytes}

theorem unsized_lastKind {u : Upload} (h : ∀ q ∈ u.parts, Unsized q.kind) : Unsized u.lastKind := by
  unfold Upload.lastKind
  cases hlast : u.parts.getLast? with
  | none => exact trivial
  | some q => exact h q (List.mem_of_getLast? hlast)

theorem unsized_setLast {u : Upload} (h : ∀ q ∈ u.parts, Unsized q.kind) {kind : MpKind}
    (hkind : Unsized kind) : ∀ q ∈ (u.setLast kind).parts, Unsized q.kind := by
  intro q hq
  rcases mem_setLast hq with hq | hq
  · exact h q hq
  · rw [hq]
    exact hkind

theorem unsized_addLine {l : Bytes} {kind kind' : MpKind} (h : Unsized kind)
    (hadd : Upload.addLine l kind = some kind') : Unsized kind' := by
  cases kind with
  | unset => cases hadd
  | form value =>
    cases hadd
    exact trivial
  | file filename size appendCrlf written =>
    cases hadd
    exact h
  | subcontent ty s e cs => cases hadd

/-- **No calls give a file a size.** -/
theorem sizes_zero (ds : List Bytes) :
    ∀ q ∈ (Upload.calls trim b (.fresh, []) ds).1.parts, Unsized q.kind := by
  refine calls_invariant trim (I := fun u => ∀ q ∈ u.parts, Unsized q.kind) ?_ ?_ ?_ [] ds
  · intro u l hu
    rcases line_parts trim (b := b) u l with hparts | hparts | ⟨kind, hkind, hparts⟩
    · rw [hparts]
      exact hu
    · rw [hparts]
      intro q hq
      rcases List.mem_append.1 hq with hq | hq
      · exact hu q hq
      · rw [List.mem_singleton.1 hq]
        rcases announced_kind_cases trim (b := b) u.headers with ⟨ty, s, e, hkind⟩ | hkind |
          ⟨filename, hkind⟩
        · rw [hkind]
          exact rfl
        · rw [hkind]
          exact trivial
        · rw [hkind]
          exact rfl
    · rw [hparts]
      exact unsized_setLast hu (unsized_addLine (unsized_lastKind hu) hkind)
  · intro u buf hu
    rcases noLine_parts u buf with hparts | ⟨filename, size, appendCrlf, written, hkind, hparts⟩
    · rw [hparts]
      exact hu
    · rw [hparts]
      refine unsized_setLast hu ?_
      have hlast := unsized_lastKind hu
      rw [hkind] at hlast
      exact hlast
  · intro q hq
    cases hq

end Sizes

/-! ## Bytes written -/

/-- Some file has been written to. -/
def HasWritten (u : Upload) : Prop := ∃ q ∈ u.parts, ∃ w, q.node.written = some w ∧ w ≠ []

/-- The parser writes out no unfinished line during the calls. -/
def NoFlush (trim : Bytes → Bytes) : MpParse × Bytes → List Bytes → Prop :=
  EachCall trim fun p buf _ => ¬ Flushes p buf

section Written

variable (trim : Bytes → Bytes) {b : Bytes} {u : Upload}

theorem kind_of_written {q : Part} {w : Bytes} (h : q.node.written = some w) :
    ∃ filename size appendCrlf, q.kind = .file filename size appendCrlf w := by
  unfold MpNode.written Part.node at h
  cases hkind : q.kind with
  | file filename size appendCrlf written =>
    simp only [hkind, Option.some.injEq] at h
    exact ⟨filename, size, appendCrlf, by rw [h]⟩
  | unset => simp [hkind] at h
  | form value => simp [hkind] at h
  | subcontent ty s e cs => simp [hkind] at h

/-- A change of the last part that takes nothing away. -/
theorem hasWritten_setLast {kind : MpKind} (h : HasWritten u)
    (hkind : ∀ filename size appendCrlf written,
      u.lastKind = .file filename size appendCrlf written → written ≠ [] →
      ∃ filename' size' appendCrlf' written',
        kind = .file filename' size' appendCrlf' written' ∧ written' ≠ []) :
    HasWritten (u.setLast kind) := by
  obtain ⟨q, hq, w, hw, hne⟩ := h
  obtain ⟨ps, last, hparts⟩ := (List.eq_nil_or_concat' u.parts).resolve_left (List.ne_nil_of_mem hq)
  have hset : (u.setLast kind).parts = ps ++ [{ last with kind := kind }] := by
    simp [Upload.setLast, hparts]
  rw [hparts] at hq
  rcases List.mem_append.1 hq with hq | hq
  · refine ⟨q, ?_, w, hw, hne⟩
    rw [hset]
    exact List.mem_append_left _ hq
  · obtain rfl := List.mem_singleton.1 hq
    obtain ⟨filename, size, appendCrlf, hq⟩ := kind_of_written hw
    have hlast : u.lastKind = .file filename size appendCrlf w := by
      simp [Upload.lastKind, hparts, hq]
    obtain ⟨filename', size', appendCrlf', written', rfl, hne'⟩ := hkind _ _ _ _ hlast hne
    refine ⟨{ q with kind := .file filename' size' appendCrlf' written' }, ?_, written', rfl, hne'⟩
    rw [hset]
    exact List.mem_append_right _ (List.mem_singleton.2 rfl)

/-- What has been written stays. -/
theorem hasWritten_calls (h : HasWritten u) (buf : Bytes) (ds : List Bytes) :
    HasWritten (Upload.calls trim b (u, buf) ds).1 := by
  have hsame : ∀ {u v : Upload}, HasWritten u → v.parts = u.parts → HasWritten v := by
    rintro u v ⟨q, hq, hw⟩ hparts
    exact ⟨q, hparts ▸ hq, hw⟩
  refine calls_invariant trim ?_ ?_ h buf ds
  · intro u l hu
    rcases line_parts trim (b := b) u l with hparts | hparts | ⟨kind, hkind, hparts⟩
    · exact hsame hu hparts
    · obtain ⟨q, hq, hw⟩ := hu
      refine ⟨q, ?_, hw⟩
      rw [hparts]
      exact List.mem_append_left _ hq
    · refine hsame (hasWritten_setLast hu ?_) hparts
      intro filename size appendCrlf written hlast hne
      rw [hlast] at hkind
      cases hkind
      exact ⟨_, _, _, _, rfl, by simp [hne]⟩
  · intro u buf hu
    rcases noLine_parts u buf with hparts | ⟨filename, size, appendCrlf, written, hkind, hparts⟩
    · exact hsame hu hparts
    · refine hsame (hasWritten_setLast hu ?_) hparts
      intro filename' size' appendCrlf' written' hlast hne
      rw [hkind] at hlast
      cases hlast
      exact ⟨_, _, _, _, rfl, by simp [hne]⟩

/-- A line that is written out is written to a file. -/
theorem hasWritten_noLine (hopen : u.completed = false) (hstage : u.stage = .content)
    {filename : Bytes} {size : Nat} {appendCrlf : Bool} {written : Bytes}
    (hkind : u.lastKind = .file filename size appendCrlf written) {buf : Bytes}
    (hlong : maxContentBufLen ≤ buf.length) : HasWritten (u.noLine buf).1 := by
  have hparts : u.parts ≠ [] := parts_ne_nil_of_lastKind (by simp [hkind])
  obtain ⟨ps, q, hps⟩ := (List.eq_nil_or_concat' u.parts).resolve_left hparts
  have hbuf : buf ≠ [] := by
    rintro rfl
    cases hlong
  have hnoLine : u.noLine buf
      = (u.setLast (.file filename size false (written ++ heldBack appendCrlf ++ buf)), []) := by
    unfold Upload.noLine
    rw [if_neg (by simp [hopen, hstage]), hkind]
    exact if_pos hlong
  rw [hnoLine]
  refine ⟨{ q with kind := .file filename size false (written ++ heldBack appendCrlf ++ buf) }, ?_,
    _, rfl, by simp [hbuf]⟩
  simp [Upload.setLast, hps]

/-- If no file has been written to, no line has been written out. -/
theorem noFlush_of_unwritten {p : MpParse} (hshows : Shows b p u) {buf : Bytes} {ds : List Bytes}
    (h : ¬ HasWritten (Upload.calls trim b (u, buf) ds).1) : NoFlush trim (p, buf) ds := by
  induction ds generalizing p u buf with
  | nil => exact trivial
  | cons d ds ih =>
    by_cases hopen : u.completed = true
    · exact .inl (hshows.completed.trans hopen)
    · rw [Upload.calls, if_neg hopen] at h
      obtain ⟨hnext, hbuf⟩ := hshows.call trim buf d
      have hpair : Upload.call trim b (u, buf) d
          = ((Upload.call trim b (u, buf) d).1, (mpCall trim (p, buf) d).2) := by rw [hbuf]
      refine .inr ⟨?_, ih hnext (hpair ▸ h)⟩
      rintro ⟨hopen', hstage', hlong, filename, size, appendCrlf, written, hkind⟩
      obtain ⟨hfeed, hfeedBuf⟩ := hshows.feed trim (buf ++ d)
      rw [hfeed.completed] at hopen'
      rw [hfeed.stage] at hstage'
      rw [(hfeed.lastKind hopen' hstage').1] at hkind
      rw [hfeedBuf] at hlong
      have hstage : ¬ u.stage = .failed := by
        intro hfailed
        have hhalt : (Upload.reader trim b).halted u = true := by simp [Upload.reader, hfailed]
        rw [(Upload.reader trim b).feed_halted hhalt, hfailed] at hstage'
        cases hstage'
      have hcall : Upload.call trim b (u, buf) d
          = ((Upload.reader trim b).feed u (buf ++ d)).1.noLine
            ((Upload.reader trim b).feed u (buf ++ d)).2 := if_neg hstage
      have hwritten : HasWritten (Upload.call trim b (u, buf) d).1 := by
        rw [hcall]
        exact hasWritten_noLine hopen' hstage' hkind hlong
      exact h (hasWritten_calls trim hwritten _ ds)

end Written

/-! ## Right sizes -/

/-- The upload is received, and when its parameters are loaded each file has as its size the number
    of bytes written to its temporary file, which is the length of its content. -/
def SizesRight (p : MpParse) (contents : List Bytes) : Prop :=
  p.completed = true ∧
    (loadMultipartParams p.tree).files.map HttpFile.size = p.tree.filesWritten.map List.length ∧
    (loadMultipartParams p.tree).files.map HttpFile.size = contents.map List.length

section Right

variable (trim : Bytes → Bytes) {b : Bytes} {p : MpParse} {u : Upload}

/-- A part with no size and nothing written has the right size. -/
theorem size_of_unsized {q : Part} (h : Unsized q.kind) :
    q.params.files.map HttpFile.size = q.node.written.toList.map fun _ => 0 := by
  obtain ⟨name, mimeType, kind⟩ := q
  cases kind with
  | unset => rfl
  | form value => rfl
  | file filename size appendCrlf written =>
    obtain rfl : size = 0 := h
    rfl
  | subcontent ty s e cs => rfl

/-- The sizes of the files that the request gets. -/
theorem sizes_loaded (hshows : Shows b p u) (hparts : ∀ q ∈ u.parts, Unsized q.kind) :
    (loadMultipartParams p.tree).files.map HttpFile.size
      = p.tree.filesWritten.map fun _ => 0 := by
  have hleaf : ∀ q ∈ u.parts, q.Leaf := by
    intro q hq ty s e cs hkind
    have hcs := hparts q hq
    rw [hkind] at hcs
    exact hcs
  unfold MpTree.filesWritten
  rw [hshows.loadMultipartParams hleaf, hshows.rootContents, List.filterMap_map,
    List.filterMap_eq_flatMap_toList, List.map_flatMap, List.map_flatMap]
  exact List.flatMap_congr fun q hq => size_of_unsized (hparts q hq)

variable {rs : List RawPart} {ds : List Bytes} {epilogue : Bytes}

/-- **The files of an upload get their right sizes exactly if they are all empty** and no call ends
    in a file with a long unfinished line, which would be written to it. -/
theorem sizesRight_iff (h : PlainUpload trim b rs) (hds : ds.flatten = bodyText b rs ++ epilogue) :
    SizesRight (mpCalls trim (initMultip b, []) ds).1 (fileContents trim b rs)
      ↔ (∀ c ∈ fileContents trim b rs, c = []) ∧ NoFlush trim (initMultip b, []) ds := by
  have hshows := ((shows_init b).calls trim [] ds).1
  have hsizes := sizes_loaded hshows (sizes_zero trim ds)
  unfold SizesRight
  rw [hsizes]
  constructor
  · rintro ⟨-, hwritten, hcontents⟩
    refine ⟨?_, noFlush_of_unwritten trim (shows_init b) ?_⟩
    · intro c hc
      have hlen : c.length ∈ (fileContents trim b rs).map List.length := List.mem_map_of_mem hc
      rw [← hcontents] at hlen
      obtain ⟨-, -, hzero⟩ := List.mem_map.1 hlen
      exact List.length_eq_zero_iff.1 hzero.symm
    · rintro ⟨q, hq, w, hw, hne⟩
      have hmem : w ∈ (mpCalls trim (initMultip b, []) ds).1.tree.filesWritten := by
        unfold MpTree.filesWritten
        rw [hshows.rootContents]
        exact List.mem_filterMap.2 ⟨q.node, List.mem_map_of_mem hq, hw⟩
      have hlen : w.length ∈ (mpCalls trim (initMultip b, []) ds).1.tree.filesWritten.map List.length :=
        List.mem_map_of_mem hmem
      rw [← hwritten] at hlen
      obtain ⟨-, -, hzero⟩ := List.mem_map.1 hlen
      exact hne (List.length_eq_zero_iff.1 hzero.symm)
  · rintro ⟨hempty, hflush⟩
    have hsafe : SafeCalls trim b (initMultip b, []) ds := hflush.imp fun p buf rest hno hyes =>
      absurd hyes hno
    rw [calls_body trim h hds hsafe] at hshows
    have hzero : (fileContents trim b rs).map (fun _ => 0)
        = (fileContents trim b rs).map List.length :=
      List.map_congr_left fun c hc => by rw [hempty c hc]; rfl
    rw [filesWritten_whole trim hshows]
    exact ⟨hshows.completed, hzero, hzero⟩

end Right

/-- An empty file. -/
theorem sizesRight_empty :
    SizesRight
      (mpCalls strip (initMultip (bytes "b"), []) [bodyText (bytes "b") [filePart []]]).1
      (fileContents strip (bytes "b") [filePart []]) := by
  refine (sizesRight_iff strip (plainUpload_file (by decide)) (List.append_nil _)).2
    ⟨by decide, .inr ⟨?_, trivial⟩⟩
  intro hflush
  exact absurd hflush.2.2.1 (by decide)

/-- A file of one byte gets the size 0. -/
theorem sizesRight_fails :
    ¬ ∀ (trim : Bytes → Bytes) (b : Bytes) (rs : List RawPart) (ds : List Bytes) (epilogue : Bytes),
      PlainUpload trim b rs → ds.flatten = bodyText b rs ++ epilogue →
      SizesRight (mpCalls trim (initMultip b, []) ds).1 (fileContents trim b rs) := by
  intro hall
  have hsizes := hall strip (bytes "b") [filePart (bytes "x")]
    [bodyText (bytes "b") [filePart (bytes "x")]] [] (plainUpload_file (by decide)) rfl
  revert hsizes
  unfold SizesRight
  decide

end LibEvmvc
