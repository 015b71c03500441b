import LibEvmvc.Multipart.FormFields
import LibEvmvc.Multipart.FileSizes

set_option autoImplicit false

/-! # Nested multipart contents

A part of type `multipart/mixed`, `alternative` or `digest` has contents of its own, between boundary
lines of its own. The parser enters such a part, but then it still reads headers: the first inner
boundary line is taken for one. Whatever follows, it stays in headers or gives up (`Stuck`), so an
upload with such a part is never received. -/

namespace LibEvmvc

/-- The content type of a nested content with boundary `b`. -/
def NestedType (ct b : Bytes) : Prop :=
  ∃ sub ∈ ["mixed", "alternative", "digest"],
    ct = bytes " multipart/" ++ bytes sub ++ bytes "; boundary=" ++ b

/-- A body with a nested content, of fields, between other parts. -/
structure NestedBody where
  boundary : Bytes
  before : List RawPart
  /-- the header lines of the nested content -/
  headers : List Bytes
  subBoundary : Bytes
  inner : List (Bytes × Bytes)
  after : List RawPart

namespace NestedBody

def text (n : NestedBody) : Bytes :=
  partsText n.boundary n.before ++ ((setBoundary n.boundary).1 ++ crlf ++ unsplit n.headers
    (crlf ++ bodyText n.subBoundary (n.inner.map fieldPart) ++ bodyText n.boundary n.after))

/-- The body is well-formed: the parts before the nested content are plain, and it is the first that
    is a multipart content itself. -/
structure Plain (trim : Bytes → Bytes) (n : NestedBody) : Prop where
  boundary : PlainBoundary n.boundary
  subBoundary : PlainBoundary n.subBoundary
  ne : n.subBoundary ≠ n.boundary
  before : ∀ r ∈ n.before, r.Plain n.boundary
  kinds : ∀ r ∈ n.before, stageOf (r.announced trim n.boundary).kind = .content
  headers : ∀ h ∈ n.headers, NoCrlf h ∧ 58 ∈ cstr h
  type : NestedType (Upload.header (addPartHeaders (.empty _ _) n.headers) (bytes "Content-Type"))
    n.subBoundary
  inner_ne : n.inner ≠ []
  inner : ∀ f ∈ n.inner, FieldOk n.subBoundary f ∧ 0 ∉ f.1 ∧ NoCrlf f.2
  after : ∀ r ∈ n.after, r.Plain n.boundary

/-- The parser has completed the body; among the contents of the root, at its place, is the nested
    one, with exactly the inner fields as contents. -/
def Received (n : NestedBody) (p : MpParse) : Prop :=
  p.stage ≠ .failed ∧ p.completed = true ∧
    p.tree.rootContents.length = n.before.length + 1 + n.after.length ∧
    ∃ node ty s e cs, p.tree.rootContents[n.before.length]? = some node ∧
      node.kind = .subcontent ty s e cs ∧
      cs.map (fun id => ((p.tree.nodes id).name, (p.tree.nodes id).kind))
        = n.inner.map fun f => (f.1, MpKind.form f.2)

end NestedBody

/-! ## In a nested content -/

/-- The reader has entered a nested content: it is in headers, and will be. -/
def Stuck (u : Upload) : Prop :=
  u.completed = false ∧ (u.stage = .failed ∨ u.stage = .headers ∧
    (mpSubType (Upload.header u.headers (bytes "Content-Type"))).isSome)

section Stuck

variable (trim : Bytes → Bytes) {b : Bytes} {u : Upload}

theorem isSome_mpSubType {ct : Bytes} (h : NestedType ct b) : (mpSubType ct).isSome := by
  obtain ⟨sub, hsub, rfl⟩ := h
  have hinfix : bytes "multipart/" ++ bytes sub
      <:+: bytes " multipart/" ++ bytes sub ++ bytes "; boundary=" ++ b :=
    ⟨[32], bytes "; boundary=" ++ b, by simp [bytes]⟩
  unfold mpSubType
  split
  · rfl
  · next hmixed =>
    split
    · rfl
    · next halternative =>
      split
      · rfl
      · next hdigest =>
        simp only [List.mem_cons, List.not_mem_nil, or_false] at hsub
        rcases hsub with rfl | rfl | rfl
        · exact absurd hinfix hmixed
        · exact absurd hinfix halternative
        · exact absurd hinfix hdigest

/-- A blank line enters a nested content. -/
theorem stuck_openPart (hopen : u.completed = false)
    (htype : (mpSubType (Upload.header u.headers (bytes "Content-Type"))).isSome) :
    Stuck (u.openPart trim b) := by
  obtain ⟨ty, hty⟩ := Option.isSome_iff_exists.1 htype
  refine ⟨hopen, .inr ⟨?_, htype⟩⟩
  show stageOf (Upload.announced trim b u.headers).kind = .headers
  unfold Upload.announced
  simp only [hty]
  rfl

/-- **No line leads out of a nested content.** -/
theorem stuck_line (h : Stuck u) (l : Bytes) : Stuck (u.line trim b l) := by
  obtain ⟨hopen, hfailed | ⟨hstage, htype⟩⟩ := h
  · unfold Upload.line
    simp only [hfailed]
    exact ⟨hopen, .inl hfailed⟩
  · unfold Upload.line
    simp only [hstage]
    split
    · exact stuck_openPart trim hopen htype
    · unfold Upload.headerLine
      split
      · exact ⟨hopen, .inr ⟨hstage, header_set_false htype⟩⟩
      · exact ⟨hopen, .inl rfl⟩

end Stuck

/-! ## Bodies with a nested content -/

section Nested

variable (trim : Bytes → Bytes) {n : NestedBody}

/-- A body with a nested content is not completed, nor is anything that begins like it. -/
theorem feed_nested (h : n.Plain trim) :
    ((Upload.reader trim n.boundary).feed .fresh n.text).1.completed = false := by
  let rest := bodyText n.subBoundary (n.inner.map fieldPart) ++ bodyText n.boundary n.after
  obtain ⟨v, hfeed, hv, -, -, -⟩ := feed_parts trim h.boundary h.before h.kinds
    (u := .fresh) ⟨rfl, .inl rfl⟩ ((setBoundary n.boundary).1 ++ crlf ++ unsplit n.headers
      (crlf ++ bodyText n.subBoundary (n.inner.map fieldPart) ++ bodyText n.boundary n.after))
  let w : Upload := { v.nextPart with headers := addPartHeaders (.empty _ _) n.headers }
  have hheaders := feed_headers trim (b := n.boundary) (u := v.nextPart) hv.1 rfl h.headers
    ([] ++ 13 :: 10 :: rest)
  have hrunning : (Upload.reader trim n.boundary).halted w = false :=
    reader_running trim hv.1 (by simp [w, Upload.nextPart])
  have hblank : (Upload.reader trim n.boundary).line w [] = w.openPart trim n.boundary := rfl
  have hstuck : Stuck (w.openPart trim n.boundary) :=
    stuck_openPart trim hv.1 (isSome_mpSubType h.type)
  have htext : crlf ++ bodyText n.subBoundary (n.inner.map fieldPart) ++ bodyText n.boundary n.after
      = [] ++ 13 :: 10 :: rest := by simp [rest, crlf]
  have hend := (Upload.reader trim n.boundary).feed_invariant (I := Stuck)
    (fun s l hs _ => stuck_line trim hs l) hstuck rest
  have hopened : (Upload.reader trim n.boundary).feed w ([] ++ 13 :: 10 :: rest)
      = (Upload.reader trim n.boundary).feed (w.openPart trim n.boundary) rest := by
    rw [(Upload.reader trim n.boundary).feed_line hrunning noCrlf_nil, hblank]
  rw [NestedBody.text, hfeed, feed_start trim h.boundary hv, htext, hheaders]
  exact hopened ▸ hend.1

/-- **An upload with a nested content is never received**: in one call it is not completed, and in
    pieces the nested content gets no contents. -/
theorem nested_not_received (h : n.Plain trim) :
    (mpCall trim (initMultip n.boundary, []) n.text).1.completed = false ∧
      ∀ ds : List Bytes, ds.flatten = n.text →
        ¬ n.Received (mpCalls trim (initMultip n.boundary, []) ds).1 := by
  constructor
  · rw [((shows_init n.boundary).call trim [] n.text).1.completed]
    show (Upload.noLine _ _).1.completed = false
    rw [noLine_completed]
    exact feed_nested trim h
  · rintro ds - ⟨-, -, -, node, ty, s, e, cs, hnode, hkind, hinner⟩
    have hshows := ((shows_init n.boundary).calls trim [] ds).1
    rw [hshows.rootContents] at hnode
    obtain ⟨q, hq, rfl⟩ := List.mem_map.1 (List.mem_of_getElem? hnode)
    have hcs := sizes_zero trim ds q hq
    rw [show q.kind = .subcontent ty s e cs from hkind] at hcs
    rw [show cs = [] from hcs] at hinner
    exact h.inner_ne (List.map_eq_nil_iff.1 hinner.symm)

end Nested

/-- One field in a nested content. -/
def oneNested : NestedBody where
  boundary := bytes "b"
  before := []
  headers := [bytes "Content-Type: multipart/mixed; boundary=c"]
  subBoundary := bytes "c"
  inner := [(bytes "n", bytes "v")]
  after := []

theorem oneNested_plain : oneNested.Plain strip where
  boundary := ⟨by decide, by decide⟩
  subBoundary := ⟨by decide, by decide⟩
  ne := by decide
  before r hr := by cases hr
  kinds r hr := by cases hr
  headers := by decide
  type := ⟨"mixed", by simp, by decide⟩
  inner_ne := by decide
  inner f hf := by
    rw [List.mem_singleton.1 hf]
    exact ⟨⟨forall_mem_of_all (by decide), by decide, by decide⟩, by decide, by decide⟩
  after r hr := by cases hr

theorem nested_not_received_one :
    (mpCall strip (initMultip oneNested.boundary, []) oneNested.text).1.completed = false ∧
      ∀ ds : List Bytes, ds.flatten = oneNested.text →
        ¬ oneNested.Received (mpCalls strip (initMultip oneNested.boundary, []) ds).1 :=
  nested_not_received strip oneNested_plain

/-- The parser gives up at the first inner boundary line. -/
theorem nested_fails :
    ¬ ∀ (trim : Bytes → Bytes) (n : NestedBody), n.Plain trim →
      n.Received (mpCall trim (initMultip n.boundary, []) n.text).1 := by
  intro hall
  have hfailed := (hall strip oneNested oneNested_plain).1
  revert hfailed
  decide

end LibEvmvc
