import LibEvmvc.Http.ContentType
import LibEvmvc.Multipart.Body

set_option autoImplicit false

/-! # Form fields sent as multipart

The fields of a form, sent in the standard way, are read back by the parser in one call, unless a
value spans several lines: the line ends are lost. A file keeps them. The boundary is read from the
content type, without the blanks around it (`boundary_eq_iff`). -/

namespace LibEvmvc

/-! ## Trimming -/

/-- `md::trim`: only blanks are removed, and no space is left at either end. -/
structure TrimsEnds (trim : Bytes → Bytes) : Prop where
  blanks : TrimsBlanks trim
  ends : ∀ s, (trim s).head? ≠ some 32 ∧ (trim s).getLast? ≠ some 32

/-- There is a blank at neither end. -/
def Unpadded (blank : UInt8 → Bool) (s : Bytes) : Prop :=
  ∀ c, s.head? = some c ∨ s.getLast? = some c → blank c = false

section Trim

variable {trim : Bytes → Bytes} {blank : UInt8 → Bool}

theorem dropWhile_of_unpadded {s : Bytes} (h : Unpadded blank s) : s.dropWhile blank = s := by
  cases s with
  | nil => rfl
  | cons c s => exact List.dropWhile_cons_of_neg (by simp [h c (Or.inl rfl)])

theorem rdropWhile_of_unpadded {s : Bytes} (h : Unpadded blank s) : s.rdropWhile blank = s := by
  rw [List.rdropWhile_eq_self_iff]
  intro hne
  rw [h _ (Or.inr (List.getLast?_eq_some_getLast hne))]
  exact Bool.false_ne_true

theorem unpadded_trim (s : Bytes) : Unpadded blank ((s.dropWhile blank).rdropWhile blank) := by
  rintro c (hhead | hlast)
  · have hfirst : (s.dropWhile blank).head? = some c := by
      obtain ⟨t, ht⟩ := List.rdropWhile_prefix blank (s.dropWhile blank)
      rw [← ht, List.head?_append, hhead]
      rfl
    have hblank := List.head?_dropWhile_not blank s
    rw [hfirst] at hblank
    simpa using hblank
  · have hne : (s.dropWhile blank).rdropWhile blank ≠ [] := by
      rintro hnil
      rw [hnil] at hlast
      cases hlast
    have hblank := List.rdropWhile_last_not blank (s.dropWhile blank) hne
    rw [List.getLast?_eq_some_getLast hne] at hlast
    rw [Option.some.inj hlast] at hblank
    simpa using hblank

/-- What is trimmed is cut at a text that begins and ends with something else, if there is one. -/
theorem rdropWhile_append_of_last {a : Bytes} {z : UInt8} (hz : blank z = false) (s : Bytes) :
    ((a ++ [z]) ++ s).rdropWhile blank = (a ++ [z]) ++ s.rdropWhile blank := by
  induction s using List.reverseRecOn with
  | nil => simp [List.rdropWhile_concat_neg, hz]
  | append_singleton s c ih =>
    rw [← List.append_assoc]
    cases hc : blank c with
    | true => rw [List.rdropWhile_concat_pos _ _ _ hc, List.rdropWhile_concat_pos _ _ _ hc, ih]
    | false =>
      rw [List.rdropWhile_concat_neg _ _ _ (by simp [hc]), List.rdropWhile_concat_neg _ _ _ (by simp [hc]),
        List.append_assoc]

theorem TrimsAll.trimsEnds (h : TrimsAll trim blank) : TrimsEnds trim where
  blanks := h.trimsBlanks
  ends s := by
    have hends := @unpadded_trim blank s
    rw [← h.eq] at hends
    have hspace := h.space
    constructor
    · intro hhead
      rw [hends 32 (Or.inl hhead)] at hspace
      cases hspace
    · intro hlast
      rw [hends 32 (Or.inr hlast)] at hspace
      cases hspace

/-- A text that begins and ends with something else than a blank, after a space or none. -/
theorem TrimsEnds.eq (h : TrimsEnds trim) {l s : Bytes} (hl : l = [] ∨ l = [32]) {a z : UInt8}
    (hhead : s.head? = some a) (ha : isspace a = false) (hlast : s.getLast? = some z)
    (hz : isspace z = false) : trim (l ++ s) = s := by
  obtain ⟨x, y, hxy, hx, hy⟩ := h.blanks (l ++ s)
  have hne : s ≠ [] := by
    rintro rfl
    cases hhead
  have hend : y = [] := by
    rcases List.eq_nil_or_concat' y with hnil | ⟨y', c, rfl⟩
    · exact hnil
    · have hlast' := congrArg List.getLast? hxy
      rw [List.getLast?_append_of_ne_nil _ hne, hlast] at hlast'
      obtain rfl : z = c := by simpa using hlast'
      have hblank := hy z (by simp)
      rw [hz] at hblank
      cases hblank
  subst hend
  rw [List.append_nil] at hxy
  obtain ⟨c, s', rfl⟩ := List.exists_cons_of_ne_nil hne
  obtain rfl : c = a := Option.some.inj hhead
  rcases hl with rfl | rfl
  · cases x with
    | nil => exact hxy.symm
    | cons d x =>
      obtain ⟨rfl, -⟩ := List.cons.inj hxy
      rw [hx c List.mem_cons_self] at ha
      cases ha
  · cases x with
    | nil =>
      have hspace := (h.ends ([32] ++ c :: s')).1
      rw [← (show _ = trim _ from hxy)] at hspace
      exact absurd rfl hspace
    | cons d x =>
      obtain ⟨rfl, hrest⟩ := List.cons.inj hxy
      cases x with
      | nil => exact hrest.symm
      | cons d x =>
        obtain ⟨rfl, -⟩ := List.cons.inj hrest
        rw [hx c (by simp)] at ha
        cases ha

theorem mem_of_mem_trim (h : TrimsBlanks trim) {s : Bytes} {c : UInt8} (hc : c ∈ trim s) : c ∈ s := by
  obtain ⟨x, y, hxy, -, -⟩ := h s
  rw [hxy]
  simp [hc]

end Trim

/-! ## Attributes -/

section Attributes

variable {trim : Bytes → Bytes}

theorem mem_of_mem_splitOn {s piece : Bytes} {sep c : UInt8} (hp : piece ∈ s.splitOn sep)
    (hc : c ∈ piece) : c ∈ s := by
  obtain ⟨before, after, hsplit⟩ := List.append_of_mem hp
  obtain ⟨pre, post, htext, -, -⟩ := place_of_splitOn hsplit
  rw [htext]
  simp [hc]

theorem mem_of_mem_unquote {s : Bytes} {c : UInt8} (hc : c ∈ unquote s) : c ∈ s := by
  have hlast : ∀ t : Bytes, c ∈ (if t.getLast? = some 34 then t.dropLast else t) → c ∈ t := by
    intro t ht
    split at ht
    · exact List.mem_of_mem_dropLast ht
    · exact ht
  have hdrop := hlast _ hc
  split at hdrop
  · exact List.mem_of_mem_drop hdrop
  · exact hdrop

/-- An attribute is a piece of the header's value. -/
theorem mem_of_mem_attribute (htrim : TrimsBlanks trim) {hdrVal key : Bytes} {c : UInt8}
    (hc : c ∈ getHeaderAttribute trim hdrVal key) : c ∈ hdrVal := by
  unfold getHeaderAttribute at hc
  cases hparam : headerParam trim hdrVal key with
  | none =>
    rw [hparam] at hc
    simp at hc
  | some v =>
    rw [hparam] at hc
    have hv : c ∈ v := mem_of_mem_unquote hc
    unfold headerParam at hparam
    obtain ⟨kvs, hkvs, hfound⟩ := List.exists_of_findSome?_eq_some hparam
    obtain ⟨kv, hkv, rfl⟩ := List.mem_map.1 hkvs
    refine mem_of_mem_splitOn hkv (mem_of_mem_trim htrim ?_)
    split at hfound
    · next k v' hpair =>
      split at hfound
      · obtain rfl : trim v' = v := Option.some.inj hfound
        exact mem_of_mem_splitOn (by rw [hpair]; simp) (mem_of_mem_trim htrim hv)
      · cases hfound
    · cases hfound

/-- The value of the header of a form field. -/
def dispositionValue (name : Bytes) : Bytes := bytes " form-data; name=" ++ (34 :: name ++ [34])

/-- The only attribute of the header is the name, in quotes. -/
theorem headerParam_disposition (htrim : TrimsEnds trim) {name : Bytes} (hsemi : 59 ∉ name)
    (heq : 61 ∉ name) (key : Bytes) :
    headerParam trim (dispositionValue name) key
      = if bytes "name" = key then some (34 :: name ++ [34]) else none := by
  have hparts : (dispositionValue name).splitOn 59
      = [bytes " form-data", bytes " name=" ++ (34 :: name ++ [34])] := by
    have htext : dispositionValue name
        = bytes " form-data" ++ 59 :: (bytes " name=" ++ (34 :: name ++ [34])) := by
      simp [dispositionValue, bytes]
    have hfirst : (bytes " form-data").splitOn 59 = [bytes " form-data"] := by decide
    have hsecond : 59 ∉ bytes " name=" ++ (34 :: name ++ [34]) := by
      simp [bytes, hsemi]
    rw [htext, List.splitOn_append_cons_self, hfirst, List.splitOn_eq_singleton hsecond]
    rfl
  have htype : trim (bytes " form-data") = bytes "form-data" :=
    htrim.eq (l := [32]) (.inr rfl) rfl (by decide) rfl (by decide)
  have hlast : ∀ k : Bytes, (k ++ (34 :: name ++ [34])).getLast? = some 34 := by
    intro k
    rw [← List.append_assoc, List.getLast?_concat]
  have hname : trim (bytes " name=" ++ (34 :: name ++ [34]))
      = bytes "name" ++ 61 :: (34 :: name ++ [34]) :=
    htrim.eq (l := [32]) (.inr rfl) rfl (by decide) (hlast (bytes "name=")) (by decide)
  have hkey : trim (bytes "name") = bytes "name" :=
    htrim.eq (l := []) (.inl rfl) rfl (by decide) rfl (by decide)
  have hquoted : trim (34 :: name ++ [34]) = 34 :: name ++ [34] :=
    htrim.eq (l := []) (.inl rfl) rfl (by decide) (hlast []) (by decide)
  have htypeOn : (bytes "form-data").splitOn 61 = [bytes "form-data"] := by decide
  have hnameOn : (bytes "name" ++ 61 :: (34 :: name ++ [34])).splitOn 61
      = [bytes "name", 34 :: name ++ [34]] := by
    have hfirst : (bytes "name").splitOn 61 = [bytes "name"] := by decide
    rw [List.splitOn_append_cons_self, hfirst, List.splitOn_eq_singleton (by simp [heq])]
    rfl
  unfold headerParam
  rw [hparts]
  simp only [List.map_cons, List.map_nil, htype, hname, htypeOn, hnameOn, List.findSome?_cons,
    List.findSome?_nil, hkey, hquoted]
  by_cases hname : bytes "name" = key
  · simp only [if_pos hname]
  · simp only [if_neg hname]

/-- The name of a field is read back. -/
theorem attribute_name (htrim : TrimsEnds trim) {name : Bytes} (hsemi : 59 ∉ name)
    (heq : 61 ∉ name) :
    getHeaderAttribute trim (dispositionValue name) (bytes "name") = name := by
  unfold getHeaderAttribute
  rw [headerParam_disposition htrim hsemi heq, if_pos rfl]
  simp [unquote]

theorem attribute_filename (htrim : TrimsEnds trim) {name : Bytes} (hsemi : 59 ∉ name)
    (heq : 61 ∉ name) :
    getHeaderAttribute trim (dispositionValue name) (bytes "filename") = [] := by
  unfold getHeaderAttribute
  rw [headerParam_disposition htrim hsemi heq, if_neg (by decide)]
  rfl

end Attributes

/-! ## The boundary -/

/-- A boundary that a content type can hold. -/
structure BoundaryOk (b : Bytes) : Prop where
  ne_nil : b ≠ []
  plain : ∀ c ∈ b, c ≠ 13 ∧ c ≠ 10 ∧ c ≠ 59 ∧ c ≠ 61

/-- The content type of a form that is sent with boundary `b`. -/
def formType (b : Bytes) : Bytes := bytes "multipart/form-data; boundary=" ++ b

section Boundary

variable {trim : Bytes → Bytes} {blank : UInt8 → Bool} {b : Bytes}

theorem not_blank (htrim : TrimsAll trim blank) {c : UInt8} (hc : isspace c = false) :
    blank c = false := by
  cases hblank : blank c with
  | false => rfl
  | true =>
    rw [htrim.isspace c hblank] at hc
    cases hc

theorem mpBoundary_formType (htrim : TrimsAll trim blank) (hb : BoundaryOk b) :
    mpBoundary trim (formType b) = trim (b.rdropWhile blank) := by
  have hsemi : 59 ∉ b := fun hc => (hb.plain _ hc).2.2.1 rfl
  have hrest : ∀ c ∈ b.rdropWhile blank, c ∈ b := fun c hc =>
    (List.rdropWhile_prefix blank b).subset hc
  have hparts : (formType b).splitOn 59 = [bytes "multipart/form-data", bytes " boundary=" ++ b] := by
    have htext : formType b = bytes "multipart/form-data" ++ 59 :: (bytes " boundary=" ++ b) := by
      simp [formType, bytes]
    have hfirst : (bytes "multipart/form-data").splitOn 59 = [bytes "multipart/form-data"] := by decide
    have hsecond : 59 ∉ bytes " boundary=" ++ b := by
      simp [bytes, hsemi]
    rw [htext, List.splitOn_append_cons_self, hfirst, List.splitOn_eq_singleton hsecond]
    rfl
  have htype : trim (bytes "multipart/form-data") = bytes "multipart/form-data" :=
    htrim.trimsEnds.eq (l := []) (.inl rfl) rfl (by decide) rfl (by decide)
  have hkey : trim (bytes "boundary") = bytes "boundary" :=
    htrim.trimsEnds.eq (l := []) (.inl rfl) rfl (by decide) rfl (by decide)
  have hparam : trim (bytes " boundary=" ++ b) = bytes "boundary" ++ 61 :: b.rdropWhile blank := by
    have hstart : (bytes " boundary=" ++ b).dropWhile blank = (bytes "boundary" ++ [61]) ++ b := by
      have htext : bytes " boundary=" ++ b = 32 :: 98 :: (bytes "oundary=" ++ b) := by simp [bytes]
      rw [htext, List.dropWhile_cons_of_pos htrim.space,
        List.dropWhile_cons_of_neg (by simp [not_blank htrim (c := 98) (by decide)])]
      simp [bytes]
    rw [htrim.eq, hstart, rdropWhile_append_of_last (not_blank htrim (by decide)), List.append_assoc]
    rfl
  have htypeOn : (bytes "multipart/form-data").splitOn 61 = [bytes "multipart/form-data"] := by decide
  have hparamOn : (bytes "boundary" ++ 61 :: b.rdropWhile blank).splitOn 61
      = [bytes "boundary", b.rdropWhile blank] := by
    have hfirst : (bytes "boundary").splitOn 61 = [bytes "boundary"] := by decide
    have heq : 61 ∉ b.rdropWhile blank := fun hc => (hb.plain _ (hrest _ hc)).2.2.2 rfl
    rw [List.splitOn_append_cons_self, hfirst, List.splitOn_eq_singleton heq]
    rfl
  unfold mpBoundary headerParam
  rw [hparts]
  simp only [List.map_cons, List.map_nil, htype, hparam, htypeOn, hparamOn, List.findSome?_cons, hkey,
    if_true, Option.getD_some]

/-- **The boundary is read as it was sent exactly if there is no blank at either end of it.** -/
theorem boundary_eq_iff (htrim : TrimsAll trim blank) (hb : BoundaryOk b) :
    mpBoundary trim (formType b) = b ↔ Unpadded blank b := by
  rw [mpBoundary_formType htrim hb]
  constructor
  · intro heq
    rw [← heq, htrim.eq]
    exact unpadded_trim _
  · intro hends
    rw [rdropWhile_of_unpadded hends, htrim.eq, dropWhile_of_unpadded hends,
      rdropWhile_of_unpadded hends]

/-- What is read is the boundary without some blanks. -/
theorem boundary_part (htrim : TrimsAll trim blank) (hb : BoundaryOk b) :
    ∃ x y, b = x ++ mpBoundary trim (formType b) ++ y ∧
      (∀ c ∈ x, isspace c = true) ∧ ∀ c ∈ y, isspace c = true := by
  obtain ⟨x, y, hxy, hx, hy⟩ := htrim.trimsBlanks (b.rdropWhile blank)
  refine ⟨x, y ++ b.rtakeWhile blank, ?_, hx, ?_⟩
  · rw [mpBoundary_formType htrim hb, ← List.append_assoc, ← hxy, List.rdropWhile_append_rtakeWhile]
  · intro c hc
    rcases List.mem_append.1 hc with hmem | hmem
    · exact hy c hmem
    · exact htrim.isspace c (List.mem_rtakeWhile_imp hmem)

end Boundary

/-! ## Fields -/

/-- A form field, a name and a value, as a part. -/
def fieldPart (f : Bytes × Bytes) : RawPart where
  headers := [bytes "Content-Disposition:" ++ dispositionValue f.1]
  content := f.2

/-- A field that can be sent with boundary `b`. -/
structure FieldOk (b : Bytes) (f : Bytes × Bytes) : Prop where
  name : ∀ c ∈ f.1, c ≠ 34 ∧ c ≠ 59 ∧ c ≠ 61 ∧ c ≠ 13 ∧ c ≠ 10
  noNul : 0 ∉ f.2
  lines : ∀ l ∈ allLines f.2, l ≠ (setBoundary b).1 ∧ l ≠ (setBoundary b).2

section Fields

variable {trim : Bytes → Bytes} {b : Bytes}

/-- The parser has completed and holds the fields in order. -/
def MpParse.Holds (p : MpParse) (fields : List (Bytes × Bytes)) : Prop :=
  p.completed = true ∧ p.tree.rootContents.map (fun n => (n.name, n.kind))
    = fields.map fun f => (f.1, MpKind.form f.2)

/-- The parser, set up for the content type of the form, holds the fields once it has been given their
    encoding in one call. -/
def Decodes (trim : Bytes → Bytes) (b : Bytes) (fields : List (Bytes × Bytes)) : Prop :=
  let boundary := mpBoundary trim (formType b)
  -- without a boundary `init_multip` leaves the parser in error
  boundary ≠ [] ∧
    (mpCall trim (initMultip boundary, []) (bodyText b (fields.map fieldPart))).1.Holds fields

theorem cstr_fieldHeader (v : Bytes) :
    cstr (bytes "Content-Disposition:" ++ v) = bytes "Content-Disposition:" ++ cstr v := by
  have hprefix : ∀ c ∈ bytes "Content-Disposition:", decide (c ≠ 0) = true :=
    forall_mem_of_all (by decide)
  unfold cstr
  rw [List.takeWhile_append_of_pos hprefix]

/-- The headers of a field: its content disposition, as far as a C string goes. -/
theorem addPartHeaders_field (f : Bytes × Bytes) :
    addPartHeaders (.empty _ _) (fieldPart f).headers
      = (UMap.empty lower (List Bytes)).emplace (bytes "Content-Disposition")
        [cstr (dispositionValue f.1)] := by
  have hcut : bytes "Content-Disposition:" = bytes "Content-Disposition" ++ [58] := by decide
  have hname : ∀ c ∈ bytes "Content-Disposition", decide (c ≠ 58) = true :=
    forall_mem_of_all (by decide)
  show addPartHeader (.empty _ _) _ = _
  unfold addPartHeader
  rw [cstr_fieldHeader, hcut, List.append_assoc, List.takeWhile_append_of_pos hname,
    List.dropWhile_append_of_pos hname]
  simp [HeaderMap.set, UMap.get?_empty]

/-- What a field's header announces. -/
theorem announced_field (f : Bytes × Bytes) :
    (fieldPart f).announced trim b =
      ⟨getHeaderAttribute trim (cstr (dispositionValue f.1)) (bytes "name"), trim defaultMimeType,
        if getHeaderAttribute trim (cstr (dispositionValue f.1)) (bytes "filename") = [] then .form []
        else .file (getHeaderAttribute trim (cstr (dispositionValue f.1)) (bytes "filename")) 0 false
          []⟩ := by
  let hdrs := (UMap.empty lower (List Bytes)).emplace (bytes "Content-Disposition")
    [cstr (dispositionValue f.1)]
  have hct : Upload.header hdrs (bytes "Content-Type") = [] := by
    unfold Upload.header HeaderMap.getFirst
    rw [UMap.get?_emplace, if_neg (by decide)]
    rfl
  have hcd : Upload.header hdrs (bytes "Content-Disposition") = cstr (dispositionValue f.1) := by
    unfold Upload.header HeaderMap.getFirst
    rw [UMap.get?_emplace, if_pos rfl]
    rfl
  have hsub : mpSubType [] = none := by decide
  unfold RawPart.announced Upload.announced
  rw [addPartHeaders_field, hct, hcd]
  simp only [hsub, if_true]

theorem stageOf_field (f : Bytes × Bytes) :
    stageOf ((fieldPart f).announced trim b).kind = .content := by
  rw [announced_field]
  simp only
  split <;> rfl

theorem cstr_disposition {name : Bytes} (h : 0 ∉ name) :
    cstr (dispositionValue name) = dispositionValue name := by
  refine cstr_of_noNul ?_
  have hpre : (0 : UInt8) ∉ bytes " form-data; name=" := by decide
  simp [dispositionValue, hpre, h]

theorem plain_field {f : Bytes × Bytes} (hf : FieldOk b f) : (fieldPart f).Plain b where
  headers := by
    intro h hh
    rw [List.mem_singleton.1 hh]
    constructor
    · refine noCrlf_of_noCr fun c hc => ?_
      have hpre : ∀ c ∈ bytes "Content-Disposition:" ++ bytes " form-data; name=", c ≠ 13 :=
        forall_mem_of_all (by decide)
      rw [dispositionValue, ← List.append_assoc] at hc
      simp only [List.mem_append, List.mem_cons, List.not_mem_nil, or_false] at hc
      rcases hc with hc | (rfl | hc) | rfl
      · exact hpre c (List.mem_append.2 hc)
      · decide
      · exact (hf.name c hc).2.2.2.1
      · decide
    · rw [cstr_fieldHeader]
      exact List.mem_append_left _ (by decide)
  content := by
    intro l hl
    have hnul : 0 ∉ l := fun hmem => hf.noNul (mem_of_mem_allLines hl hmem)
    rw [IsBoundaryLine, cstr_of_noNul hnul, not_or]
    exact ⟨fun h => (hf.lines l hl).1 h.symm, fun h => (hf.lines l hl).2 h.symm⟩

/-- **A field is received as it was sent exactly if its name is a C string and its value is a single
    line.** -/
theorem received_field (htrim : TrimsEnds trim) {f : Bytes × Bytes} (hf : FieldOk b f) :
    (((fieldPart f).received trim b).name = f.1 ∧
        ((fieldPart f).received trim b).kind = .form f.2)
      ↔ 0 ∉ f.1 ∧ NoCrlf f.2 := by
  have hsemi : 59 ∉ f.1 := fun hc => (hf.name _ hc).2.1 rfl
  have heq : 61 ∉ f.1 := fun hc => (hf.name _ hc).2.2.1 rfl
  have hnames : ((fieldPart f).received trim b).name
      = getHeaderAttribute trim (cstr (dispositionValue f.1)) (bytes "name") := by
    rw [RawPart.received, announced_field]
  have hkinds : 0 ∉ f.1 → ((fieldPart f).received trim b).kind
      = .form (allLines f.2).flatten := by
    intro hnul
    have hplain : (allLines f.2).map cstr = allLines f.2 := by
      conv_rhs => rw [← List.map_id (allLines f.2)]
      exact List.map_congr_left fun l hl =>
        cstr_of_noNul fun hmem => hf.noNul (mem_of_mem_allLines hl hmem)
    rw [RawPart.received, announced_field, cstr_disposition hnul, attribute_filename htrim hsemi heq]
    show MpKind.form ([] ++ (allLines f.2).flatMap cstr) = _
    rw [List.nil_append, List.flatMap, hplain]
  constructor
  · rintro ⟨hname, hkind⟩
    have hnul : 0 ∉ f.1 := by
      intro hmem
      rw [← hname, hnames] at hmem
      exact not_mem_cstr _ (mem_of_mem_attribute htrim.blanks hmem)
    rw [hkinds hnul, MpKind.form.injEq] at hkind
    exact ⟨hnul, flatten_allLines.1 hkind⟩
  · rintro ⟨hnul, hline⟩
    rw [hkinds hnul, hnames, cstr_disposition hnul, attribute_name htrim hsemi heq,
      flatten_allLines.2 hline]
    exact ⟨rfl, rfl⟩

/-- A body that does not begin with the boundary line is given up. -/
theorem feed_noStart {l : Bytes} (hl : NoCrlf l) (hne : (setBoundary b).1 ≠ cstr l) (rest : Bytes) :
    ((Upload.reader trim b).feed .fresh (l ++ 13 :: 10 :: rest)).1.completed = false := by
  have hline : (Upload.reader trim b).line .fresh l = Upload.fresh.fail .noBoundary := by
    show Upload.line trim b .fresh l = _
    simp only [Upload.line, Upload.fresh, if_neg hne]
  have hhalt : (Upload.reader trim b).halted (Upload.fresh.fail .noBoundary) = true := rfl
  rw [(Upload.reader trim b).feed_line rfl hl, hline, (Upload.reader trim b).feed_halted hhalt]
  rfl

/-- The first line of a body. -/
def openingLine (b : Bytes) (rs : List RawPart) : Bytes :=
  if rs = [] then (setBoundary b).2 else (setBoundary b).1

/-- A body whose first line is another one is given up. -/
theorem call_noStart {b' : Bytes} (hb : NoCrlf b) {rs : List RawPart}
    (hne : (setBoundary b').1 ≠ cstr (openingLine b rs)) :
    (mpCall trim (initMultip b', []) (bodyText b rs)).1.completed = false := by
  have hno := noCrlf_setBoundary hb
  have hfed : ((Upload.reader trim b').feed .fresh (bodyText b rs)).1.completed = false := by
    cases rs with
    | nil =>
      have htext : bodyText b [] = (setBoundary b).2 ++ 13 :: 10 :: [] := by
        simp [bodyText, partsText, crlf]
      rw [htext]
      exact feed_noStart hno.2 hne []
    | cons r rs =>
      have htext : bodyText b (r :: rs)
          = (setBoundary b).1 ++ 13 :: 10 :: (r.text ++ crlf ++ bodyText b rs) := by
        simp [bodyText, partsText, crlf]
      rw [htext]
      exact feed_noStart hno.1 hne _
  have hcall : Upload.call trim b' (.fresh, []) (bodyText b rs)
      = ((Upload.reader trim b').feed .fresh (bodyText b rs)).1.noLine
        ((Upload.reader trim b').feed .fresh (bodyText b rs)).2 := rfl
  rw [((shows_init b').call trim [] (bodyText b rs)).1.completed, hcall, noLine_completed, hfed]

/-- The first line of a body without parts, or with a NUL in its boundary, is another one. -/
theorem openingLine_hopeless {rs : List RawPart} (hb : NoCrlf b) (h : rs = [] ∨ 0 ∈ b) :
    (setBoundary b).1 ≠ cstr (openingLine b rs) := by
  by_cases hnul : 0 ∈ b
  · intro heq
    have hmem : 0 ∈ (setBoundary b).1 := List.mem_append_right _ hnul
    rw [heq] at hmem
    exact not_mem_cstr _ hmem
  · have hplain : PlainBoundary b := ⟨hb, hnul⟩
    rw [openingLine, if_pos (h.resolve_right hnul), hplain.lines.2.2]
    exact setBoundary_ne b

/-- So it is when the boundary was read without its blanks. -/
theorem openingLine_padded {b' x y : Bytes} (hxy : b = x ++ b' ++ y)
    (hx : ∀ c ∈ x, isspace c = true) (hy : ∀ c ∈ y, isspace c = true) (hne : b' ≠ b)
    (rs : List RawPart) : (setBoundary b').1 ≠ cstr (openingLine b rs) := by
  have hspaces : ∀ t : Bytes, (∀ c ∈ t, isspace c = true) → 0 ∉ t := fun t ht hmem =>
    absurd (ht 0 hmem) (by decide)
  intro heq
  have hnul : 0 ∉ b' := by
    intro hmem
    have hstart : 0 ∈ (setBoundary b').1 := List.mem_append_right _ hmem
    rw [heq] at hstart
    exact not_mem_cstr _ hstart
  have hplain : 0 ∉ b := by
    rw [hxy]
    simp [hspaces x hx, hspaces y hy, hnul]
  have hdash : (0 : UInt8) ∉ bytes "--" := by decide
  have hline : cstr (openingLine b rs) = openingLine b rs := by
    refine cstr_of_noNul ?_
    unfold openingLine setBoundary
    split
    · simp [hdash, hplain]
    · simp [hdash, hplain]
  rw [hline] at heq
  unfold openingLine setBoundary at heq
  split at heq
  · have hlen := congrArg List.length heq
    rw [hxy] at hlen
    simp only [List.length_append] at hlen
    have htwo : (bytes "--").length = 2 := by decide
    omega
  · exact hne (List.append_cancel_left heq)

/-- **A parser with the right boundary holds the fields exactly if there is one, boundary and names hold
    no NUL, and no value holds a line end.** -/
theorem holds_iff (htrim : TrimsEnds trim) (hcrlf : NoCrlf b) (fields : List (Bytes × Bytes))
    (hfields : ∀ f ∈ fields, FieldOk b f) :
    (mpCall trim (initMultip b, []) (bodyText b (fields.map fieldPart))).1.Holds fields
      ↔ fields ≠ [] ∧ 0 ∉ b ∧ ∀ f ∈ fields, 0 ∉ f.1 ∧ NoCrlf f.2 := by
  by_cases hsent : fields ≠ [] ∧ 0 ∉ b
  · obtain ⟨hshows, -⟩ := (shows_init b).call trim [] (bodyText b (fields.map fieldPart))
    have hcall : Upload.call trim b (.fresh, []) (bodyText b (fields.map fieldPart))
        = ((Upload.reader trim b).feed .fresh (bodyText b (fields.map fieldPart))).1.noLine
          ((Upload.reader trim b).feed .fresh (bodyText b (fields.map fieldPart))).2 := rfl
    have hplain : ∀ r ∈ fields.map fieldPart, r.Plain b := by
      rintro r hr
      obtain ⟨f, hf, rfl⟩ := List.mem_map.1 hr
      exact plain_field (hfields f hf)
    have hkinds : ∀ r ∈ fields.map fieldPart, stageOf (r.announced trim b).kind = .content := by
      rintro r hr
      obtain ⟨f, -, rfl⟩ := List.mem_map.1 hr
      exact stageOf_field f
    have hfeed := feed_body trim ⟨⟨hcrlf, hsent.2⟩, by simpa using hsent.1, hplain, hkinds⟩ []
    rw [List.append_nil] at hfeed
    rw [hcall, hfeed] at hshows
    have hholds : (mpCall trim (initMultip b, []) (bodyText b (fields.map fieldPart))).1.Holds fields ↔
        ∀ f ∈ fields, (((fieldPart f).received trim b).name, ((fieldPart f).received trim b).kind)
          = (f.1, MpKind.form f.2) := by
      have hcontents := hshows.rootContents
      have hcompleted := hshows.completed
      unfold MpParse.Holds
      simp only [hcontents, hcompleted, Upload.noLine, Upload.whole, true_or, if_true, List.map_map,
        List.map_inj_left, true_and, Function.comp_apply, Part.node]
    rw [hholds]
    constructor
    · intro hall
      refine ⟨hsent.1, hsent.2, fun f hf => ?_⟩
      have hpair := hall f hf
      rw [Prod.mk.injEq] at hpair
      exact (received_field htrim (hfields f hf)).1 hpair
    · rintro ⟨-, -, hall⟩ f hf
      obtain ⟨hname, hkind⟩ := (received_field htrim (hfields f hf)).2 (hall f hf)
      rw [hname, hkind]
  · have hhope : fields.map fieldPart = [] ∨ 0 ∈ b := by
      by_contra hnot
      rw [not_or] at hnot
      exact hsent ⟨by simpa using hnot.1, hnot.2⟩
    constructor
    · rintro ⟨hcompleted, -⟩
      rw [call_noStart hcrlf (openingLine_hopeless hcrlf hhope)] at hcompleted
      cases hcompleted
    · rintro ⟨hne, hnul, -⟩
      exact absurd ⟨hne, hnul⟩ hsent

/-- **Fields sent in the standard way are read back exactly if there is one, the boundary has no blank at
    its ends, boundary and names hold no NUL, and no value holds a line end.** -/
theorem decodes_iff {blank : UInt8 → Bool} (htrim : TrimsAll trim blank) (hb : BoundaryOk b)
    (fields : List (Bytes × Bytes)) (hfields : ∀ f ∈ fields, FieldOk b f) :
    Decodes trim b fields
      ↔ Unpadded blank b ∧ fields ≠ [] ∧ 0 ∉ b ∧ ∀ f ∈ fields, 0 ∉ f.1 ∧ NoCrlf f.2 := by
  have hcrlf : NoCrlf b := noCrlf_of_noCr fun c hc => (hb.plain c hc).1
  have hread := boundary_eq_iff htrim hb
  unfold Decodes
  by_cases heq : mpBoundary trim (formType b) = b
  · simp only [heq]
    rw [holds_iff htrim.trimsEnds hcrlf fields hfields]
    exact ⟨fun h => ⟨hread.1 heq, h.2⟩, fun h => ⟨hb.ne_nil, h.2⟩⟩
  · -- the parser looks for another boundary than the body has
    obtain ⟨x, y, hxy, hx, hy⟩ := boundary_part htrim hb
    refine iff_of_false ?_ fun h => heq (hread.2 h.1)
    rintro ⟨-, hcompleted, -⟩
    rw [call_noStart hcrlf (openingLine_padded hxy hx hy heq _)] at hcompleted
    cases hcompleted

end Fields

theorem trimsEnds_strip : TrimsEnds strip := trimsAll_strip.trimsEnds

theorem unpadded_single {blank : UInt8 → Bool} {c : UInt8} (hc : blank c = false) :
    Unpadded blank [c] := by
  rintro d (hd | hd)
  · obtain rfl : c = d := by simpa using hd
    exact hc
  · obtain rfl : c = d := by simpa using hd
    exact hc

/-- Two fields, one of them empty. -/
theorem decodes_two : Decodes strip (bytes "b") [(bytes "a", bytes "1"), (bytes "c", [])] := by
  refine (decodes_iff trimsAll_strip ⟨by decide, forall_mem_of_all (by decide)⟩ _ ?_).2
    ⟨unpadded_single (by decide), by decide⟩
  intro f hf
  simp only [List.mem_cons, List.not_mem_nil, or_false] at hf
  rcases hf with rfl | rfl <;> exact ⟨forall_mem_of_all (by decide), by decide, by decide⟩

/-- With a space behind the boundary no body is taken. -/
example : ¬ Decodes strip (bytes "b ") [(bytes "a", bytes "1")] := by
  unfold Decodes MpParse.Holds
  decide

/-- A value of two lines comes back as one. -/
theorem decodes_loses_crlf :
    ¬ ∀ (trim : Bytes → Bytes) (blank : UInt8 → Bool) (b : Bytes) (fields : List (Bytes × Bytes)),
      TrimsAll trim blank → BoundaryOk b → (∀ f ∈ fields, FieldOk b f) → Decodes trim b fields := by
  intro hall
  have hdecodes := hall strip isspace (bytes "b") [(bytes "a", bytes "x" ++ crlf ++ bytes "y")]
    trimsAll_strip ⟨by decide, forall_mem_of_all (by decide)⟩ (by
      intro f hf
      rw [List.mem_singleton.1 hf]
      exact ⟨forall_mem_of_all (by decide), by decide, by decide⟩)
  revert hdecodes
  unfold Decodes MpParse.Holds
  decide

end LibEvmvc
