import LibEvmvc.Connection.Frames
import LibEvmvc.Http.ContentType

set_option autoImplicit false

/-! # Which kind of body a request has

The parser decides how to read a body by the parts of the content type that `;` separates, taken as
they are; a handler asks `request_t`, which cuts at `=` as well and ignores blanks. They agree when
the value spells its type plainly (`PlainForm`). -/

namespace LibEvmvc

open World

variable (env : ConnEnv)

/-- One of the types the parser looks for. -/
def KnownType (seg : Bytes) : Prop :=
  lower seg = enctypeUrlencoded ∨ lower seg = enctypeMultipart ∨ lower seg = enctypeText

/-- The first part of the value that is one of the known types is `name`. -/
def Leads (ct name : Bytes) : Prop :=
  ∃ before seg after, (env.trim ct).splitOn 59 = before ++ seg :: after ∧ lower seg = name ∧
    ∀ s ∈ before, ¬ KnownType s

/-- A form type that is named anywhere in the value is the first type it lists, and stands alone
    between its `;`; a multipart body has a boundary; and a value that ends in `;` does not end in
    the only mention of its type. -/
structure PlainForm (ct : Bytes) : Prop where
  urlencoded : Mentions ct enctypeUrlencoded → Leads env ct enctypeUrlencoded
  multipart : Mentions ct enctypeMultipart →
    Leads env ct enctypeMultipart ∧ getBoundary env ct ≠ []
  urlencoded_end : ct.getLast? = some 59 → Leads env ct enctypeUrlencoded →
    Mentions ct enctypeUrlencoded
  multipart_end : ct.getLast? = some 59 → Leads env ct enctypeMultipart →
    getBoundary env ct ≠ [] → Mentions ct enctypeMultipart

/-! ## The parser's choice -/

/-- The state chosen by one part of the value, if it is a known type. -/
def segState (ct seg : Bytes) : Option ParserState :=
  if lower seg = enctypeUrlencoded then some .parseFormUrlencoded
  else if lower seg = enctypeMultipart then
    some (if getBoundary env ct = [] then .error else .parseFormMultipart)
  else if lower seg = enctypeText then some .parseFormText
  else none

theorem contentState_eq (ct : Bytes) : contentState env ct
    = (((env.trim ct).splitOn 59).findSome? (segState env ct)).getD .parseBody := rfl

theorem segState_none (ct seg : Bytes) : segState env ct seg = none ↔ ¬ KnownType seg := by
  unfold segState KnownType
  split
  · next h => simp [h]
  · split
    · next h => simp [h]
    · split
      · next h => simp [h]
      · next hu hm ht => simp [hu, hm, ht]

theorem segState_urlencoded (ct seg : Bytes) :
    segState env ct seg = some .parseFormUrlencoded ↔ lower seg = enctypeUrlencoded := by
  unfold segState
  split
  · next h => simp [h]
  · next hu =>
    split
    · split <;> simp [hu]
    · split <;> simp [hu]

theorem segState_multipart (ct seg : Bytes) :
    segState env ct seg = some .parseFormMultipart
      ↔ lower seg = enctypeMultipart ∧ getBoundary env ct ≠ [] := by
  have hne : enctypeUrlencoded ≠ enctypeMultipart := by decide
  unfold segState
  split
  · next h => simp [h, hne]
  · split
    · next h => split <;> simp_all
    · next h => split <;> simp [h]

/-- A state other than the plain body's is chosen by the first part that is a known type. -/
theorem contentState_iff (ct : Bytes) {s : ParserState} (hs : s ≠ .parseBody) :
    contentState env ct = s ↔ ∃ before seg after,
      (env.trim ct).splitOn 59 = before ++ seg :: after ∧ segState env ct seg = some s ∧
      ∀ t ∈ before, ¬ KnownType t := by
  have hfind : contentState env ct = s
      ↔ ((env.trim ct).splitOn 59).findSome? (segState env ct) = some s := by
    rw [contentState_eq]
    cases ((env.trim ct).splitOn 59).findSome? (segState env ct) with
    | none => simp [Ne.symm hs]
    | some t => simp
  rw [hfind, List.findSome?_eq_some_iff]
  simp only [segState_none]

theorem contentState_urlencoded (ct : Bytes) :
    contentState env ct = .parseFormUrlencoded ↔ Leads env ct enctypeUrlencoded := by
  rw [contentState_iff env ct (by decide)]
  simp only [segState_urlencoded]
  rfl

theorem contentState_multipart (ct : Bytes) :
    contentState env ct = .parseFormMultipart
      ↔ Leads env ct enctypeMultipart ∧ getBoundary env ct ≠ [] := by
  rw [contentState_iff env ct (by decide)]
  simp only [segState_multipart]
  constructor
  · rintro ⟨before, seg, after, hsplit, ⟨hseg, hbound⟩, hbefore⟩
    exact ⟨⟨before, seg, after, hsplit, hseg, hbefore⟩, hbound⟩
  · rintro ⟨⟨before, seg, after, hsplit, hseg, hbefore⟩, hbound⟩
    exact ⟨before, seg, after, hsplit, ⟨hseg, hbound⟩, hbefore⟩

/-! ## The request's answer -/

/-- **A type that leads the value is mentioned, unless the value ends in `;`.** -/
theorem mentions_of_leads (htrim : TrimsBlanks env.trim) {ct name : Bytes}
    (hend : ct.getLast? ≠ some 59) (h : Leads env ct name) : Mentions ct name := by
  obtain ⟨before, seg, after, hsplit, hseg, -⟩ := h
  obtain ⟨l, r, hct, hl, hr⟩ := htrim ct
  obtain ⟨pre, post, htext, hpre, hpost⟩ := place_of_splitOn hsplit
  -- the blanks `md::trim` took away belong to the piece at the value's ends
  obtain ⟨p, l', hleft, hl', hp⟩ : ∃ p l', l ++ pre = p ++ l' ∧ (∀ c ∈ l', isspace c = true) ∧
      (p = [] ∨ ∃ q s, p = q ++ [s] ∧ s ∈ attrSeps) := by
    rcases hpre with rfl | ⟨q, rfl⟩
    · exact ⟨[], l, by simp, hl, .inl rfl⟩
    · exact ⟨l ++ q ++ [59], [], by simp, by simp, .inr ⟨l ++ q, 59, rfl, by simp [attrSeps]⟩⟩
  obtain ⟨r', q, hright, hr', hq⟩ : ∃ r' q, post ++ r = r' ++ q ∧ (∀ c ∈ r', isspace c = true) ∧
      (q = [] ∨ ∃ s t, q = s :: t ∧ s ∈ attrSeps ∧ t ≠ []) := by
    rcases hpost with rfl | ⟨t, rfl⟩
    · exact ⟨r, [], by simp, hr, .inl rfl⟩
    · refine ⟨[], 59 :: (t ++ r), by simp, by simp, .inr ⟨59, t ++ r, rfl, by simp [attrSeps], ?_⟩⟩
      intro hnil
      obtain ⟨rfl, rfl⟩ := List.append_eq_nil_iff.1 hnil
      rw [hct, htext] at hend
      simp at hend
  have hvalue : ct = p ++ (l' ++ seg ++ r' ++ q) := by
    calc ct = (l ++ pre) ++ seg ++ (post ++ r) := by rw [hct, htext]; simp
      _ = p ++ (l' ++ seg ++ r' ++ q) := by rw [hleft, hright]; simp
  exact ⟨p, l', seg, r', q, hvalue, hseg, hl', hr', hp, hq⟩

/-! ## Agreement -/

/-- The status after `post_headers_validation` is the one the content type asks for. -/
theorem status_postHeadersValidation {w : World} (hstatus : w.status = .parseHeader) {cl ct : Bytes}
    {n : Nat} (hcl : (w.parser.head.hdrs.getD (.empty _ _)).getFirst (bytes "content-length") = some cl)
    (hn : env.strToNum cl = some n) (hpos : 0 < n)
    (hct : (w.parser.head.hdrs.getD (.empty _ _)).getFirst (bytes "content-type") = some ct) :
    (postHeadersValidation env w).1.status = contentState env ct := by
  unfold postHeadersValidation
  rw [if_neg (by simp [hstatus])]
  simp only [hcl, hn, hct]
  split
  · next h => exact h.symm
  · unfold initBody
    simp only
    split
    · next h => exact absurd h (by show ¬ n = 0; omega)
    · rfl

/-- **The parser and the request agree on the kind of the body exactly if the content type is spelt
    plainly.** -/
theorem bodyKind_iff (htrim : TrimsBlanks env.trim) (w : World) (hstatus : w.status = .parseHeader)
    (hdrs : HeaderMap) (hhdrs : w.parser.head.hdrs = some hdrs) (cl ct : Bytes) (n : Nat)
    (hcl : hdrs.getFirst (bytes "content-length") = some cl) (hn : env.strToNum cl = some n)
    (hpos : 0 < n) (hct : hdrs.getFirst (bytes "content-type") = some ct) :
    (((postHeadersValidation env w).1.status = .parseFormMultipart ↔ isMultipartFormData hdrs) ∧
      ((postHeadersValidation env w).1.status = .parseFormUrlencoded ↔ isFormUrlEncoded hdrs))
      ↔ PlainForm env ct := by
  have hget : hdrs.getFirst contentTypeName = some ct := by
    rw [← hct]
    exact congrArg (fun o => Option.bind o List.head?) (UMap.get?_congr hdrs (by decide))
  have hchoice := status_postHeadersValidation env hstatus (by rw [hhdrs]; exact hcl) hn hpos
    (by rw [hhdrs]; exact hct)
  obtain ⟨hmword, huword⟩ := isWord_enctypes
  have hflagm : flag ct enctypeMultipart = true ↔ Mentions ct enctypeMultipart :=
    flag_iff_mentions hmword (by decide) (by decide)
  have hflagu : flag ct enctypeUrlencoded = true ↔ Mentions ct enctypeUrlencoded :=
    flag_iff_mentions huword (by decide) (by decide)
  rw [hchoice, contentState_multipart, contentState_urlencoded]
  simp only [isMultipartFormData, isFormUrlEncoded, contentFlag, hget, hflagm, hflagu]
  constructor
  · rintro ⟨hm, hu⟩
    exact ⟨hu.2, hm.2, fun _ h => hu.1 h, fun _ h hb => hm.1 ⟨h, hb⟩⟩
  · intro hform
    refine ⟨⟨fun h => ?_, hform.multipart⟩, ⟨fun h => ?_, hform.urlencoded⟩⟩
    · by_cases hend : ct.getLast? = some 59
      · exact hform.multipart_end hend h.1 h.2
      · exact mentions_of_leads env htrim hend h.1
    · by_cases hend : ct.getLast? = some 59
      · exact hform.urlencoded_end hend h
      · exact mentions_of_leads env htrim hend h

theorem trimsBlanks_trimBlanks : TrimsBlanks trimBlanks := trimsBlanks_strip

/-- A request whose headers have been read, with a body of one byte. -/
def readHeaders (ct : Bytes) : World :=
  fresh.setParser { HttpParser.fresh with
    head := { ParserHead.fresh with
      status := .parseHeader
      hdrs := some (((UMap.empty lower (List Bytes)).emplace (bytes "Content-Length") [[49]]).emplace
        contentTypeName [ct]) } }

/-- A content type as browsers send it. -/
theorem bodyKind_multipart :
    ((postHeadersValidation (plainEnv .later [])
        (readHeaders (bytes "multipart/form-data; boundary=b"))).1.status = .parseFormMultipart
      ↔ isMultipartFormData (((UMap.empty lower (List Bytes)).emplace (bytes "Content-Length")
        [[49]]).emplace contentTypeName [bytes "multipart/form-data; boundary=b"])) ∧
    ((postHeadersValidation (plainEnv .later [])
        (readHeaders (bytes "multipart/form-data; boundary=b"))).1.status = .parseFormUrlencoded
      ↔ isFormUrlEncoded (((UMap.empty lower (List Bytes)).emplace (bytes "Content-Length")
        [[49]]).emplace contentTypeName [bytes "multipart/form-data; boundary=b"])) := by
  refine (bodyKind_iff (plainEnv .later []) trimsBlanks_trimBlanks _ rfl _ rfl [49]
    (bytes "multipart/form-data; boundary=b") 1 (by decide) (by decide) (by decide) (by decide)).2
    ⟨?_, ?_, ?_, ?_⟩
  · intro hmentions
    exact absurd ((flag_iff_mentions (by decide) (by decide) (by decide)).2 hmentions) (by decide)
  · intro _
    exact ⟨⟨[], bytes "multipart/form-data", [bytes " boundary=b"], by decide, by decide, by simp⟩,
      by decide⟩
  · intro hend
    exact absurd hend (by decide)
  · intro hend
    exact absurd hend (by decide)

/-- A blank before the `;`: the parser reads a plain body, the request is multipart. -/
theorem bodyKind_differs :
    ¬ ∀ (env : ConnEnv), TrimsBlanks env.trim → ∀ w : World, w.status = .parseHeader →
      ∀ hdrs, w.parser.head.hdrs = some hdrs → ∀ cl ct n,
      hdrs.getFirst (bytes "content-length") = some cl → env.strToNum cl = some n → 0 < n →
      hdrs.getFirst (bytes "content-type") = some ct →
      ((postHeadersValidation env w).1.status = .parseFormMultipart ↔ isMultipartFormData hdrs) ∧
        ((postHeadersValidation env w).1.status = .parseFormUrlencoded ↔ isFormUrlEncoded hdrs) := by
  intro hall
  have hagree := (hall (plainEnv .later []) trimsBlanks_trimBlanks
    (readHeaders (bytes "multipart/form-data ; boundary=b")) rfl _ rfl [49]
    (bytes "multipart/form-data ; boundary=b") 1 (by decide) (by decide) (by decide) (by decide)).1
  revert hagree
  decide

end LibEvmvc
