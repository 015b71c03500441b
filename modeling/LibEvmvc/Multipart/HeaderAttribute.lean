import LibEvmvc.Foundation.Segments
import LibEvmvc.Multipart.FormFields

set_option autoImplicit false

/-! # Attributes of a header

`get_header_attribute` splits a header's value at every `;`, and what is between them at every `=`, before
it looks at quotes. A quoted value is found as it was written if it has neither of them; no other value is
ever returned. -/

namespace LibEvmvc

section Attribute

variable (trim : Bytes → Bytes)

/-- `unquote`, which looks at the first character of the value, and at the last one when a quote at the
    beginning has been taken away; `none` if there is none. -/
def unquoteChecked (val : Bytes) : Option Bytes :=
  if val = [] ∨ (if val.head? = some 34 then val.drop 1 else val) = [] then none else some (unquote val)

/-- `multip::get_header_attribute`; `none` if it looks at a character of an empty value. -/
def headerAttributeChecked (hdrVal attrName : Bytes) : Option Bytes :=
  match headerParam trim hdrVal attrName with
  | none => some []
  | some val => unquoteChecked val

/-- `; name="value"`. -/
def attributeText (a : Bytes × Bytes) : Bytes := bytes "; " ++ a.1 ++ 61 :: 34 :: a.2 ++ [34]

/-- A header's value with attributes. -/
def attributesText (attrs : List (Bytes × Bytes)) : Bytes :=
  bytes "form-data" ++ attrs.flatMap attributeText

/-- Attributes of different names, each without quotes, `=`, `;` and blanks, and values without
    quotes. -/
structure AttributesOk (attrs : List (Bytes × Bytes)) : Prop where
  distinct : (attrs.map Prod.fst).Nodup
  name : ∀ a ∈ attrs, ∀ c ∈ a.1, c ≠ 34 ∧ c ≠ 61 ∧ c ≠ 59 ∧ isspace c = false
  value : ∀ a ∈ attrs, 34 ∉ a.2

/-- Every attribute is found, and no other. -/
def AttributesRead (attrs : List (Bytes × Bytes)) : Prop :=
  (∀ a ∈ attrs, headerAttributeChecked trim (attributesText attrs) a.1 = some a.2) ∧
    ∀ name, (∀ a ∈ attrs, a.1 ≠ name) →
      headerAttributeChecked trim (attributesText attrs) name = some []

variable {trim}

theorem unquoteChecked_eq {val v : Bytes} (h : unquoteChecked val = some v) : unquote val = v := by
  unfold unquoteChecked at h
  by_cases hempty : val = [] ∨ (if val.head? = some 34 then val.drop 1 else val) = []
  · rw [if_pos hempty] at h
    cases h
  · rw [if_neg hempty] at h
    exact Option.some.inj h

/-- Where the checks succeed, they change nothing. -/
theorem headerAttributeChecked_eq {hdrVal key v : Bytes}
    (h : headerAttributeChecked trim hdrVal key = some v) : getHeaderAttribute trim hdrVal key = v := by
  unfold headerAttributeChecked at h
  unfold getHeaderAttribute
  cases hparam : headerParam trim hdrVal key with
  | none =>
    rw [hparam] at h
    exact Option.some.inj h
  | some val =>
    rw [hparam] at h
    exact unquoteChecked_eq h

/-- Nothing that is returned has a `;` or an `=`. -/
theorem getHeaderAttribute_plain (htrim : TrimsBlanks trim) (hdrVal key : Bytes) :
    59 ∉ getHeaderAttribute trim hdrVal key ∧ 61 ∉ getHeaderAttribute trim hdrVal key := by
  unfold getHeaderAttribute
  cases hparam : headerParam trim hdrVal key with
  | none => exact ⟨List.not_mem_nil, List.not_mem_nil⟩
  | some v =>
    unfold headerParam at hparam
    obtain ⟨kvs, hkvs, hfound⟩ := List.exists_of_findSome?_eq_some hparam
    obtain ⟨kv, hkv, rfl⟩ := List.mem_map.1 hkvs
    split at hfound
    · next k v' hpair =>
      split at hfound
      · obtain rfl : trim v' = v := Option.some.inj hfound
        have hpiece : v' ∈ (trim kv).splitOn 61 := by
          rw [hpair]
          simp
        have hback : ∀ c, c ∈ unquote (trim v') → c ∈ v' := fun c hc =>
          mem_of_mem_trim htrim (mem_of_mem_unquote hc)
        constructor
        · intro hc
          have hkv' := mem_of_mem_trim htrim (mem_of_mem_splitOn hpiece (hback 59 hc))
          exact not_mem_of_mem_splitOn hkv hkv'
        · intro hc
          exact not_mem_of_mem_splitOn hpiece (hback 61 hc)
      · cases hfound
    · cases hfound

/-- The parts of a header with plain values. -/
theorem splitOn_attributesText {attrs : List (Bytes × Bytes)} (hok : AttributesOk attrs)
    (hplain : ∀ a ∈ attrs, 59 ∉ a.2) :
    (attributesText attrs).splitOn 59
      = bytes "form-data" :: attrs.map fun a => 32 :: (a.1 ++ 61 :: 34 :: a.2 ++ [34]) := by
  have hname : ∀ a ∈ attrs, 59 ∉ a.1 := fun a ha hc => (hok.name a ha 59 hc).2.2.1 rfl
  have hgen : ∀ front : Bytes, 59 ∉ front → (front ++ attrs.flatMap attributeText).splitOn 59
      = front :: attrs.map fun a => 32 :: (a.1 ++ 61 :: 34 :: a.2 ++ [34]) := by
    clear hok
    induction attrs with
    | nil =>
      intro front hfront
      rw [List.flatMap_nil, List.append_nil]
      exact List.splitOn_eq_singleton hfront
    | cons a attrs ih =>
      intro front hfront
      rw [List.forall_mem_cons] at hplain hname
      have htext : front ++ (a :: attrs).flatMap attributeText
          = front ++ 59 :: (32 :: (a.1 ++ 61 :: 34 :: a.2 ++ [34]) ++ attrs.flatMap attributeText) := by
        have hsep : bytes "; " = [59, 32] := by decide
        simp [attributeText, hsep]
      rw [htext, List.splitOn_append_cons_self_of_not_mem hfront, ih hplain.2 hname.2]
      · rfl
      · simp [hplain.1, hname.1]
  exact hgen (bytes "form-data") (by decide)

/-- A quoted value is unquoted. -/
theorem unquoteChecked_quoted (v : Bytes) : unquoteChecked (34 :: v ++ [34]) = some v := by
  have hne : ¬ ((34 :: v ++ [34] : Bytes) = [] ∨
      (if (34 :: v ++ [34] : Bytes).head? = some 34 then (34 :: v ++ [34] : Bytes).drop 1
        else 34 :: v ++ [34]) = []) := by
    simp
  rw [unquoteChecked, if_neg hne]
  simp [unquote]

/-- What a header's part with a name and a plain value is split into. -/
theorem part_attribute (htrim : TrimsEnds trim) {a : Bytes × Bytes}
    (hname : ∀ c ∈ a.1, c ≠ 34 ∧ c ≠ 61 ∧ c ≠ 59 ∧ isspace c = false) (hvalue : 61 ∉ a.2) :
    (trim (32 :: (a.1 ++ 61 :: 34 :: a.2 ++ [34]))).splitOn 61 = [a.1, 34 :: a.2 ++ [34]] ∧
      trim a.1 = a.1 ∧ trim (34 :: a.2 ++ [34]) = 34 :: a.2 ++ [34] := by
  have hlast : ∀ k : Bytes, (k ++ 34 :: a.2 ++ [34]).getLast? = some 34 := fun k => List.getLast?_concat
  have heq : 61 ∉ a.1 := fun hc => (hname 61 hc).2.1 rfl
  have hhead : ∃ c, (a.1 ++ 61 :: 34 :: a.2 ++ [34]).head? = some c ∧ isspace c = false := by
    cases hn : a.1 with
    | nil => exact ⟨61, rfl, rfl⟩
    | cons c n =>
      refine ⟨c, rfl, (hname c ?_).2.2.2⟩
      rw [hn]
      exact List.mem_cons_self
  obtain ⟨c, hc, hblank⟩ := hhead
  have hpart : trim ([32] ++ (a.1 ++ 61 :: 34 :: a.2 ++ [34])) = a.1 ++ 61 :: 34 :: a.2 ++ [34] :=
    htrim.eq (.inr rfl) hc hblank List.getLast?_concat rfl
  refine ⟨?_, ?_, htrim.eq (l := []) (.inl rfl) rfl rfl (hlast []) rfl⟩
  · rw [show 32 :: (a.1 ++ 61 :: 34 :: a.2 ++ [34]) = [32] ++ (a.1 ++ 61 :: 34 :: a.2 ++ [34]) from rfl,
      hpart, List.append_assoc, List.cons_append, List.splitOn_append_cons_self_of_not_mem heq,
      List.splitOn_eq_singleton (by simp [hvalue])]
  · have hword : ∀ n : Bytes, (∀ c ∈ n, isspace c = false) → trim n = n := by
      intro n hn
      cases n with
      | nil =>
        obtain ⟨x, y, hxy, -, -⟩ := htrim.blanks []
        rw [eq_comm, List.append_eq_nil_iff, List.append_eq_nil_iff] at hxy
        exact hxy.1.2
      | cons c n =>
        exact htrim.eq (l := []) (.inl rfl) rfl (hn c List.mem_cons_self)
          (List.getLast?_eq_some_getLast (List.cons_ne_nil c n)) (hn _ (List.getLast_mem _))
    exact hword a.1 fun c hc => (hname c hc).2.2.2

/-- Among attributes with plain values, the first one of that name is found. -/
theorem headerParam_attributesText (htrim : TrimsEnds trim) {attrs : List (Bytes × Bytes)}
    (hok : AttributesOk attrs) (hplain : ∀ a ∈ attrs, 59 ∉ a.2 ∧ 61 ∉ a.2) (key : Bytes) :
    headerParam trim (attributesText attrs) key
      = attrs.findSome? fun a => if a.1 = key then some (34 :: a.2 ++ [34]) else none := by
  have htrimmed : trim (bytes "form-data") = bytes "form-data" :=
    htrim.eq (l := []) (.inl rfl) rfl (by decide) rfl (by decide)
  have htype : (trim (bytes "form-data")).splitOn 61 = [bytes "form-data"] := by
    rw [htrimmed]
    decide
  have hname := hok.name
  rw [headerParam, splitOn_attributesText hok fun a ha => (hplain a ha).1, List.map_cons, htype,
    List.findSome?_cons, List.map_map]
  clear hok htype
  induction attrs with
  | nil => rfl
  | cons a attrs ih =>
    rw [List.forall_mem_cons] at hplain hname
    obtain ⟨hsplit, hkey, hquoted⟩ := part_attribute htrim hname.1 hplain.1.2
    rw [List.map_cons, List.findSome?_cons, List.findSome?_cons]
    simp only [Function.comp_apply, hsplit, hkey, hquoted]
    by_cases ha : a.1 = key
    · rw [if_pos ha]
    · rw [if_neg ha]
      exact ih hplain.2 hname.2

/-- A name that is there once. -/
theorem findSome?_distinct {attrs : List (Bytes × Bytes)} (hdistinct : (attrs.map Prod.fst).Nodup)
    {a : Bytes × Bytes} (ha : a ∈ attrs) :
    (attrs.findSome? fun b => if b.1 = a.1 then some (34 :: b.2 ++ [34]) else none)
      = some (34 :: a.2 ++ [34]) := by
  induction attrs with
  | nil => cases ha
  | cons b attrs ih =>
    rw [List.map_cons, List.nodup_cons] at hdistinct
    rw [List.findSome?_cons]
    rcases List.mem_cons.1 ha with rfl | ha
    · rw [if_pos rfl]
    · have hne : b.1 ≠ a.1 := fun h => hdistinct.1 (h ▸ List.mem_map_of_mem ha)
      rw [if_neg hne]
      exact ih hdistinct.2 ha

/-- **The attributes of a header are found exactly if no value has a `;` or an `=`.** -/
theorem attributesRead_iff (htrim : TrimsEnds trim) {attrs : List (Bytes × Bytes)}
    (hok : AttributesOk attrs) :
    AttributesRead trim attrs ↔ ∀ a ∈ attrs, 59 ∉ a.2 ∧ 61 ∉ a.2 := by
  constructor
  · rintro ⟨hfound, -⟩ a ha
    rw [← headerAttributeChecked_eq (hfound a ha)]
    exact getHeaderAttribute_plain htrim.blanks _ _
  · intro hplain
    have hparam := headerParam_attributesText htrim hok hplain
    constructor
    · intro a ha
      rw [headerAttributeChecked, hparam, findSome?_distinct hok.distinct ha]
      exact unquoteChecked_quoted a.2
    · intro name hnone
      have hno : (attrs.findSome? fun a => if a.1 = name then some (34 :: a.2 ++ [34]) else none) = none :=
        List.findSome?_eq_none_iff.2 fun a ha => if_neg (hnone a ha)
      rw [headerAttributeChecked, hparam, hno]

end Attribute

/-- `form-data; name="a"; filename="b c"`. -/
def sampleAttributes : List (Bytes × Bytes) :=
  [(bytes "name", bytes "a"), (bytes "filename", bytes "b c")]

theorem attributesRead_sample : AttributesRead strip sampleAttributes := by
  refine (attributesRead_iff trimsEnds_strip ⟨by decide, ?_, ?_⟩).2 ?_
  · refine List.forall_mem_cons.2 ⟨forall_mem_of_all (by decide), List.forall_mem_cons.2 ⟨?_, nofun⟩⟩
    exact forall_mem_of_all (by decide)
  · exact forall_mem_of_all (by decide)
  · exact forall_mem_of_all (by decide)

/-- The value of `name="a;b"` is cut. -/
theorem attributesRead_semicolon :
    ¬ ∀ (trim : Bytes → Bytes) (attrs : List (Bytes × Bytes)), TrimsEnds trim → AttributesOk attrs →
      AttributesRead trim attrs := by
  intro h
  have hok : AttributesOk [(bytes "name", bytes "a;b")] := by
    refine ⟨by decide, List.forall_mem_singleton.2 (forall_mem_of_all (by decide)),
      List.forall_mem_singleton.2 (by decide)⟩
  have hread := (h strip _ trimsEnds_strip hok).1 _ List.mem_cons_self
  revert hread
  decide

end LibEvmvc
