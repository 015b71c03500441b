import LibEvmvc.Http.HeaderFlag
import Mathlib.Algebra.Order.Ring.Nat
import Mathlib.Data.Finset.Max

set_option autoImplicit false

/-! # Attributes of a header value

`header_t::attr` takes the end of a name for the position of its last character, and then counts the
characters in front of that position: a name is compared without its last character. Its positions are
of an unsigned type, so that two steps back from the second character of a value lead out of it. -/

namespace LibEvmvc

/-- No text is that long. -/
def textLimit : Nat := 2 ^ 63

/-- A difference of two positions, as `size_t` has it. -/
def sizeSub (a b : Nat) : Nat := if b ≤ a then a - b else 2 ^ 64 - (b - a)

/-- The blanks in front of `attr_name_end` are skipped backwards; `none` if a character outside the
    value is looked at. -/
def trimNameEnd (v : Bytes) (attrStart : Nat) : Nat → Option Nat
  | 0 => some 0
  | e + 1 =>
    if attrStart < e + 1 then
      match (v)[e + 1]? with
      | none => none
      | some c => if isspace c then trimNameEnd v attrStart e else some (e + 1)
    else some (e + 1)

/-- The end of a segment at index `i`: the value to return, or `some none` if the segment is not the
    one. `none` if something outside the value is looked at. -/
def attrSegment (v name defaultVal : Bytes) (valSep : UInt8) (start i : Nat) :
    Option (Option Bytes) :=
  let attrStart := start + ((substr v start (i - start)).takeWhile isspace).length
  let valSepAt := (substr v attrStart (i + 1 - attrStart)).idxOf? valSep
  let attrValStart := match valSepAt with
    | none => i
    | some j => attrStart + j + 1
  match trimNameEnd v attrStart (sizeSub attrValStart 2) with
  | none => none
  | some attrNameEnd =>
    let len := sizeSub attrNameEnd attrStart
    if len ≠ name.length then some none
    else if v.length < attrStart + len then none
    else if lower (cstr (substr v attrStart len)) ≠ lower (cstr name) then some none
    else match valSepAt with
      | none => some (some defaultVal)
      -- a range of characters cannot end before it begins
      | some _ =>
        if i < attrValStart then none
        else some (some (substr v attrValStart (i - attrValStart)))

/-- The loop of `attr` from index `i` on, with the segment that begins at `attrStart`. -/
def attrLoop (v name defaultVal : Bytes) (attrSep valSep : UInt8) :
    Bytes → Nat → Nat → Option Bytes
  | [], _, _ => some defaultVal
  | c :: rest, i, attrStart =>
    if c = attrSep ∨ i = v.length - 1 then
      match attrSegment v name defaultVal valSep attrStart i with
      | none => none
      | some (some x) => some x
      | some none => attrLoop v name defaultVal attrSep valSep rest (i + 1) (i + 1)
    else attrLoop v name defaultVal attrSep valSep rest (i + 1) attrStart

/-- `header_t::attr`; `none` if it looks at something outside the value. -/
def attr (v name : Bytes) (defaultVal : Bytes := []) (attrSep : UInt8 := 59) (valSep : UInt8 := 61) :
    Option Bytes :=
  attrLoop v name defaultVal attrSep valSep v 0 0

/-- `; name=value`. -/
def attrText (a : Bytes × Bytes) : Bytes := 59 :: 32 :: (a.1 ++ 61 :: a.2)

/-- A header value: a head, which has neither a `;` nor a `=`, and attributes of different names. -/
structure AttrValue where
  head : Bytes
  attrs : List (Bytes × Bytes)
  head_plain : ∀ c ∈ head, isAttrSep c = false
  name_plain : ∀ a ∈ attrs, ∀ c ∈ a.1, isAttrSep c = false ∧ isspace c = false
  value_plain : ∀ a ∈ attrs, 59 ∉ a.2
  distinct : (attrs.map fun a => lower a.1).Nodup
  fits : (head ++ attrs.flatMap attrText).length < textLimit

namespace AttrValue

variable (v : AttrValue)

/-- `t; n1=v1; n2=v2`. -/
def text : Bytes := v.head ++ v.attrs.flatMap attrText

/-- `attr` returns the value of every attribute, and the default for any other name; it looks at
    nothing outside the value. -/
structure Found : Prop where
  present : ∀ a ∈ v.attrs, ∀ name, lower name = lower a.1 →
    ∀ dflt, attr v.text name dflt = some a.2
  absent : ∀ name, name.length < textLimit → (∀ a ∈ v.attrs, lower name ≠ lower a.1) →
    ∀ dflt, attr v.text name dflt = some dflt

end AttrValue

/-! ## One segment -/

section Segment

variable {v name dflt : Bytes}

theorem trimNameEnd_inside {s e : Nat} (h : e < v.length) :
    ∃ e' ≤ e, trimNameEnd v s e = some e' := by
  induction e with
  | zero => exact ⟨0, le_rfl, rfl⟩
  | succ e ih =>
    obtain ⟨e', hle, hend⟩ := ih (by omega)
    rw [trimNameEnd, List.getElem?_eq_getElem h]
    split
    · simp only
      split
      · exact ⟨e', by omega, hend⟩
      · exact ⟨e + 1, le_rfl, rfl⟩
    · exact ⟨e + 1, le_rfl, rfl⟩

theorem trimNameEnd_outside {s e : Nat} (hs : s < e) (h : v.length ≤ e) :
    trimNameEnd v s e = none := by
  obtain ⟨e, rfl⟩ : ∃ k, e = k + 1 := ⟨e - 1, by omega⟩
  rw [trimNameEnd, if_pos hs, List.getElem?_eq_none h]

/-- A name without blanks ends where it ends. -/
theorem trimNameEnd_name {pre n post : Bytes} (hn : ∀ c ∈ n, isspace c = false) (hpre : pre ≠ []) :
    trimNameEnd (pre ++ (n ++ post)) pre.length (pre.length + n.length - 1)
      = some (pre.length + n.length - 1) := by
  have hpos : 0 < pre.length := List.length_pos_iff.2 hpre
  obtain ⟨k, hk⟩ : ∃ k, pre.length + n.length - 1 = k + 1 ∨ pre.length + n.length - 1 = 0 := by
    exact ⟨pre.length + n.length - 2, by omega⟩
  rcases hk with hk | hk
  · rw [hk, trimNameEnd]
    by_cases hlong : pre.length < k + 1
    · have hlast : (pre ++ (n ++ post))[k + 1]? = (n)[n.length - 1]? := by
        rw [List.getElem?_append_right (by omega), List.getElem?_append_left (by omega)]
        congr 1
        omega
      have hin : n.length - 1 < n.length := by omega
      rw [if_pos hlong, hlast, List.getElem?_eq_getElem hin]
      simp only [hn _ (List.getElem_mem hin), Bool.false_eq_true, if_false]
    · rw [if_neg hlong]
  · rw [hk, trimNameEnd]

theorem idxOf?_none {i : Nat} (h : 61 ∉ v.take (i + 1)) (s : Nat) :
    (substr v s (i + 1 - s)).idxOf? 61 = none := by
  rw [List.idxOf?_eq_none_iff, substr, ← List.drop_take]
  exact fun hc => h (List.mem_of_mem_drop hc)

theorem length_skipped_le (start i : Nat) :
    ((substr v start (i - start)).takeWhile isspace).length ≤ i - start := by
  refine (List.takeWhile_prefix _).length_le.trans ?_
  rw [substr]
  exact List.length_take_le _ _

/-- A segment without a `=` gives no value, and nothing outside the value is looked at for it if it
    does not end with one of the first two characters. -/
theorem attrSegment_noVal {start i : Nat} (h : 61 ∉ v.take (i + 1)) (hi : i < v.length)
    (hstart : start ≤ i) (hv : v.length < textLimit) (hname : name.length < textLimit) :
    (attrSegment v name dflt 61 start i = none ∧ i < 2) ∨
      attrSegment v name dflt 61 start i = some none ∨
      attrSegment v name dflt 61 start i = some (some dflt) := by
  have hskip := @length_skipped_le v start i
  rw [textLimit] at hv hname
  simp only [attrSegment, idxOf?_none h]
  generalize hs : start + ((substr v start (i - start)).takeWhile isspace).length = s
  by_cases hshort : i < 2
  · split
    · exact .inl ⟨rfl, hshort⟩
    · split
      · exact .inr (.inl rfl)
      · split
        · exact .inl ⟨rfl, hshort⟩
        · split
          · exact .inr (.inl rfl)
          · exact .inr (.inr rfl)
  · have hback : sizeSub i 2 = i - 2 := if_pos (by omega)
    obtain ⟨e, hle, hend⟩ := @trimNameEnd_inside v s (i - 2) (by omega)
    right
    rw [hback, hend]
    simp only
    split
    · exact .inl rfl
    · next hlen =>
      -- a length that is not out of range is that of something in front of the segment's end
      have hin : ¬ v.length < s + sizeSub e s := by
        unfold sizeSub at hlen ⊢
        split at hlen <;> split <;> omega
      rw [if_neg hin]
      split
      · exact .inl rfl
      · exact .inr rfl

/-- Two steps back from the second character lead out of the value. -/
theorem attrSegment_outside {i : Nat} (h : 61 ∉ v.take (i + 1)) (hi : i < 2)
    (hv : v.length < textLimit) : attrSegment v name dflt 61 0 i = none := by
  have hskip := @length_skipped_le v 0 i
  have hback : sizeSub i 2 = 2 ^ 64 - (2 - i) := if_neg (by omega)
  rw [textLimit] at hv
  have hnull := @trimNameEnd_outside v (0 + ((substr v 0 (i - 0)).takeWhile isspace).length)
    (2 ^ 64 - (2 - i)) (by omega) (by omega)
  simp only [attrSegment, idxOf?_none h, hback, hnull]

/-- An attribute is compared without the last character of its name. -/
theorem attrSegment_attr {pre n seg more post : Bytes} {c : UInt8}
    (hn : ∀ c ∈ n, isAttrSep c = false ∧ isspace c = false)
    (hseg : seg ++ [c] = 32 :: (n ++ 61 :: more)) (hv : (pre ++ (seg ++ c :: post)).length < textLimit)
    (hlen : n.length ≤ name.length) (hname : name.length < textLimit) :
    attrSegment (pre ++ (seg ++ c :: post)) name dflt 61 pre.length (pre.length + seg.length)
      = some none := by
  have hspace : isspace 32 = true := by decide
  have heq : isspace 61 = false := by decide
  obtain ⟨r, rfl, hr⟩ : ∃ r, seg = 32 :: (n ++ r) ∧ r ++ [c] = 61 :: more := by
    rcases List.eq_nil_or_concat more with rfl | ⟨m, x, rfl⟩
    · have hcut : seg ++ [c] = (32 :: n) ++ [61] := hseg
      obtain ⟨hseg, hc⟩ := List.append_inj' hcut rfl
      exact ⟨[], by rw [hseg, List.append_nil], by rw [hc, List.nil_append]⟩
    · have hcut : seg ++ [c] = 32 :: (n ++ 61 :: m) ++ [x] := by simpa using hseg
      obtain ⟨hseg, hc⟩ := List.append_inj' hcut rfl
      exact ⟨61 :: m, hseg, by rw [hc]; simp⟩
  have hskip : ((32 :: (n ++ r)).takeWhile isspace).length = 1 := by
    have hnone : (n ++ r).takeWhile isspace = [] := by
      rcases n with - | ⟨a, n⟩
      · rcases r with - | ⟨b, r⟩
        · rfl
        · obtain rfl : b = 61 := (List.cons.inj hr).1
          exact List.takeWhile_cons_of_neg (by simp [heq])
      · exact List.takeWhile_cons_of_neg (by simp [(hn a List.mem_cons_self).2])
    rw [List.takeWhile_cons_of_pos hspace, hnone]
    rfl
  have htext : pre ++ (32 :: (n ++ r) ++ c :: post)
      = (pre ++ [32]) ++ (n ++ (61 :: more ++ post)) := by
    rw [← hr]
    simp
  have hlast : pre.length + (32 :: (n ++ r)).length + 1 - (pre.length + 1)
      = (n ++ 61 :: more).length := by
    rw [← hr]
    simp only [List.length_cons, List.length_append, List.length_nil]
    omega
  have hfirst : pre.length + 1 = (pre ++ [32]).length := by simp
  have hfind : (substr (pre ++ (32 :: (n ++ r) ++ c :: post)) (pre.length + 1)
      (pre.length + (32 :: (n ++ r)).length + 1 - (pre.length + 1))).idxOf? 61 = some n.length := by
    have hmid := substr_mid (pre ++ [32]) (n ++ 61 :: more) post
    rw [List.append_assoc n, List.cons_append] at hmid
    rw [hlast, hfirst, htext, List.cons_append, hmid, List.idxOf?_eq_some_iff]
    refine ⟨by simp, by simp, fun j hj => ?_⟩
    rw [List.getElem_append_left hj]
    intro hsep
    have hplain := (hn _ (List.getElem_mem hj)).1
    rw [hsep] at hplain
    exact absurd hplain (by decide)
  have hfront : substr (pre ++ (32 :: (n ++ r) ++ c :: post)) pre.length
      (pre.length + (32 :: (n ++ r)).length - pre.length) = 32 :: (n ++ r) := by
    rw [Nat.add_sub_cancel_left]
    exact substr_mid pre _ _
  have hback : sizeSub (pre.length + 1 + n.length + 1) 2 = (pre ++ [32]).length + n.length - 1 := by
    rw [sizeSub, if_pos (by omega), ← hfirst]
    omega
  have hend := @trimNameEnd_name (pre ++ [32]) n (61 :: more ++ post) (fun c hc => (hn c hc).2)
    (by simp)
  have hshort : sizeSub ((pre ++ [32]).length + n.length - 1) (pre ++ [32]).length
      ≠ name.length := by
    rw [textLimit] at hname
    rw [← hfirst, sizeSub]
    split <;> omega
  simp only [attrSegment, hfront, hskip, hfind, hback]
  rw [htext, hfirst, hend]
  simp only [if_pos hshort]

end Segment

/-! ## The loop -/

section Loop

variable {v name dflt : Bytes}

/-- The scan of a segment up to its last character. -/
theorem attrLoop_scan {seg rest : Bytes} (i s : Nat) (hseg : 59 ∉ seg) (hrest : rest ≠ [])
    (hv : v.length = i + seg.length + rest.length) :
    attrLoop v name dflt 59 61 (seg ++ rest) i s
      = attrLoop v name dflt 59 61 rest (i + seg.length) s := by
  have hpos : 0 < rest.length := List.length_pos_iff.2 hrest
  induction seg generalizing i with
  | nil => rfl
  | cons c seg ih =>
    rw [List.length_cons] at hv
    have hc : ¬ (c = 59 ∨ i = v.length - 1) := by
      rintro (rfl | hlast)
      · exact hseg List.mem_cons_self
      · omega
    have hfree : 59 ∉ seg := fun h => hseg (List.mem_cons_of_mem _ h)
    rw [List.cons_append, attrLoop, if_neg hc, ih (i + 1) hfree (by omega), List.length_cons]
    congr 1
    omega

/-- A segment that is not the one is passed over. -/
theorem attrLoop_pass {seg post : Bytes} {c : UInt8} {i s : Nat} (hseg : 59 ∉ seg)
    (hc : c = 59 ∨ post = []) (hv : v.length = i + seg.length + (c :: post).length)
    (h : attrSegment v name dflt 61 s (i + seg.length) = some none) :
    attrLoop v name dflt 59 61 (seg ++ c :: post) i s
      = attrLoop v name dflt 59 61 post (i + seg.length + 1) (i + seg.length + 1) := by
  have hend : c = 59 ∨ i + seg.length = v.length - 1 := by
    refine hc.imp id ?_
    rintro rfl
    rw [List.length_singleton] at hv
    omega
  rw [attrLoop_scan i s hseg (List.cons_ne_nil _ _) hv, attrLoop, if_pos hend, h]

/-- No attribute is found under a name that is at least as long as all of theirs. -/
theorem attrLoop_attrs {a : Bytes × Bytes} {as : List (Bytes × Bytes)} (pre : Bytes)
    (hname : ∀ b ∈ a :: as, ∀ c ∈ b.1, isAttrSep c = false ∧ isspace c = false)
    (hvalue : ∀ b ∈ a :: as, 59 ∉ b.2) (hlen : ∀ b ∈ a :: as, b.1.length ≤ name.length)
    (hfits : name.length < textLimit)
    (hv : v = pre ++ (32 :: (a.1 ++ 61 :: a.2) ++ as.flatMap attrText))
    (hlim : v.length < textLimit) :
    attrLoop v name dflt 59 61 (32 :: (a.1 ++ 61 :: a.2) ++ as.flatMap attrText) pre.length
      pre.length = some dflt := by
  have hplain : ∀ b ∈ a :: as, 59 ∉ 32 :: (b.1 ++ 61 :: b.2) := by
    intro b hb hmem
    simp only [List.mem_cons, List.mem_append] at hmem
    rcases hmem with hmem | hmem | hmem | hmem
    · exact absurd hmem (by decide)
    · exact absurd (hname b hb 59 hmem).1 (by decide)
    · exact absurd hmem (by decide)
    · exact hvalue b hb hmem
  clear hvalue
  induction as generalizing a pre with
  | nil =>
    have ha := hname a List.mem_cons_self
    have hal := hlen a List.mem_cons_self
    obtain ⟨seg, c, hseg⟩ : ∃ seg c, 32 :: (a.1 ++ 61 :: a.2) = seg ++ [c] := by
      obtain ⟨seg, c, hseg⟩ :=
        (List.eq_nil_or_concat _).resolve_left (List.cons_ne_nil 32 (a.1 ++ 61 :: a.2))
      exact ⟨seg, c, hseg.trans List.concat_eq_append⟩
    rw [List.flatMap_nil, List.append_nil, hseg] at hv ⊢
    have hpass := @attrSegment_attr name dflt pre a.1 seg a.2 [] c ha hseg.symm (hv ▸ hlim) hal hfits
    rw [← hv] at hpass
    have hfree : 59 ∉ seg := by
      intro hmem
      have hsep := hplain a List.mem_cons_self
      rw [hseg] at hsep
      exact hsep (List.mem_append_left _ hmem)
    have hlength : v.length = pre.length + seg.length + [c].length := by
      rw [hv]
      simp [Nat.add_assoc]
    rw [attrLoop_pass hfree (.inr rfl) hlength hpass, attrLoop]
  | cons b as ih =>
    obtain ⟨ha, hbs⟩ := List.forall_mem_cons.1 hname
    obtain ⟨hal, hls⟩ := List.forall_mem_cons.1 hlen
    obtain ⟨hfree, hrest⟩ := List.forall_mem_cons.1 hplain
    have htext : 32 :: (a.1 ++ 61 :: a.2) ++ (b :: as).flatMap attrText
        = 32 :: (a.1 ++ 61 :: a.2) ++ 59 :: (32 :: (b.1 ++ 61 :: b.2) ++ as.flatMap attrText) := rfl
    rw [htext] at hv ⊢
    have hseg : 32 :: (a.1 ++ 61 :: a.2) ++ [59] = 32 :: (a.1 ++ 61 :: (a.2 ++ [59])) := by simp
    have hpass := @attrSegment_attr name dflt pre a.1 _ _ _ 59 ha hseg (hv ▸ hlim) hal hfits
    rw [← hv] at hpass
    have hlength := congrArg List.length hv
    rw [List.length_append, List.length_append, ← Nat.add_assoc] at hlength
    rw [attrLoop_pass hfree (.inl rfl) hlength hpass]
    have hnext : v = pre ++ (32 :: (a.1 ++ 61 :: a.2) ++ [59]) ++
        (32 :: (b.1 ++ 61 :: b.2) ++ as.flatMap attrText) := by
      rw [hv]
      simp
    have hpos : (pre ++ (32 :: (a.1 ++ 61 :: a.2) ++ [59])).length
        = pre.length + (32 :: (a.1 ++ 61 :: a.2)).length + 1 := by
      simp only [List.length_append, List.length_singleton, Nat.add_assoc]
    rw [← hpos]
    exact ih _ hbs hls hnext hrest

end Loop

/-! ## The whole value -/

namespace AttrValue

variable (v : AttrValue) {name dflt : Bytes}

theorem not_mem_head {c : UInt8} (hc : isAttrSep c = true) : c ∉ v.head := by
  intro hmem
  rw [v.head_plain c hmem] at hc
  cases hc

/-- Under a name as long as the longest one nothing is found. -/
theorem attr_long (hne : v.attrs ≠ []) (hlen : ∀ a ∈ v.attrs, a.1.length ≤ name.length)
    (hname : name.length < textLimit) :
    attr v.text name dflt = none ∨ attr v.text name dflt = some dflt := by
  obtain ⟨a, as, hattrs⟩ := List.exists_cons_of_ne_nil hne
  have htext : v.text = v.head ++ 59 :: (32 :: (a.1 ++ 61 :: a.2) ++ as.flatMap attrText) := by
    rw [text, hattrs]
    rfl
  have hplain := v.name_plain
  have hvalue := v.value_plain
  rw [hattrs] at hplain hvalue hlen
  have hlength := congrArg List.length htext
  rw [List.length_append] at hlength
  have hstart : v.text.length = 0 + v.head.length
      + (59 :: (32 :: (a.1 ++ 61 :: a.2) ++ as.flatMap attrText)).length := by omega
  have hin : v.head.length < v.text.length := by
    rw [hlength, List.length_cons]
    omega
  have hfree : 61 ∉ v.text.take (v.head.length + 1) := by
    rw [htext, List.take_length_add_append]
    simp [v.not_mem_head (show isAttrSep 61 = true by decide)]
  have hsplit : v.text = v.head ++ [59] ++ (32 :: (a.1 ++ 61 :: a.2) ++ as.flatMap attrText) := by
    rw [htext]
    simp
  have hpos : (v.head ++ [59]).length = v.head.length + 1 := by simp
  have hloop := @attrLoop_attrs v.text name dflt a as (v.head ++ [59]) hplain hvalue hlen hname
    hsplit v.fits
  rw [hpos] at hloop
  have hscan : attr v.text name dflt = attrLoop v.text name dflt 59 61
      (59 :: (32 :: (a.1 ++ 61 :: a.2) ++ as.flatMap attrText)) v.head.length 0 := by
    have hscan := @attrLoop_scan v.text name dflt v.head _ 0 0
      (v.not_mem_head (show isAttrSep 59 = true by decide)) (List.cons_ne_nil _ _) hstart
    rw [← htext, Nat.zero_add] at hscan
    exact hscan
  rw [hscan, attrLoop, if_pos (Or.inl rfl)]
  rcases @attrSegment_noVal v.text name dflt 0 v.head.length hfree hin (Nat.zero_le _) v.fits hname
    with ⟨hseg, -⟩ | hseg | hseg
  · rw [hseg]
    exact .inl rfl
  · rw [hseg]
    exact .inr hloop
  · rw [hseg]
    exact .inr rfl

/-- A value without attributes is one segment. -/
theorem attr_bare {seg : Bytes} {c : UInt8} (hattrs : v.attrs = []) (hhead : v.head = seg ++ [c]) :
    61 ∉ v.text.take (seg.length + 1) ∧ v.text.length = seg.length + 1 ∧
      attr v.text name dflt = attrLoop v.text name dflt 59 61 [c] seg.length 0 := by
  have htext : v.text = seg ++ [c] := by rw [text, hattrs, List.flatMap_nil, List.append_nil, hhead]
  have hlength : v.text.length = seg.length + 1 := by
    rw [htext, List.length_append, List.length_singleton]
  have hvalSep := v.not_mem_head (show isAttrSep 61 = true by decide)
  have hattrSep := v.not_mem_head (show isAttrSep 59 = true by decide)
  rw [hhead, ← htext] at hvalSep hattrSep
  refine ⟨fun hmem => hvalSep (List.mem_of_mem_take hmem), hlength, ?_⟩
  have hfree : 59 ∉ seg := by
    intro hmem
    rw [htext] at hattrSep
    exact hattrSep (List.mem_append_left _ hmem)
  have hscan := @attrLoop_scan v.text name dflt seg [c] 0 0 hfree (List.cons_ne_nil _ _)
    (by simpa using hlength)
  rw [← htext, Nat.zero_add] at hscan
  exact hscan

/-- Some attribute has a name that no other is longer than. -/
theorem exists_longest (hne : v.attrs ≠ []) :
    ∃ a ∈ v.attrs, ∀ b ∈ v.attrs, b.1.length ≤ a.1.length := by
  have hset : v.attrs.toFinset.Nonempty := List.toFinset_nonempty_iff _ |>.2 hne
  obtain ⟨a, ha, hmax⟩ := v.attrs.toFinset.exists_max_image (fun a => a.1.length) hset
  exact ⟨a, List.mem_toFinset.1 ha, fun b hb => hmax b (List.mem_toFinset.2 hb)⟩

theorem name_fits {a : Bytes × Bytes} (ha : a ∈ v.attrs) : a.1.length < textLimit := by
  have hpart : (attrText a).length ≤ (v.attrs.flatMap attrText).length :=
    (List.sublist_flatten_of_mem (List.mem_map_of_mem ha)).length_le
  have hfits := v.fits
  simp only [List.length_append, attrText, List.length_cons] at hfits hpart
  omega

/-- `attr` does what it is to do only where there is no attribute, and then if the value is empty or
    has at least three characters. -/
theorem found_iff : v.Found ↔ v.attrs = [] ∧ (v.head = [] ∨ 3 ≤ v.head.length) := by
  constructor
  · intro h
    have hattrs : v.attrs = [] := by
      by_contra hne
      -- the attribute with the longest name is not found: the default is returned, if anything
      obtain ⟨a, ha, hmax⟩ := v.exists_longest hne
      have hfound := h.present a ha a.1 rfl (0 :: a.2)
      rcases @v.attr_long a.1 (0 :: a.2) hne hmax (v.name_fits ha) with hlost | hlost
      · rw [hfound] at hlost
        cases hlost
      · rw [hfound, Option.some.injEq] at hlost
        exact List.cons_ne_self _ _ hlost.symm
    refine ⟨hattrs, ?_⟩
    by_contra hshort
    obtain ⟨hne, hlen⟩ := not_or.1 hshort
    obtain ⟨seg, c, hhead⟩ := (List.eq_nil_or_concat v.head).resolve_left hne
    rw [List.concat_eq_append] at hhead
    obtain ⟨hfree, hlength, hattr⟩ := @v.attr_bare [] [] seg c hattrs hhead
    have hfound := h.absent [] (by decide) (by simp [hattrs]) []
    have hi : seg.length < 2 := by
      rw [hhead, List.length_append, List.length_singleton] at hlen
      omega
    have hout := @attrSegment_outside v.text [] [] seg.length hfree hi v.fits
    have hlast : c = 59 ∨ seg.length = v.text.length - 1 := .inr (by omega)
    rw [hattr, attrLoop, if_pos hlast, hout] at hfound
    cases hfound
  · rintro ⟨hattrs, hlen⟩
    refine ⟨by simp [hattrs], fun name hname _ dflt => ?_⟩
    rcases List.eq_nil_or_concat v.head with hnil | ⟨seg, c, hhead⟩
    · rw [text, hattrs, hnil]
      rfl
    · rw [List.concat_eq_append] at hhead
      obtain ⟨hfree, hlength, hattr⟩ := @v.attr_bare name dflt seg c hattrs hhead
      have hlast : c = 59 ∨ seg.length = v.text.length - 1 := .inr (by omega)
      have hlong : ¬ seg.length < 2 := by
        rw [hhead, List.length_append, List.length_singleton] at hlen
        rcases hlen with hnil | hlen
        · cases List.append_eq_nil_iff.1 hnil |>.2
        · omega
      rw [hattr, attrLoop, if_pos hlast]
      rcases @attrSegment_noVal v.text name dflt 0 seg.length hfree (by omega) (Nat.zero_le _) v.fits
        hname with ⟨-, hshort⟩ | hseg | hseg
      · exact absurd hshort hlong
      · rw [hseg, attrLoop]
      · rw [hseg]

end AttrValue

/-- `text/html; charset=utf-8`. -/
def htmlUtf8 : AttrValue where
  head := bytes "text/html"
  attrs := [(bytes "charset", bytes "utf-8")]
  head_plain := forall_mem_of_all (by decide)
  name_plain := by
    intro a ha
    obtain rfl := List.mem_singleton.1 ha
    exact forall_mem_of_all (by decide)
  value_plain := by decide
  distinct := by decide
  fits := by decide

/-- The default is returned for an attribute that is there. -/
theorem attr_charset_lost :
    attr htmlUtf8.text (bytes "charset") = some [] ∧ ¬ htmlUtf8.Found := by
  have hlost : attr htmlUtf8.text (bytes "charset") = some [] := by decide
  refine ⟨hlost, fun h => ?_⟩
  have hfound := h.present (bytes "charset", bytes "utf-8") List.mem_cons_self (bytes "charset") rfl []
  rw [hlost] at hfound
  exact absurd hfound (by decide)

end LibEvmvc
