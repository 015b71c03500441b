import LibEvmvc.Http.Headers
import Mathlib.Data.List.DropRight

set_option autoImplicit false

/-! # Flags of a header value

`header_t::flag` cuts a value at every `;` and `=` and looks for a piece that is the given name, up to
case and the blanks around it. `request_t` asks it what kind of body a request has. The last
character of the value is never taken for a separator (`flag_of_piece` has to know that one follows
it, or none). -/

namespace LibEvmvc

/-- Blanks at both ends removed. -/
def strip (b : Bytes) : Bytes := (b.dropWhile isspace).rdropWhile isspace

/-- The length test and `strncasecmp` of `flag`, on a piece. -/
def pieceIs (piece name : Bytes) : Bool :=
  (strip piece).length == name.length && lower (cstr (strip piece)) == lower (cstr name)

/-- The loop of `flag` from index `i` on, with the piece that begins at `vs`. -/
def flagLoop (v name attrSep : Bytes) : Bytes → Nat → Nat → Bool
  | [], _, _ => false
  | c :: rest, i, vs =>
    if c ∈ attrSep ∨ i = v.length - 1 then
      -- the last character belongs to the piece, be it a separator or not
      let ve := if i = v.length - 1 then i + 1 else i
      if pieceIs (substr v vs (ve - vs)) name then true
      else flagLoop v name attrSep rest (i + 1) (ve + 1)
    else flagLoop v name attrSep rest (i + 1) vs

/-- `;` and `=`. -/
def attrSeps : Bytes := [59, 61]

/-- `header_t::flag`. -/
def flag (v name : Bytes) (attrSep : Bytes := attrSeps) : Bool := flagLoop v name attrSep v 0 0

def enctypeUrlencoded : Bytes := bytes "application/x-www-form-urlencoded"

def enctypeMultipart : Bytes := bytes "multipart/form-data"

def enctypeText : Bytes := bytes "text/plain"

def contentTypeName : Bytes := bytes "Content-Type"

/-- A content type flag of `request_t`. -/
def contentFlag (hdrs : HeaderMap) (name : Bytes) : Bool :=
  match hdrs.getFirst contentTypeName with
  | none => false
  | some v => flag v name

/-- `request_t::is_json`. -/
def isJson (hdrs : HeaderMap) : Bool := contentFlag hdrs (bytes "application/json")

/-- `request_t::is_form_url_encoded`. -/
def isFormUrlEncoded (hdrs : HeaderMap) : Bool := contentFlag hdrs enctypeUrlencoded

/-- `request_t::is_multipart_form_data`. -/
def isMultipartFormData (hdrs : HeaderMap) : Bool := contentFlag hdrs enctypeMultipart

/-- Where a part of a split text stands in it. -/
theorem place_of_splitOn {s : Bytes} {sep : UInt8} {before after : List Bytes} {seg : Bytes}
    (h : s.splitOn sep = before ++ seg :: after) :
    ∃ pre post, s = pre ++ seg ++ post ∧ (pre = [] ∨ ∃ p, pre = p ++ [sep]) ∧
      (post = [] ∨ ∃ t, post = sep :: t) := by
  have hjoin : [sep].intercalate (s.splitOn sep) = s := List.intercalate_splitOn sep
  rw [h] at hjoin
  rw [← hjoin]
  clear hjoin h
  induction before with
  | nil =>
    cases after with
    | nil => exact ⟨[], [], by simp, .inl rfl, .inl rfl⟩
    | cons a after =>
      refine ⟨[], sep :: [sep].intercalate (a :: after), ?_, .inl rfl, .inr ⟨_, rfl⟩⟩
      rw [List.nil_append, List.intercalate_cons_cons]
      simp
  | cons b before ih =>
    obtain ⟨pre, post, heq, hpre, hpost⟩ := ih
    refine ⟨b ++ sep :: pre, post, ?_, ?_, hpost⟩
    · rw [List.cons_append, List.intercalate_cons_of_ne_nil (by simp), heq]
      simp
    · rcases hpre with rfl | ⟨p, rfl⟩
      · exact .inr ⟨b, by simp⟩
      · exact .inr ⟨b ++ sep :: p, by simp⟩

/-! ## A piece is found -/

section Flag

variable {name attrSep : Bytes}

/-- The scan gets past a separator, or has found what it looks for. -/
theorem flagLoop_sep (v p rest : Bytes) (s : UInt8) (i vs : Nat) (hs : s ∈ attrSep)
    (hrest : rest ≠ []) (hlen : v.length = i + p.length + 1 + rest.length) :
    flagLoop v name attrSep (p ++ s :: rest) i vs = true ∨
      flagLoop v name attrSep (p ++ s :: rest) i vs
        = flagLoop v name attrSep rest (i + p.length + 1) (i + p.length + 1) := by
  have hpos : 0 < rest.length := List.length_pos_iff.2 hrest
  induction p generalizing i vs with
  | nil =>
    have hlast : ¬ i = v.length - 1 := by
      simp only [List.length_nil] at hlen
      omega
    rw [List.nil_append, flagLoop, if_pos (Or.inl hs)]
    simp only [if_neg hlast]
    split
    · exact .inl rfl
    · exact .inr rfl
  | cons c p ih =>
    simp only [List.length_cons] at hlen
    have hlast : ¬ i = v.length - 1 := by omega
    have hnext : i + 1 + p.length + 1 = i + (c :: p).length + 1 := by
      simp only [List.length_cons]
      omega
    rw [List.cons_append, flagLoop, ← hnext]
    by_cases hc : c ∈ attrSep ∨ i = v.length - 1
    · rw [if_pos hc]
      simp only [if_neg hlast]
      split
      · exact .inl rfl
      · exact ih (i + 1) (i + 1) (by omega)
    · rw [if_neg hc]
      exact ih (i + 1) vs (by omega)

/-- The scan of a piece: it is compared when it is over. -/
theorem flagLoop_piece (pre y x post : Bytes) (hx : ∀ c ∈ x, c ∉ attrSep)
    (hpost : post = [] ∧ x ≠ [] ∨ ∃ s t, post = s :: t ∧ s ∈ attrSep ∧ t ≠ [])
    (h : pieceIs (y ++ x) name = true) :
    flagLoop (pre ++ ((y ++ x) ++ post)) name attrSep (x ++ post) (pre ++ y).length pre.length
      = true := by
  induction x generalizing y with
  | nil =>
    rcases hpost with ⟨-, hx'⟩ | ⟨s, t, rfl, hs, ht⟩
    · exact absurd rfl hx'
    · have hpos : 0 < t.length := List.length_pos_iff.2 ht
      have hlast : ¬ (pre ++ y).length = (pre ++ ((y ++ []) ++ s :: t)).length - 1 := by
        simp only [List.length_append, List.length_cons, List.length_nil]
        omega
      have hcut : substr (pre ++ ((y ++ []) ++ s :: t)) pre.length ((pre ++ y).length - pre.length)
          = y ++ [] := by
        simp [substr]
      rw [List.nil_append, flagLoop, if_pos (Or.inl hs)]
      simp only [if_neg hlast, hcut, h, if_true]
  | cons c x ih =>
    have hc : c ∉ attrSep := hx c List.mem_cons_self
    by_cases hlast : (pre ++ y).length = (pre ++ ((y ++ c :: x) ++ post)).length - 1
    · have hend : x = [] ∧ post = [] := by
        simp only [List.length_append, List.length_cons] at hlast
        exact ⟨List.length_eq_zero_iff.1 (by omega), List.length_eq_zero_iff.1 (by omega)⟩
      obtain ⟨rfl, rfl⟩ := hend
      have hcut : substr (pre ++ ((y ++ [c]) ++ [])) pre.length ((pre ++ y).length + 1 - pre.length)
          = y ++ [c] := by
        have hlen : (pre ++ y).length + 1 - pre.length = (y ++ [c]).length := by
          simp only [List.length_append, List.length_singleton]
          omega
        rw [hlen, substr_mid]
      rw [List.cons_append, flagLoop, if_pos (Or.inr hlast)]
      simp only [if_pos hlast, hcut, h, if_true]
    · have hassoc : y ++ c :: x = (y ++ [c]) ++ x := by simp
      have hpost' : post = [] ∧ x ≠ [] ∨ ∃ s t, post = s :: t ∧ s ∈ attrSep ∧ t ≠ [] := by
        rcases hpost with ⟨rfl, -⟩ | hpost
        · refine .inl ⟨rfl, ?_⟩
          rintro rfl
          simp at hlast
        · exact .inr hpost
      have hnext : (pre ++ y).length + 1 = (pre ++ (y ++ [c])).length := by
        simp only [List.length_append, List.length_singleton]
        omega
      rw [List.cons_append, flagLoop, if_neg (not_or.2 ⟨hc, hlast⟩), hassoc, hnext]
      exact ih (y ++ [c]) (fun d hd => hx d (List.mem_cons_of_mem _ hd)) hpost' (hassoc ▸ h)

/-- **A piece of the value is found** when it is between separators or at the ends, and the
    separator after it is not the value's last character. -/
theorem flag_of_piece (pre x post : Bytes) (hpre : pre = [] ∨ ∃ p s, pre = p ++ [s] ∧ s ∈ attrSep)
    (hx : ∀ c ∈ x, c ∉ attrSep) (hne : x ≠ [])
    (hpost : post = [] ∨ ∃ s t, post = s :: t ∧ s ∈ attrSep ∧ t ≠ [])
    (h : pieceIs x name = true) : flag (pre ++ (x ++ post)) name attrSep = true := by
  have hpost' : post = [] ∧ x ≠ [] ∨ ∃ s t, post = s :: t ∧ s ∈ attrSep ∧ t ≠ [] :=
    hpost.imp_left fun hnil => ⟨hnil, hne⟩
  have hpiece := flagLoop_piece pre [] x post hx hpost' h
  unfold flag
  rcases hpre with rfl | ⟨p, s, rfl, hs⟩
  · exact hpiece
  · have hlen : (p ++ [s] ++ (x ++ post)).length = 0 + p.length + 1 + (x ++ post).length := by
      simp only [List.length_append, List.length_singleton]
      omega
    have hassoc : p ++ [s] ++ (x ++ post) = p ++ s :: (x ++ post) := by simp
    have hat : 0 + p.length + 1 = (p ++ [s]).length := by
      simp only [List.length_append, List.length_singleton]
      omega
    rcases flagLoop_sep (p ++ [s] ++ (x ++ post)) p (x ++ post) s 0 0 hs (by simp [hne]) hlen
      with htrue | heq
    · rw [← hassoc] at htrue
      exact htrue
    · rw [← hassoc, hat] at heq
      rw [heq]
      simpa using hpiece

/-- What the scan finds is a piece of the value. -/
theorem piece_of_flagLoop (pre y rest : Bytes)
    (hpre : pre = [] ∨ ∃ p s, pre = p ++ [s] ∧ s ∈ attrSep)
    (h : flagLoop (pre ++ (y ++ rest)) name attrSep rest (pre ++ y).length pre.length = true) :
    ∃ pre' x post, pre ++ (y ++ rest) = pre' ++ (x ++ post) ∧
      (pre' = [] ∨ ∃ p s, pre' = p ++ [s] ∧ s ∈ attrSep) ∧
      (post = [] ∨ ∃ s t, post = s :: t ∧ s ∈ attrSep ∧ t ≠ []) ∧ pieceIs x name = true := by
  induction rest generalizing pre y with
  | nil => simp [flagLoop] at h
  | cons c rest ih =>
    have hassoc : pre ++ (y ++ c :: rest) = pre ++ ((y ++ [c]) ++ rest) := by simp
    have hnext : (pre ++ y).length + 1 = (pre ++ (y ++ [c])).length := by
      simp only [List.length_append, List.length_singleton]
      omega
    rw [flagLoop] at h
    by_cases hlast : (pre ++ y).length = (pre ++ (y ++ c :: rest)).length - 1
    · -- the last character of the value ends the last piece
      have hrest : rest = [] := by
        simp only [List.length_append, List.length_cons] at hlast
        exact List.length_eq_zero_iff.1 (by omega)
      subst hrest
      have hcut : substr (pre ++ (y ++ [c])) pre.length ((pre ++ y).length + 1 - pre.length)
          = y ++ [c] := by
        have hlen : (pre ++ y).length + 1 - pre.length = (y ++ [c]).length := by
          simp only [List.length_append, List.length_singleton]
          omega
        rw [hlen]
        simpa using substr_mid pre (y ++ [c]) []
      rw [if_pos (Or.inr hlast)] at h
      simp only [if_pos hlast, hcut] at h
      split at h
      · next hpiece => exact ⟨pre, y ++ [c], [], by simp, hpre, .inl rfl, hpiece⟩
      · simp [flagLoop] at h
    · by_cases hc : c ∈ attrSep
      · have hrest : rest ≠ [] := by
          rintro rfl
          simp at hlast
        have hcut : substr (pre ++ (y ++ c :: rest)) pre.length ((pre ++ y).length - pre.length)
            = y := by
          simp [substr]
        rw [if_pos (Or.inl hc)] at h
        simp only [if_neg hlast, hcut] at h
        split at h
        · next hpiece =>
          exact ⟨pre, y, c :: rest, by simp, hpre, .inr ⟨c, rest, rfl, hc, hrest⟩, hpiece⟩
        · have hwhole : pre ++ (y ++ c :: rest) = (pre ++ y ++ [c]) ++ ([] ++ rest) := by simp
          have hsep : (pre ++ y).length + 1 = (pre ++ y ++ [c]).length := by
            simp only [List.length_append, List.length_singleton]
          rw [hwhole, hsep] at h
          rw [hwhole]
          exact ih (pre ++ y ++ [c]) [] (.inr ⟨pre ++ y, c, rfl, hc⟩) (by simpa using h)
      · rw [if_neg (not_or.2 ⟨hc, hlast⟩), hassoc, hnext] at h
        rw [hassoc]
        exact ih pre (y ++ [c]) hpre h

end Flag

/-! ## Names among blanks -/

/-- `md::trim` removes blanks at both ends and nothing else. -/
def TrimsBlanks (trim : Bytes → Bytes) : Prop :=
  ∀ s, ∃ l r, s = l ++ trim s ++ r ∧ (∀ c ∈ l, isspace c = true) ∧ ∀ c ∈ r, isspace c = true

/-- `md::trim`, once it is known what it takes for a blank: a space, and other white space or not. -/
structure TrimsAll (trim : Bytes → Bytes) (blank : UInt8 → Bool) : Prop where
  space : blank 32 = true
  isspace : ∀ c, blank c = true → isspace c = true
  eq : ∀ s, trim s = (s.dropWhile blank).rdropWhile blank

theorem TrimsAll.trimsBlanks {trim : Bytes → Bytes} {blank : UInt8 → Bool} (h : TrimsAll trim blank) :
    TrimsBlanks trim := by
  intro s
  have hleft : s.takeWhile blank ++ s.dropWhile blank = s := List.takeWhile_append_dropWhile
  refine ⟨s.takeWhile blank, (s.dropWhile blank).rtakeWhile blank, ?_, ?_, ?_⟩
  · rw [List.append_assoc, h.eq, List.rdropWhile_append_rtakeWhile, hleft]
  · exact fun c hc => h.isspace c (List.mem_takeWhile_imp hc)
  · exact fun c hc => h.isspace c (List.mem_rtakeWhile_imp hc)

theorem trimsAll_strip : TrimsAll strip isspace := ⟨by decide, fun _ h => h, fun _ => rfl⟩

theorem trimsBlanks_strip : TrimsBlanks strip := trimsAll_strip.trimsBlanks

theorem strip_blanks (l m r : Bytes) (hl : ∀ c ∈ l, isspace c = true)
    (hm : ∀ c ∈ m, isspace c = false) (hr : ∀ c ∈ r, isspace c = true) :
    strip (l ++ m ++ r) = m := by
  have hright : ∀ m : Bytes, (∀ c ∈ m, isspace c = false) → (m ++ r).rdropWhile isspace = m := by
    intro m hm
    induction r using List.reverseRecOn with
    | nil =>
      rw [List.append_nil, List.rdropWhile_eq_self_iff]
      intro hne
      rw [hm _ (List.getLast_mem hne)]
      exact Bool.false_ne_true
    | append_singleton r c ih =>
      rw [← List.append_assoc, List.rdropWhile_concat_pos _ _ _ (hr c (by simp))]
      exact ih fun d hd => hr d (by simp [hd])
  unfold strip
  rw [List.append_assoc, List.dropWhile_append_of_pos hl]
  cases m with
  | nil =>
    have hdrop : (([] : Bytes) ++ r).dropWhile isspace = [] := List.dropWhile_eq_nil_iff.2 hr
    rw [hdrop]
    rfl
  | cons a m =>
    have ha : isspace a = false := hm a List.mem_cons_self
    rw [List.cons_append, List.dropWhile_cons_of_neg (by simp [ha])]
    exact hright (a :: m) hm

/-- A word: no blank, no separator, no NUL. -/
def IsWord (name : Bytes) : Prop := ∀ c ∈ name, isspace c = false ∧ c ≠ 59 ∧ c ≠ 61 ∧ c ≠ 0

instance (name : Bytes) : Decidable (IsWord name) :=
  List.decidableBAll (fun c => isspace c = false ∧ c ≠ 59 ∧ c ≠ 61 ∧ c ≠ 0) name

theorem isWord_enctypes : IsWord enctypeMultipart ∧ IsWord enctypeUrlencoded := by
  decide

theorem lowerByte_cases (c : UInt8) : lowerByte c = c ∨ 65 ≤ c ∧ c ≤ 90 := by
  unfold lowerByte
  split
  · next h => exact .inr (by simpa using h)
  · exact .inl rfl

/-- The case of its letters does not make a text a word. -/
theorem IsWord.of_lower {m : Bytes} (h : IsWord (lower m)) : IsWord m := by
  intro c hc
  rcases lowerByte_cases c with hsame | ⟨hlow, hhigh⟩
  · rw [← hsame]
    exact h _ (List.mem_map_of_mem hc)
  · have hletter : ∀ d : UInt8, d < 65 → c ≠ d := by
      rintro d hd rfl
      exact absurd hlow (UInt8.not_le.2 hd)
    have hspace : isspace c = false := by
      have hblank : ¬ c ≤ 13 := fun hle =>
        absurd (UInt8.le_trans hlow hle : (65 : UInt8) ≤ 13) (by decide)
      simp [isspace, hletter 32 (by decide), hblank]
    exact ⟨hspace, hletter 59 (by decide), hletter 61 (by decide), hletter 0 (by decide)⟩

theorem cstr_of_isWord {m : Bytes} (h : IsWord m) : cstr m = m :=
  cstr_of_noNul fun hnul => (h 0 hnul).2.2.2 rfl

/-- A name between blanks is that name to `flag`, whatever the case. -/
theorem pieceIs_blanks (l m r name : Bytes) (hl : ∀ c ∈ l, isspace c = true)
    (hr : ∀ c ∈ r, isspace c = true) (hname : IsWord name) (hlow : lower name = name)
    (hm : lower m = name) : pieceIs (l ++ m ++ r) name = true := by
  have hword : IsWord m := IsWord.of_lower (hm ▸ hname)
  have hlen : m.length = name.length := by rw [← hm, lower, List.length_map]
  unfold pieceIs
  rw [strip_blanks l m r hl (fun c hc => (hword c hc).1) hr, cstr_of_isWord hword,
    cstr_of_isWord hname, hlow, hm, hlen]
  simp

/-- A piece that is a name to `flag` spells it, between blanks. -/
theorem lower_strip_of_pieceIs {x name : Bytes} (hname : IsWord name) (hlow : lower name = name)
    (h : pieceIs x name = true) : lower (strip x) = name := by
  unfold pieceIs at h
  rw [Bool.and_eq_true, beq_iff_eq, beq_iff_eq, cstr_of_isWord hname, hlow] at h
  obtain ⟨hlen, htext⟩ := h
  have hfull : (cstr (strip x)).length = (strip x).length := by
    rw [hlen, ← htext, lower, List.length_map]
  have hcstr : cstr (strip x) = strip x := (List.takeWhile_prefix _).eq_of_length hfull
  rw [hcstr] at htext
  exact htext

/-- The value mentions a name: it stands there, in any case and among blanks, between two of `;` and
    `=` or at an end; a separator that ends the value does not count. -/
def Mentions (v name : Bytes) : Prop :=
  ∃ pre l m r post, v = pre ++ (l ++ m ++ r ++ post) ∧ lower m = name ∧
    (∀ c ∈ l, isspace c = true) ∧ (∀ c ∈ r, isspace c = true) ∧
    (pre = [] ∨ ∃ p s, pre = p ++ [s] ∧ s ∈ attrSeps) ∧
    (post = [] ∨ ∃ s t, post = s :: t ∧ s ∈ attrSeps ∧ t ≠ [])

/-- **`flag` finds the words that the value mentions.** -/
theorem flag_iff_mentions {v name : Bytes} (hname : IsWord name) (hlow : lower name = name)
    (hne : name ≠ []) : flag v name = true ↔ Mentions v name := by
  constructor
  · intro h
    obtain ⟨pre, x, post, hv, hpre, hpost, hpiece⟩ := piece_of_flagLoop [] [] v (.inl rfl) h
    obtain ⟨l, r, hx, hl, hr⟩ := trimsBlanks_strip x
    refine ⟨pre, l, strip x, r, post, ?_, lower_strip_of_pieceIs hname hlow hpiece, hl, hr, hpre,
      hpost⟩
    rw [← hx]
    simpa using hv
  · rintro ⟨pre, l, m, r, post, rfl, hm, hl, hr, hpre, hpost⟩
    have hword : IsWord m := IsWord.of_lower (hm ▸ hname)
    have hblank : ∀ c, isspace c = true → c ∉ attrSeps := by
      intro c hc hmem
      simp only [attrSeps, List.mem_cons, List.not_mem_nil, or_false] at hmem
      rcases hmem with rfl | rfl <;> cases hc
    have hpiece : ∀ c ∈ l ++ m ++ r, c ∉ attrSeps := by
      intro c hc
      simp only [List.mem_append] at hc
      rcases hc with (hc | hc) | hc
      · exact hblank c (hl c hc)
      · simp [attrSeps, (hword c hc).2.1, (hword c hc).2.2.1]
      · exact hblank c (hr c hc)
    have hm_ne : m ≠ [] := by
      rintro rfl
      exact hne hm.symm
    exact flag_of_piece pre (l ++ m ++ r) post hpre hpiece (by simp [hm_ne]) hpost
      (pieceIs_blanks l m r name hl hr hname hlow hm)

end LibEvmvc
