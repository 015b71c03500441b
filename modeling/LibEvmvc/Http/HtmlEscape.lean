import LibEvmvc.Http.Headers
import LibEvmvc.Http.HtmlEntities
import LibEvmvc.Http.UriCode

set_option autoImplicit false

/-! # HTML text

`html_escape` is the escaping of libevent. `html_unescape` reads what stands between a `&` and a `;` as
the name of an entity, or behind a `#` as the number of a character. The number is read from a place
where the `#` or the `x` still stands in front of it, and comes out as 0 (`numericEntity_zero`). -/

namespace LibEvmvc

/-! ## Escaping -/

/-- What `evhttp_htmlescape` writes for a character. -/
def htmlReplacement (c : UInt8) : Bytes :=
  if c = 60 then bytes "&lt;"
  else if c = 62 then bytes "&gt;"
  else if c = 34 then bytes "&quot;"
  else if c = 39 then bytes "&#039;"
  else if c = 38 then bytes "&amp;"
  else [c]

/-- The documented behaviour of `evhttp_htmlescape`. -/
def EscapesHtml (evhttpHtmlescape : Bytes → Bytes) : Prop :=
  ∀ s, evhttpHtmlescape s = s.flatMap htmlReplacement

/-- `html_escape`: the text goes in and comes out as a C string. -/
def htmlEscape (evhttpHtmlescape : Bytes → Bytes) (s : Bytes) : Bytes :=
  cstr (evhttpHtmlescape (cstr s))

/-! ## Unescaping -/

/-- The value of a decimal digit. -/
def decVal? (c : UInt8) : Option Nat := if 48 ≤ c ∧ c ≤ 57 then some (c.toNat - 48) else none

/-- The decimal digits `strtol` reads, with the number so far. -/
def strtolDecimals : Nat → Bytes → Nat
  | n, [] => n
  | n, c :: t =>
    match decVal? c with
    | some d => strtolDecimals (n * 10 + d) t
    | none => n

/-- `strtol(t, nullptr, 10)`: blanks, a sign, digits. -/
def strtol10 (t : Bytes) : Int :=
  match t.dropWhile isspace with
  | 43 :: t => strtolDecimals 0 t
  | 45 :: t => -strtolDecimals 0 t
  | t => strtolDecimals 0 t

/-- A number that is too large for a `long` becomes the closest one that is not. -/
def clampLong (n : Int) : Int :=
  if n < -9223372036854775808 then -9223372036854775808
  else if 9223372036854775807 < n then 9223372036854775807
  else n

/-- `(unsigned char)` of a `long`. -/
def charOfLong (n : Int) : UInt8 := UInt8.ofNat (clampLong n % 256).toNat

/-- The characters an entity is made of. -/
def isEntityChar (c : UInt8) : Bool := isAlnum c || c == 35

/-- A name in the table, in UTF-8. -/
def namedEntity? (entity : Bytes) : Option Bytes :=
  (htmlEntities.find? fun e => asciiBytes e.1 == entity).map fun e =>
    e.2.flatMap fun n => String.utf8EncodeChar (Char.ofNat n)

/-- The text of an entity, what stands between its `&` and its `;`, decoded. -/
def entityText (entity : Bytes) : Bytes :=
  match entity with
  | 35 :: c :: t =>
    if c = 120 ∨ c = 88 then [charOfLong (strtol16 (cstr (c :: t)))]
    else [charOfLong (strtol10 (cstr (35 :: c :: t)))]
  | _ => (namedEntity? entity).getD (38 :: entity ++ [59])

/-- The loop of `html_unescape`; the first argument counts the characters that `i = ei` skips. -/
def htmlUnescapeLoop : Nat → Bytes → Bytes
  | _, [] => []
  | k + 1, _ :: t => htmlUnescapeLoop k t
  | 0, c :: t =>
    if c = 38 ∧ (t.dropWhile isEntityChar).head? = some 59 then
      entityText (t.takeWhile isEntityChar)
        ++ htmlUnescapeLoop ((t.takeWhile isEntityChar).length + 1) t
    else c :: htmlUnescapeLoop 0 t

/-- `html_unescape`. -/
def htmlUnescape (s : Bytes) : Bytes := if s = [] ∨ 38 ∉ s then s else htmlUnescapeLoop 0 s

/-! ## Single entities -/

/-- The named entities that `html_escape` writes. -/
def escapedNames : List (Bytes × UInt8) :=
  [(asciiBytes "lt", 60), (asciiBytes "gt", 62), (asciiBytes "quot", 34), (asciiBytes "amp", 38)]

theorem namedEntity_escaped :
    ∀ e ∈ escapedNames, namedEntity? e.1 = some [e.2] ∧ e.1.all isEntityChar = true ∧
      e.1.head? ≠ some 35 := by
  decide +kernel

/-- No digit is read from a text that begins with a `#`. -/
theorem strtol10_hash (t : Bytes) : strtol10 (35 :: t) = 0 := rfl

theorem strtol16_x {c : UInt8} (t : Bytes) (hc : c = 120 ∨ c = 88) : strtol16 (c :: t) = 0 := by
  rcases hc with rfl | rfl <;> rfl

/-- Whatever number an entity names, it is read as 0. -/
theorem numericEntity_zero (c : UInt8) (t : Bytes) : entityText (35 :: c :: t) = [0] := by
  rw [entityText]
  split
  · next hx =>
    have hcstr : cstr (c :: t) = c :: cstr t := by
      rw [cstr, List.takeWhile_cons_of_pos]
      · rfl
      · rcases hx with rfl | rfl <;> rfl
    rw [hcstr, strtol16_x _ hx]
    rfl
  · rw [show cstr (35 :: c :: t) = 35 :: cstr (c :: t) from rfl, strtol10_hash]
    rfl

/-- What the loop has been told to skip is skipped. -/
theorem htmlUnescapeLoop_skip (x t : Bytes) :
    htmlUnescapeLoop x.length (x ++ t) = htmlUnescapeLoop 0 t := by
  induction x with
  | nil => rw [List.nil_append, List.length_nil]
  | cons c x ih => rw [List.length_cons, List.cons_append, htmlUnescapeLoop, ih]

/-- An entity in front of any text. -/
theorem htmlUnescapeLoop_entity {e : Bytes} (he : ∀ c ∈ e, isEntityChar c = true) (t : Bytes) :
    htmlUnescapeLoop 0 (38 :: (e ++ 59 :: t)) = entityText e ++ htmlUnescapeLoop 0 t := by
  have hend : isEntityChar 59 = false := by decide
  have htake : (e ++ 59 :: t).takeWhile isEntityChar = e := by
    rw [List.takeWhile_append_of_pos he, List.takeWhile_cons_of_neg (by simp [hend]), List.append_nil]
  have hdrop : (e ++ 59 :: t).dropWhile isEntityChar = 59 :: t := by
    rw [List.dropWhile_append_of_pos he, List.dropWhile_cons_of_neg (by simp [hend])]
  have hskip : htmlUnescapeLoop (e.length + 1) (e ++ 59 :: t) = htmlUnescapeLoop 0 t := by
    have hlen : e.length + 1 = (e ++ [59]).length := by simp
    rw [hlen, ← htmlUnescapeLoop_skip (e ++ [59]) t, List.append_assoc, List.singleton_append]
  rw [htmlUnescapeLoop, htake, hdrop, if_pos ⟨rfl, rfl⟩, hskip]

/-! ## Escaped text -/

/-- What is left of a character that has been escaped and unescaped. -/
def escapedBack (c : UInt8) : UInt8 := if c = 39 then 0 else c

theorem htmlUnescapeLoop_named {e : Bytes} {c : UInt8} (t : Bytes)
    (hmem : (e, c) ∈ escapedNames) :
    htmlUnescapeLoop 0 (38 :: (e ++ 59 :: t)) = c :: htmlUnescapeLoop 0 t := by
  obtain ⟨hnamed, hchars, hhash⟩ := namedEntity_escaped (e, c) hmem
  have htext : entityText e = [c] := by
    unfold entityText
    split
    · exact absurd rfl hhash
    · rw [hnamed, Option.getD_some]
  rw [htmlUnescapeLoop_entity (List.all_eq_true.1 hchars), htext, List.singleton_append]

theorem htmlUnescapeLoop_replacement (c : UInt8) (t : Bytes) :
    htmlUnescapeLoop 0 (htmlReplacement c ++ t) = escapedBack c :: htmlUnescapeLoop 0 t := by
  unfold htmlReplacement escapedBack
  by_cases hlt : c = 60
  · subst hlt
    exact htmlUnescapeLoop_named (e := asciiBytes "lt") t (by simp [escapedNames])
  by_cases hgt : c = 62
  · subst hgt
    exact htmlUnescapeLoop_named (e := asciiBytes "gt") t (by simp [escapedNames])
  by_cases hquot : c = 34
  · subst hquot
    exact htmlUnescapeLoop_named (e := asciiBytes "quot") t (by simp [escapedNames])
  by_cases hapos : c = 39
  · subst hapos
    exact htmlUnescapeLoop_entity (e := asciiBytes "#039") (forall_mem_of_all (by decide)) t
  by_cases hamp : c = 38
  · subst hamp
    exact htmlUnescapeLoop_named (e := asciiBytes "amp") t (by simp [escapedNames])
  · rw [if_neg hlt, if_neg hgt, if_neg hquot, if_neg hapos, if_neg hamp, if_neg hapos,
      List.singleton_append, htmlUnescapeLoop, if_neg fun h => hamp h.1]

theorem htmlUnescapeLoop_escaped (s : Bytes) :
    htmlUnescapeLoop 0 (s.flatMap htmlReplacement) = s.map escapedBack := by
  induction s with
  | nil => rfl
  | cons c s ih => rw [List.flatMap_cons, htmlUnescapeLoop_replacement, ih, List.map_cons]

/-- A text without `&` has nothing to be decoded. -/
theorem htmlUnescapeLoop_plain {s : Bytes} (h : 38 ∉ s) : htmlUnescapeLoop 0 s = s := by
  induction s with
  | nil => rfl
  | cons c s ih =>
    rw [List.mem_cons, not_or] at h
    rw [htmlUnescapeLoop, if_neg fun hc => h.1 hc.1.symm, ih h.2]

theorem htmlUnescape_eq_loop (s : Bytes) : htmlUnescape s = htmlUnescapeLoop 0 s := by
  unfold htmlUnescape
  split
  · next h =>
    rcases h with rfl | hplain
    · rfl
    · exact (htmlUnescapeLoop_plain hplain).symm
  · rfl

theorem noNul_htmlReplacement {c : UInt8} (hc : c ≠ 0) : 0 ∉ htmlReplacement c := by
  unfold htmlReplacement
  split_ifs <;> first | decide | simpa using hc.symm

/-- Escaping and unescaping a text without NUL loses the apostrophes and nothing else. -/
theorem htmlUnescape_htmlEscape {f : Bytes → Bytes} (hf : EscapesHtml f) {s : Bytes} (hs : 0 ∉ s) :
    htmlUnescape (htmlEscape f s) = s.map escapedBack := by
  have hnul : 0 ∉ s.flatMap htmlReplacement := by
    intro hmem
    obtain ⟨c, hc, h0⟩ := List.mem_flatMap.1 hmem
    exact noNul_htmlReplacement (fun h => hs (h ▸ hc)) h0
  rw [htmlEscape, cstr_of_noNul hs, hf, cstr_of_noNul hnul, htmlUnescape_eq_loop,
    htmlUnescapeLoop_escaped]

/-- A text survives escaping and unescaping exactly when it has no apostrophe. -/
theorem html_roundTrip_iff {f : Bytes → Bytes} (hf : EscapesHtml f) {s : Bytes} (hs : 0 ∉ s) :
    htmlUnescape (htmlEscape f s) = s ↔ 39 ∉ s := by
  rw [htmlUnescape_htmlEscape hf hs]
  constructor
  · intro hmap hapos
    have hzero : escapedBack 39 ∈ s.map escapedBack := List.mem_map_of_mem hapos
    rw [hmap] at hzero
    exact hs hzero
  · intro hapos
    refine (List.map_congr_left fun c hc => ?_).trans (List.map_id s)
    have hne : c ≠ 39 := fun h => hapos (h ▸ hc)
    exact if_neg hne

theorem html_roundTrip_tag :
    (0 : UInt8) ∉ bytes "<a&lt;" ∧
      (htmlUnescape (htmlEscape (·.flatMap htmlReplacement) (bytes "<a&lt;")) = bytes "<a&lt;" ↔
        39 ∉ bytes "<a&lt;") :=
  ⟨by decide, html_roundTrip_iff (fun _ => rfl) (by decide)⟩

/-- An apostrophe comes back as a NUL. -/
theorem html_apostrophe_lost :
    EscapesHtml (·.flatMap htmlReplacement) ∧ 0 ∉ bytes "'" ∧
      htmlUnescape (htmlEscape (·.flatMap htmlReplacement) (bytes "'")) ≠ bytes "'" :=
  ⟨fun _ => rfl, by decide, by decide⟩

end LibEvmvc
