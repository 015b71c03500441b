import LibEvmvc.Foundation.CppLiteral
import LibEvmvc.Fanjet.PageText

set_option autoImplicit false

/-! # Text in the generated source

Text of the page becomes string literals of C++. `escape_cpp_source` escapes all that has a meaning in a
literal, and ends the literal at the end of a line, so what is read back is the text. `@import` puts the
lines of a file into literals of its own: it escapes only the quotes, and the ends of the lines are gone. -/

namespace LibEvmvc

namespace Fanjet

open CppLiteral

/-! ## Inline text -/

/-- What `escape_cpp_source` writes for a character. -/
def escapeChar (c : UInt8) : Bytes :=
  if c = 92 then [92, 92] else if c = 34 then [92, 34] else if c = 9 then [92, 116]
  else if c = 13 then [92, 114] else if c = 10 then [92, 110, 34, 10, 34] else [c]

section Inline

/-- The replacements do not meet: each character is replaced by itself. -/
theorem escapeCppSource_eq (env : GenEnv) (s : Bytes) :
    escapeCppSource env s = 34 :: (s.flatMap escapeChar ++ [34]) := by
  have hslash : bytes "\\" = [92] := by decide
  have hquote : bytes "\"" = [34] := by decide
  have htab : bytes "\t" = [9] := by decide
  have hcr : bytes "\r" = [13] := by decide
  have hchar : ∀ c, ((if c = 92 then bytes "\\\\" else [c]).flatMap fun c =>
      (if c = 34 then bytes "\\\"" else [c]).flatMap fun c =>
        (if c = 9 then bytes "\\t" else [c]).flatMap fun c =>
          (if c = 13 then bytes "\\r" else [c]).flatMap fun c => if c = 10 then bytes "\\n\"\n\"" else [c])
      = escapeChar c := by
    intro c
    by_cases hc : c = 92 ∨ c = 34 ∨ c = 9 ∨ c = 13 ∨ c = 10
    · rcases hc with rfl | rfl | rfl | rfl | rfl <;> decide
    · simp only [not_or] at hc
      obtain ⟨h92, h34, h9, h13, h10⟩ := hc
      simp only [escapeChar, if_neg h92, if_neg h34, if_neg h9, if_neg h13, if_neg h10,
        List.flatMap_cons, List.flatMap_nil, List.append_nil]
  unfold escapeCppSource
  simp only [env.replace_eq _ _ _ (List.cons_ne_nil _ _), hslash, hquote, htab, hcr, replaceAll_single,
    List.flatMap_assoc, hchar]
  rfl

/-- A character is read as what it was. -/
theorem inside_escapeChar (c : UInt8) (w : Bytes) : inside (escapeChar c ++ w) = (inside w).map (c :: ·) := by
  unfold escapeChar
  by_cases hslash : c = 92
  · rw [if_pos hslash, hslash]
    exact inside_escape rfl w
  by_cases hquote : c = 34
  · rw [if_neg hslash, if_pos hquote, hquote]
    exact inside_escape rfl w
  by_cases htab : c = 9
  · rw [if_neg hslash, if_neg hquote, if_pos htab, htab]
    exact inside_escape rfl w
  by_cases hcr : c = 13
  · rw [if_neg hslash, if_neg hquote, if_neg htab, if_pos hcr, hcr]
    exact inside_escape rfl w
  by_cases hline : c = 10
  · -- the literal ends, and another one begins on the next line
    rw [if_neg hslash, if_neg hquote, if_neg htab, if_neg hcr, if_pos hline, hline]
    have hnext : inside (34 :: 10 :: 34 :: w) = inside w := by
      rw [inside_quote, literalText_cons, if_neg (by decide), if_pos (by decide), literalText_quote]
    exact (inside_escape rfl (34 :: 10 :: 34 :: w)).trans (congrArg (Option.map (10 :: ·)) hnext)
  · rw [if_neg hslash, if_neg hquote, if_neg htab, if_neg hcr, if_neg hline]
    exact inside_plain hquote hline hslash w

theorem inside_escaped (s w : Bytes) :
    inside (s.flatMap escapeChar ++ w) = (inside w).map (s ++ ·) := by
  induction s with
  | nil => simp
  | cons c s ih =>
    rw [List.flatMap_cons, List.append_assoc, inside_escapeChar, ih, Option.map_map]
    rfl

theorem literalText_escaped (s : Bytes) : literalText (34 :: (s.flatMap escapeChar ++ [34])) = some s := by
  rw [literalText_quote, inside_escaped, inside_quote, literalText_nil, Option.map_some, List.append_nil]

/-- **What `escape_cpp_source` writes denotes the text.** -/
theorem escapeCppSource_denotes (env : GenEnv) (s : Bytes) :
    literalText (escapeCppSource env s) = some s := by
  rw [escapeCppSource_eq, literalText_escaped]

end Inline

/-! ## Imported text -/

/-- `std::getline` until the end of the file, with the line it is in. -/
def getLinesLoop : Bytes → Bytes → List Bytes
  | line, [] => if line = [] then [] else [line]
  | line, c :: rest => if c = 10 then line :: getLinesLoop [] rest else getLinesLoop (line ++ [c]) rest

/-- The lines of a file. -/
def getLines (s : Bytes) : List Bytes := getLinesLoop [] s

/-- The literal `@import` writes for a line. -/
def importLine (l : Bytes) : Bytes := 34 :: (replaceAll [34] [92, 34] l ++ [34, 10])

section Import

theorem getLinesLoop_flatten (line s : Bytes) :
    (getLinesLoop line s).flatten = line ++ s.filter (· ≠ 10) := by
  induction s generalizing line with
  | nil =>
    rw [getLinesLoop]
    split
    · next h => simp [h]
    · simp
  | cons c s ih =>
    rw [getLinesLoop]
    split
    · next hc => simp [ih, hc]
    · next hc => simp [ih, hc]

theorem mem_getLinesLoop {line s l : Bytes} (hline : 10 ∉ line) (hl : l ∈ getLinesLoop line s) : 10 ∉ l := by
  induction s generalizing line with
  | nil =>
    rw [getLinesLoop] at hl
    split at hl
    · cases hl
    · rw [List.mem_singleton.1 hl]
      exact hline
  | cons c s ih =>
    rw [getLinesLoop] at hl
    split at hl
    · rcases List.mem_cons.1 hl with rfl | hl
      · exact hline
      · exact ih List.not_mem_nil hl
    · next hc =>
      refine ih ?_ hl
      rw [List.mem_append, List.mem_singleton, not_or]
      exact ⟨hline, Ne.symm hc⟩

/-- A file without ends of lines is one line. -/
theorem getLinesLoop_single {line s : Bytes} (h : 10 ∉ s) :
    getLinesLoop line s = if line ++ s = [] then [] else [line ++ s] := by
  induction s generalizing line with
  | nil => rw [getLinesLoop, List.append_nil]
  | cons c s ih =>
    rw [List.mem_cons, not_or] at h
    rw [getLinesLoop, if_neg (Ne.symm h.1), ih h.2, List.append_assoc]
    rfl

theorem replaceQuotes_eq (l : Bytes) :
    replaceAll [34] [92, 34] l = l.flatMap fun c => if c = 34 then [92, 34] else [c] :=
  replaceAll_single 34 l

theorem replaceQuotes_length (l : Bytes) : (replaceAll [34] [92, 34] l).length = l.length + l.count 34 := by
  rw [replaceQuotes_eq]
  induction l with
  | nil => rfl
  | cons c l ih =>
    rw [List.flatMap_cons, List.length_append, ih, List.length_cons, List.count_cons]
    split
    · next hc =>
      rw [hc, beq_self_eq_true, if_pos rfl, List.length_cons, List.length_singleton]
      omega
    · next hc =>
      rw [if_neg (by simpa using hc), List.length_singleton]
      omega

theorem not_mem_replaceQuotes {l : Bytes} (h : 10 ∉ l) : 10 ∉ replaceAll [34] [92, 34] l := by
  intro hmem
  rcases mem_replaceAll (List.cons_ne_nil _ _) hmem with hr | hs
  · revert hr
    decide
  · exact h hs

/-- What the lines denote costs no more than their characters and quotes. -/
theorem literalText_lines (ls : List Bytes) (hls : ∀ l ∈ ls, 10 ∉ l) {t : Bytes}
    (ht : literalText (ls.flatMap importLine) = some t) :
    textCost t ≤ ls.flatten.length + ls.flatten.count 34 := by
  induction ls generalizing t with
  | nil =>
    cases ht
    exact Nat.zero_le _
  | cons l ls ih =>
    have hline : 10 ∉ replaceAll [34] [92, 34] l ++ [34] := by
      rw [List.mem_append, not_or]
      exact ⟨not_mem_replaceQuotes (hls l List.mem_cons_self), by decide⟩
    have hsplit : (l :: ls).flatMap importLine
        = 34 :: (replaceAll [34] [92, 34] l ++ [34] ++ 10 :: ls.flatMap importLine) := by
      rw [List.flatMap_cons, importLine]
      simp
    rw [hsplit, literalText_quote] at ht
    obtain ⟨t₁, t₂, rfl, hrest, hle⟩ := (literals_line hline).2 t ht
    have hrest' := ih (fun l' hl' => hls l' (List.mem_cons_of_mem l hl')) hrest
    rw [List.length_append, List.length_singleton, replaceQuotes_length] at hle
    rw [textCost_append, List.flatten_cons, List.length_append, List.count_append]
    omega

/-- What a text costs at least. -/
theorem textCost_eq (s : Bytes) : textCost s = s.length + s.count 34 + s.count 92 := by
  induction s with
  | nil => rfl
  | cons c s ih =>
    rw [textCost_cons, ih, List.length_cons, List.count_cons, List.count_cons, cost]
    by_cases hquote : c = 34
    · simp [hquote]
      omega
    · by_cases hslash : c = 92
      · simp [hslash]
        omega
      · simp [hquote, hslash]
        omega

theorem inside_quotes {s : Bytes} (hline : 10 ∉ s) (hslash : 92 ∉ s) (w : Bytes) :
    inside (replaceAll [34] [92, 34] s ++ w) = (inside w).map (s ++ ·) := by
  rw [replaceQuotes_eq]
  induction s with
  | nil => simp
  | cons c s ih =>
    rw [List.mem_cons, not_or] at hline hslash
    rw [List.flatMap_cons, List.append_assoc]
    by_cases hquote : c = 34
    · rw [if_pos hquote, hquote, List.cons_append, List.singleton_append, inside_escape rfl,
        ih hline.2 hslash.2, Option.map_map]
      rfl
    · rw [if_neg hquote, List.singleton_append,
        inside_plain hquote (Ne.symm hline.1) (Ne.symm hslash.1), ih hline.2 hslash.2, Option.map_map]
      rfl

/-- The literals for the lines of a file denote it exactly if it has no end of a line and no backslash. -/
theorem literalText_import_iff (s : Bytes) :
    literalText ((getLines s).flatMap importLine) = some s ↔ 10 ∉ s ∧ 92 ∉ s := by
  constructor
  · intro h
    have hle : textCost s ≤ (getLines s).flatten.length + (getLines s).flatten.count 34 :=
      literalText_lines (getLines s) (fun l hl => mem_getLinesLoop List.not_mem_nil hl) h
    have hflatten : (getLines s).flatten = s.filter (· ≠ 10) := getLinesLoop_flatten [] s
    have hlen : (s.filter (· ≠ 10)).length + s.count 10 = s.length := by
      rw [← List.countP_eq_length_filter, List.count, List.length_eq_countP_add_countP (· == 10),
        Nat.add_comm]
      congr 2
      funext c
      simp
    have hcount : (s.filter (· ≠ 10)).count 34 = s.count 34 := List.count_filter (by decide)
    rw [hflatten, hcount, textCost_eq] at hle
    exact ⟨List.count_eq_zero.1 (by omega), List.count_eq_zero.1 (by omega)⟩
  · rintro ⟨hline, hslash⟩
    rw [getLines, getLinesLoop_single hline, List.nil_append]
    by_cases hs : s = []
    · rw [if_pos hs, hs]
      rfl
    · rw [if_neg hs, List.flatMap_singleton, importLine, literalText_quote, inside_quotes hline hslash,
        inside_quote, literalText_cons, if_neg (by decide), if_pos (by decide), literalText_nil,
        Option.map_some, List.append_nil]

/-- What `@import` writes: a call with the literals of the lines. -/
theorem importFile_eq (env : GenEnv) (doc : Document) (line col : Nat) {before path after : Bytes}
    {ls : List Bytes} (hbefore : before.length = 2) (hafter : after.length = 2)
    (hread : env.readLines path = some ls) :
    importFile env doc line col (before ++ path ++ after)
      = .text (selfCall doc (bytes "write_raw(") ++ ls.flatMap importLine ++ bytes ");") := by
  have hlen : (before ++ path ++ after).length = path.length + 4 := by
    rw [List.length_append, List.length_append]
    omega
  have hpath : ((before ++ path ++ after).drop 2).take path.length = path := by
    rw [List.append_assoc, ← hbefore, List.drop_left, List.take_left]
  have hwritten (l : Bytes) : bytes "\"" ++ env.replaceSubstring l (bytes "\"") (bytes "\\\"") ++ bytes "\"\n"
      = importLine l := by
    have hquote : bytes "\"" = [34] := by decide
    rw [hquote, env.replace_eq _ _ _ (List.cons_ne_nil _ _)]
    rfl
  unfold importFile
  rw [hlen, if_neg (by omega), if_pos (by omega), Nat.add_sub_cancel, hpath]
  simp only [hread, hwritten]

/-- **`@import` and inline text.** The literals of an imported file and those of its text in the page denote
that text exactly if the file is one line without an end, and has no backslash. -/
theorem importFile_denotes_iff (env : GenEnv) (doc : Document) (line col : Nat) (st : GenState)
    {before path after s : Bytes} (hbefore : before.length = 2) (hafter : after.length = 2)
    (hread : env.readLines path = some (getLines s)) :
    ∃ lits, importFile env doc line col (before ++ path ++ after) st
        = .ok (selfCall doc (bytes "write_raw(") ++ lits ++ bytes ");", st) ∧
      (literalText lits = literalText (escapeCppSource env s) ∧ literalText lits = some s ↔
        10 ∉ s ∧ 92 ∉ s) := by
  refine ⟨(getLines s).flatMap importLine, ?_, ?_⟩
  · rw [importFile_eq env doc line col hbefore hafter hread]
    rfl
  · have hinline : literalText (escapeCppSource env s) = some s := by
      rw [escapeCppSource_eq, literalText_escaped]
    rw [hinline, and_self_iff, literalText_import_iff]

/-- An environment with one file. -/
def fileEnv (path s : Bytes) : GenEnv :=
  { plainGenEnv with readLines := fun p => if p = path then some (getLines s) else none }

/-- A file of one line. -/
theorem importFile_denotes_line :
    ∃ lits, importFile (fileEnv (bytes "a.txt") (bytes "say \"hi\"")) headerDoc 1 1
        (bytes "(\"" ++ bytes "a.txt" ++ bytes "\")") ⟨0, 0⟩
        = .ok (selfCall headerDoc (bytes "write_raw(") ++ lits ++ bytes ");", ⟨0, 0⟩) ∧
      (literalText lits = literalText (escapeCppSource (fileEnv (bytes "a.txt") (bytes "say \"hi\""))
          (bytes "say \"hi\"")) ∧ literalText lits = some (bytes "say \"hi\"") ↔
        10 ∉ bytes "say \"hi\"" ∧ 92 ∉ bytes "say \"hi\"") :=
  importFile_denotes_iff _ _ 1 1 ⟨0, 0⟩ (by decide) (by decide) (by decide)

/-- Of a file with two lines the end of the first one is gone, and `\n` in a file becomes an end of a line. -/
theorem import_differs :
    (∃ lits, importFile (fileEnv (bytes "a.txt") (bytes "a\nb")) headerDoc 1 1 (bytes "(\"a.txt\")") ⟨0, 0⟩
        = .ok (selfCall headerDoc (bytes "write_raw(") ++ lits ++ bytes ");", ⟨0, 0⟩) ∧
      literalText lits = some (bytes "ab")) ∧
    ∃ lits, importFile (fileEnv (bytes "a.txt") (bytes "a\\nb")) headerDoc 1 1 (bytes "(\"a.txt\")") ⟨0, 0⟩
        = .ok (selfCall headerDoc (bytes "write_raw(") ++ lits ++ bytes ");", ⟨0, 0⟩) ∧
      literalText lits = some (bytes "a\nb") :=
  ⟨⟨bytes "\"a\"\n\"b\"\n", by decide, by decide⟩, ⟨bytes "\"a\\nb\"\n", by decide, by decide⟩⟩

end Import

end Fanjet

end LibEvmvc
