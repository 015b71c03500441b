import LibEvmvc.Foundation.Bytes

set_option autoImplicit false

/-! # The brackets of a C++ text

A text of C++ is cut into words and signs, without blanks, comments and what is in literals
(`Lexer.read`). Then what counts are the parentheses and braces: each of them that is closed is the one
opened last. The brace of a `try` is closed when the word `catch` follows, and nothing else may follow it.

What is read does not depend on the brackets that are open around it (`Nests.frame`), so a text that closes
what it opens leaves everything as it was wherever it stands, and texts can be read one after the other
(`Nests.append`). A comment ends with its line. -/

namespace LibEvmvc

namespace Brackets

/-! ## Words and signs -/

/-- A part of a text that is neither blank nor a comment. -/
inductive Item where
  | word (w : Bytes)
  | sign (c : UInt8)
  /-- the end of a line in a literal -/
  | broken
  deriving DecidableEq, Repr

/-- What is being read. -/
inductive Lex where
  /-- in code, and the word so far -/
  | code (word : Bytes)
  /-- behind a `/` in code -/
  | slash
  /-- in a literal that ends with `quote` -/
  | literal (quote : UInt8)
  /-- behind a `\` in a literal -/
  | escape (quote : UInt8)
  | line
  | block
  /-- behind a `*` in a comment -/
  | blockStar
  deriving DecidableEq, Repr

/-- A letter, a digit or `_`. -/
def isIdentChar (c : UInt8) : Bool :=
  (65 ≤ c && c ≤ 90) || (97 ≤ c && c ≤ 122) || (48 ≤ c && c ≤ 57) || c == 95

/-- The word so far, if there is one. -/
def wordItem (w : Bytes) : List Item := if w = [] then [] else [.word w]

/-- A character of code behind a word. -/
def codeStep (w : Bytes) (c : UInt8) : List Item × Lex :=
  if isIdentChar c then ([], .code (w ++ [c]))
  else if isspace c then (wordItem w, .code [])
  else if c = 47 then (wordItem w, .slash)
  else if c = 34 ∨ c = 39 then (wordItem w ++ [.sign c], .literal c)
  else (wordItem w ++ [.sign c], .code [])

/-- One character: what is recognised with it, and what comes then. -/
def Lex.step (c : UInt8) : Lex → List Item × Lex
  | .code w => codeStep w c
  | .slash =>
    if c = 47 then ([], .line) else if c = 42 then ([], .block)
    else (.sign 47 :: (codeStep [] c).1, (codeStep [] c).2)
  | .literal quote =>
    if c = quote then ([], .code []) else if c = 92 then ([], .escape quote)
    else if c = 10 then ([.broken], .literal quote) else ([], .literal quote)
  | .escape quote => ([], .literal quote)
  | .line => ([], if c = 10 then .code [] else .line)
  | .block => ([], if c = 42 then .blockStar else .block)
  | .blockStar => ([], if c = 47 then .code [] else if c = 42 then .blockStar else .block)

/-- A text. -/
def Lex.read (s : Lex) : Bytes → List Item × Lex
  | [] => ([], s)
  | c :: cs => ((s.step c).1 ++ ((s.step c).2.read cs).1, ((s.step c).2.read cs).2)

theorem Lex.read_append (s : Lex) (a b : Bytes) :
    s.read (a ++ b) = ((s.read a).1 ++ ((s.read a).2.read b).1, ((s.read a).2.read b).2) := by
  induction a generalizing s with
  | nil => rfl
  | cons c a ih =>
    rw [List.cons_append, Lex.read, Lex.read, ih]
    simp only [List.append_assoc]

/-! ## Brackets -/

/-- What is open. -/
inductive Opened where
  | paren
  | brace
  /-- the brace of a `try` -/
  | tryBrace
  /-- a `try` whose brace is closed, and whose `catch` is to come -/
  | tried
  deriving DecidableEq, Repr

/-- Whether the last item was the word `try`, and what is open, the innermost first. -/
abbrev Nesting := Bool × List Opened

/-- What comes of an item. -/
def Item.nest : Item → Nesting → Option Nesting
  | .word w, (_, .tried :: opened) => if w = bytes "catch" then some (false, opened) else none
  | .word w, (_, opened) => some (w = bytes "try", opened)
  | .broken, _ => none
  | .sign _, (_, .tried :: _) => none
  | .sign c, (afterTry, opened) =>
    if c = 40 then some (false, .paren :: opened)
    else if c = 123 then some (false, (if afterTry then .tryBrace else .brace) :: opened)
    else if c = 41 then
      match opened with
      | .paren :: opened => some (false, opened)
      | _ => none
    else if c = 125 then
      match opened with
      | .brace :: opened => some (false, opened)
      | .tryBrace :: opened => some (false, .tried :: opened)
      | _ => none
    else some (false, opened)

/-- What comes of items one after the other. -/
def nestAll : List Item → Nesting → Option Nesting
  | [], n => some n
  | i :: is, n => (i.nest n).bind (nestAll is)

theorem nestAll_append (is is' : List Item) (n : Nesting) :
    nestAll (is ++ is') n = (nestAll is n).bind (nestAll is') := by
  induction is generalizing n with
  | nil => rfl
  | cons i is ih =>
    rw [List.cons_append, nestAll, nestAll, Option.bind_assoc]
    exact Option.bind_congr fun n _ => ih n

/-- The text opens and closes brackets, and ends in code between two words. -/
def Nests (b : Bytes) (opened opened' : List Opened) : Prop :=
  (Lex.read (.code []) b).2 = .code [] ∧
    nestAll (Lex.read (.code []) b).1 (false, opened) = some (false, opened')

instance (b : Bytes) (opened opened' : List Opened) : Decidable (Nests b opened opened') :=
  inferInstanceAs (Decidable (_ ∧ _))

/-- All brackets of the text are closed, and each `try` has its `catch`. -/
def Closed (b : Bytes) : Prop := Nests b [] []

instance (b : Bytes) : Decidable (Closed b) := inferInstanceAs (Decidable (Nests b [] []))

/-- The text closes a bracket that is not the last one opened, or goes on behind a `try` without its
    `catch`, or breaks a literal. -/
def Breaks (b : Bytes) (opened : List Opened) : Prop :=
  nestAll (Lex.read (.code []) b).1 (false, opened) = none

instance (b : Bytes) (opened : List Opened) : Decidable (Breaks b opened) :=
  inferInstanceAs (Decidable (_ = _))

section Texts

variable {a b : Bytes} {opened opened' opened'' outer : List Opened}

theorem nests_nil (opened : List Opened) : Nests [] opened opened := ⟨rfl, rfl⟩

theorem Nests.append (ha : Nests a opened opened') (hb : Nests b opened' opened'') :
    Nests (a ++ b) opened opened'' := by
  unfold Nests
  rw [Lex.read_append, ha.1, nestAll_append, ha.2]
  exact hb

theorem Nests.breaks (ha : Nests a opened opened') (hb : Breaks b opened') : Breaks (a ++ b) opened := by
  unfold Breaks
  rw [Lex.read_append, ha.1, nestAll_append, ha.2]
  exact hb

theorem Breaks.append (ha : Breaks a opened) (b : Bytes) : Breaks (a ++ b) opened := by
  have hnone : nestAll (Lex.read (.code []) a).1 (false, opened) = none := ha
  unfold Breaks
  rw [Lex.read_append, nestAll_append, hnone]
  rfl

theorem Breaks.not_nests (h : Breaks a opened) : ¬ Nests a opened opened' := by
  intro hnests
  cases h.symm.trans hnests.2

/-- What an item does with brackets it does in all brackets around it. -/
theorem nest_frame (houter : outer.head? ≠ some .tried) {i : Item} {afterTry : Bool} {n : Nesting}
    (h : i.nest (afterTry, opened) = some n) :
    i.nest (afterTry, opened ++ outer) = some (n.1, n.2 ++ outer) := by
  cases opened with
  | nil =>
    rw [List.nil_append]
    cases outer with
    | nil =>
      rw [List.append_nil]
      exact h
    | cons o outer =>
      cases i with
      | word w => cases o <;> first | exact absurd rfl houter | (cases h; rfl)
      | broken => cases h
      | sign c =>
        unfold Item.nest at h ⊢
        cases o <;> first | exact absurd rfl houter | grind
  | cons o opened =>
    cases i with
    | word w =>
      cases o with
      | tried =>
        unfold Item.nest at h ⊢
        grind
      | _ => cases h; rfl
    | broken => cases h
    | sign c =>
      unfold Item.nest at h ⊢
      cases o <;> grind

theorem nestAll_frame (houter : outer.head? ≠ some .tried) {is : List Item} {n n' : Nesting}
    (h : nestAll is n = some n') : nestAll is (n.1, n.2 ++ outer) = some (n'.1, n'.2 ++ outer) := by
  induction is generalizing n with
  | nil =>
    cases h
    rfl
  | cons i is ih =>
    rw [nestAll] at h ⊢
    obtain ⟨mid, hmid, hrest⟩ := Option.bind_eq_some_iff.1 h
    rw [nest_frame houter hmid]
    exact ih hrest

/-- **What a text does with brackets it does in all brackets around it.** -/
theorem Nests.frame (h : Nests a opened opened') (houter : outer.head? ≠ some .tried) :
    Nests a (opened ++ outer) (opened' ++ outer) :=
  ⟨h.1, nestAll_frame houter h.2⟩

end Texts

/-! ## Names, literals and comments -/

/-- A word that is no `try`. -/
structure IsName (w : Bytes) : Prop where
  ne : w ≠ []
  ident : ∀ c ∈ w, isIdentChar c = true
  no_try : w ≠ bytes "try"

section Texts

variable {w b : Bytes} {opened opened' : List Opened}

theorem read_word (v : Bytes) (hw : ∀ c ∈ w, isIdentChar c = true) (b : Bytes) :
    Lex.read (.code v) (w ++ b) = Lex.read (.code (v ++ w)) b := by
  induction w generalizing v with
  | nil => rw [List.nil_append, List.append_nil]
  | cons c w ih =>
    rw [List.forall_mem_cons] at hw
    have hstep : Lex.step c (.code v) = ([], .code (v ++ [c])) := if_pos hw.1
    rw [List.cons_append, Lex.read, hstep, ih (v ++ [c]) hw.2, List.append_assoc]
    rfl

theorem read_endWord {c : UInt8} (hc : isIdentChar c = false) (b : Bytes) :
    Lex.read (.code w) (c :: b)
      = (wordItem w ++ (Lex.read (.code []) (c :: b)).1, (Lex.read (.code []) (c :: b)).2) := by
  have hword : wordItem [] = [] := rfl
  have hstep : Lex.step c (.code w) = (wordItem w ++ (Lex.step c (.code [])).1, (Lex.step c (.code [])).2) := by
    simp only [Lex.step, codeStep, hc, Bool.false_eq_true, if_false, hword, List.nil_append]
    split
    · rw [List.append_nil]
    · split
      · rw [List.append_nil]
      · split <;> rfl
  simp only [Lex.read, hstep, List.append_assoc]

theorem nest_word (w : Bytes) (afterTry : Bool) (hopen : opened.head? ≠ some .tried) :
    (Item.word w).nest (afterTry, opened) = some (decide (w = bytes "try"), opened) := by
  cases opened with
  | nil => rfl
  | cons o opened =>
    cases o with
    | tried => exact absurd rfl hopen
    | _ => rfl

/-- A sign that is no bracket. -/
theorem nest_sign {c : UInt8} (hc : c ∉ [40, 123, 41, 125]) (afterTry : Bool)
    (hopen : opened.head? ≠ some .tried) : (Item.sign c).nest (afterTry, opened) = some (false, opened) := by
  simp only [List.mem_cons, List.not_mem_nil, or_false, not_or] at hc
  cases opened with
  | nil => simp only [Item.nest, hc, if_false]
  | cons o opened =>
    cases o with
    | tried => exact absurd rfl hopen
    | _ => simp only [Item.nest, hc, if_false]

/-- A name before a text that does not go on with it changes nothing. -/
theorem nests_name (hw : IsName w) (hb : ∃ c b', b = c :: b' ∧ isIdentChar c = false)
    (h : Nests b opened opened') (hopen : opened.head? ≠ some .tried) : Nests (w ++ b) opened opened' := by
  obtain ⟨c, b', rfl, hc⟩ := hb
  have hitem : wordItem w = [.word w] := if_neg hw.ne
  unfold Nests
  rw [read_word [] hw.ident, List.nil_append, read_endWord hc, hitem]
  refine ⟨h.1, ?_⟩
  rw [List.singleton_append, nestAll, nest_word w false hopen, decide_eq_false hw.no_try]
  exact h.2

/-- A scope changes nothing. -/
theorem nests_scope {s : Bytes} (hs : ∀ c ∈ s, isIdentChar c = true ∨ c = 58)
    (hopen : opened.head? ≠ some .tried) : Nests (s ++ [58, 58]) opened opened := by
  have hread (w : Bytes) (afterTry : Bool) : (Lex.read (.code w) (s ++ [58, 58])).2 = .code [] ∧
      nestAll (Lex.read (.code w) (s ++ [58, 58])).1 (afterTry, opened) = some (false, opened) := by
    have hcolon (w : Bytes) : Lex.step 58 (.code w) = (wordItem w ++ [.sign 58], .code []) := rfl
    have hend (w : Bytes) (afterTry : Bool) (is : List Item) :
        nestAll (wordItem w ++ [.sign 58] ++ is) (afterTry, opened) = nestAll is (false, opened) := by
      have hsign (afterTry : Bool) := nest_sign (c := 58) (by decide) afterTry hopen
      unfold wordItem
      split
      · rw [List.nil_append, List.singleton_append, nestAll, hsign]
        rfl
      · rw [List.singleton_append, List.cons_append, nestAll, nest_word w afterTry hopen,
          Option.bind_some, List.singleton_append, nestAll, hsign]
        rfl
    induction s generalizing w afterTry with
    | nil =>
      simp only [List.nil_append, Lex.read, hcolon, List.append_nil]
      rw [hend w afterTry, ← List.append_nil (wordItem [] ++ [Item.sign 58]), hend [] false]
      exact ⟨trivial, rfl⟩
    | cons c s ih =>
      rw [List.forall_mem_cons] at hs
      rw [List.cons_append, Lex.read]
      rcases hs.1 with hident | rfl
      · have hstep : Lex.step c (.code w) = ([], .code (w ++ [c])) := if_pos hident
        rw [hstep]
        exact ih hs.2 _ _
      · rw [hcolon, hend w afterTry]
        exact ih hs.2 _ _
  exact hread [] false

/-- In a literal of several parts, between the first quote and the last one. -/
def InString (b : Bytes) : Prop :=
  ∃ k, Lex.read (.literal 34) b = (List.replicate k (.sign 34), .literal 34)

theorem inString_flatMap {f : UInt8 → Bytes} (hf : ∀ c, InString (f c)) (l : Bytes) :
    InString (l.flatMap f) := by
  induction l with
  | nil => exact ⟨0, rfl⟩
  | cons c l ih =>
    obtain ⟨k, hk⟩ := hf c
    obtain ⟨k', hk'⟩ := ih
    refine ⟨k + k', ?_⟩
    rw [List.flatMap_cons, Lex.read_append, hk, hk', ← List.replicate_append_replicate]

/-- A text that has neither quotes, backslashes nor line ends. -/
theorem inString_plain (hb : ∀ c ∈ b, c ≠ 34 ∧ c ≠ 92 ∧ c ≠ 10) : InString b := by
  refine ⟨0, ?_⟩
  induction b with
  | nil => rfl
  | cons c b ih =>
    rw [List.forall_mem_cons] at hb
    obtain ⟨⟨hquote, hescape, hline⟩, hrest⟩ := hb
    have hstep : Lex.step c (.literal 34) = ([], .literal 34) := by
      rw [Lex.step, if_neg hquote, if_neg hescape, if_neg hline]
    rw [Lex.read, hstep, ih hrest]
    rfl

theorem nestAll_quotes (k : Nat) (hopen : opened.head? ≠ some .tried) :
    nestAll (List.replicate k (.sign 34)) (false, opened) = some (false, opened) := by
  have hnest : (Item.sign 34).nest (false, opened) = some (false, opened) :=
    nest_sign (by decide) false hopen
  induction k with
  | zero => rfl
  | succ k ih =>
    rw [List.replicate_succ, nestAll, hnest]
    exact ih

/-- A string literal changes nothing. -/
theorem nests_string (hb : InString b) (hopen : opened.head? ≠ some .tried) :
    Nests (34 :: (b ++ [34])) opened opened := by
  obtain ⟨k, hk⟩ := hb
  have hread : Lex.read (.code []) (34 :: (b ++ [34])) = (List.replicate (k + 1) (.sign 34), .code []) := by
    have hfirst : Lex.step 34 (.code []) = ([.sign 34], .literal 34) := by decide
    have hlast : Lex.read (.literal 34) [34] = ([], .code []) := by decide
    rw [Lex.read, hfirst, Lex.read_append, hk, hlast]
    simp only [List.append_nil, List.replicate_succ, List.singleton_append]
  unfold Nests
  rw [hread]
  exact ⟨rfl, nestAll_quotes (k + 1) hopen⟩

/-- A comment goes on to the end of its line. -/
theorem read_line (hb : 10 ∉ b) : Lex.read .line b = ([], .line) := by
  induction b with
  | nil => rfl
  | cons c b ih =>
    rw [List.mem_cons, not_or] at hb
    have hstep : Lex.step c .line = ([], .line) := by
      rw [Lex.step, if_neg (Ne.symm hb.1)]
    rw [Lex.read, hstep, ih hb.2]
    rfl

/-- A comment changes nothing. -/
theorem nests_comment (hb : 10 ∉ b) (opened : List Opened) : Nests (47 :: 47 :: (b ++ [10])) opened opened := by
  have hline : Lex.read .line (b ++ [10]) = ([], .code []) := by
    rw [Lex.read_append, read_line hb]
    rfl
  have hfirst : Lex.step 47 (.code []) = ([], .slash) := by decide
  have hsecond : Lex.step 47 .slash = ([], .line) := by decide
  unfold Nests
  rw [Lex.read, hfirst, Lex.read, hsecond, hline]
  exact ⟨rfl, rfl⟩

end Texts

/-! ## Texts that end in a word

What is read for a word depends on what stands before it, so a text that may end in a word may not be
followed by every text. -/

/-- In code, and maybe in a word or behind a `/`. -/
def Rests (opened : List Opened) : Lex → Nesting → Prop
  | .code w, n => n.2 = opened ∧ if w = [] then n.1 = false else w ≠ bytes "try"
  | .slash, n => n = (false, opened)
  | _, _ => False

instance (opened : List Opened) (s : Lex) (n : Nesting) : Decidable (Rests opened s n) :=
  match s with
  | .code _ => inferInstanceAs (Decidable (_ ∧ _))
  | .slash => inferInstanceAs (Decidable (_ = _))
  | .literal _ | .escape _ | .line | .block | .blockStar => isFalse id

/-- How a text begins or ends: between two words, or maybe in one. -/
inductive Edge where
  | apart
  | word
  deriving DecidableEq, Repr

/-- What is being read at an edge, and what is open there. -/
def Edge.At : Edge → List Opened → Lex → Nesting → Prop
  | .apart, opened, s, n => s = .code [] ∧ n = (false, opened)
  | .word, opened, s, n => Rests opened s n

/-- The text opens and closes brackets between the edges. -/
def Runs (b : Bytes) (e : Edge) (opened : List Opened) (e' : Edge) (opened' : List Opened) : Prop :=
  ∀ s n, e.At opened s n → ∃ n', nestAll (s.read b).1 n = some n' ∧ e'.At opened' (s.read b).2 n'

/-- The text breaks what is open at the edge. -/
def BreaksAt (b : Bytes) (e : Edge) (opened : List Opened) : Prop :=
  ∀ s n, e.At opened s n → nestAll (s.read b).1 n = none

section Edges

variable {a b v : Bytes} {e e' e'' : Edge} {opened opened' opened'' outer : List Opened} {s : Lex} {n : Nesting}

theorem Edge.At.word (h : e.At opened s n) : Edge.At .word opened s n := by
  cases e with
  | apart =>
    obtain ⟨rfl, rfl⟩ := h
    exact ⟨rfl, rfl⟩
  | word => exact h

theorem nests_iff_runs : Nests b opened opened' ↔ Runs b .apart opened .apart opened' := by
  constructor
  · rintro h s n ⟨rfl, rfl⟩
    exact ⟨_, h.2, h.1, rfl⟩
  · intro h
    obtain ⟨n', hnest, hlex, rfl⟩ := h (.code []) (false, opened) ⟨rfl, rfl⟩
    exact ⟨hlex, hnest⟩

/-- A text that is read to its end. -/
theorem runs_of_nest (h : (nestAll (Lex.read (.code []) b).1 (false, opened)).any
    (fun n => decide (Rests opened' (Lex.read (.code []) b).2 n)) = true) :
    Runs b .apart opened .word opened' := by
  rintro s n ⟨rfl, rfl⟩
  rw [Option.any_eq_true] at h
  obtain ⟨n', hnest, hrests⟩ := h
  have hat : Rests opened' (Lex.read (.code []) b).2 n' := of_decide_eq_true hrests
  exact ⟨n', hnest, hat⟩

theorem runs_nil (e : Edge) (opened : List Opened) : Runs [] e opened e opened :=
  fun _ n h => ⟨n, rfl, h⟩

theorem Runs.append (ha : Runs a e opened e' opened') (hb : Runs b e' opened' e'' opened'') :
    Runs (a ++ b) e opened e'' opened'' := by
  intro s n h
  obtain ⟨n', hnest, hat⟩ := ha s n h
  obtain ⟨n'', hnest', hat'⟩ := hb _ n' hat
  refine ⟨n'', ?_, ?_⟩
  · rw [Lex.read_append, nestAll_append, hnest]
    exact hnest'
  · rw [Lex.read_append]
    exact hat'

theorem Runs.breaks (ha : Runs a e opened e' opened') (hb : BreaksAt b e' opened') :
    BreaksAt (a ++ b) e opened := by
  intro s n h
  obtain ⟨n', hnest, hat⟩ := ha s n h
  rw [Lex.read_append, nestAll_append, hnest]
  exact hb _ n' hat

theorem breaksAt_apart : BreaksAt b .apart opened ↔ Breaks b opened := by
  refine ⟨fun h => h (.code []) (false, opened) ⟨rfl, rfl⟩, ?_⟩
  rintro h s n ⟨rfl, rfl⟩
  exact h

/-- A text may be taken for one that ends in a word. -/
theorem Runs.word (h : Runs b e opened e' opened') : Runs b e opened .word opened' := by
  intro s n hat
  obtain ⟨n', hnest, hat'⟩ := h s n hat
  exact ⟨n', hnest, hat'.word⟩

/-- What can be read behind a word can be read between words. -/
theorem Runs.of_word (h : Runs b .word opened e' opened') (e : Edge) : Runs b e opened e' opened' :=
  fun s n hat => h s n hat.word

theorem Rests.frame (h : Rests opened s n) : Rests (opened ++ outer) s (n.1, n.2 ++ outer) := by
  cases s with
  | code w => exact ⟨congrArg (· ++ outer) h.1, h.2⟩
  | slash =>
    obtain rfl : n = (false, opened) := h
    rfl
  | _ => exact h.elim

/-- What is open around it does not matter. -/
theorem Runs.frame (h : Runs b .apart opened e' opened') (houter : outer.head? ≠ some .tried) :
    Runs b .apart (opened ++ outer) e' (opened' ++ outer) := by
  rintro s n ⟨rfl, rfl⟩
  obtain ⟨n', hnest, hat⟩ := h (.code []) (false, opened) ⟨rfl, rfl⟩
  refine ⟨(n'.1, n'.2 ++ outer), nestAll_frame houter hnest, ?_⟩
  cases e' with
  | apart =>
    obtain ⟨hlex, rfl⟩ := hat
    exact ⟨hlex, rfl⟩
  | word => exact Rests.frame hat

/-- The word so far, with what it goes on with. -/
theorem nest_wordItem {w : Bytes} (h : Rests opened (.code w) n) (hopen : opened.head? ≠ some .tried)
    (hv : ∀ w, w ++ v ≠ bytes "try") (hne : v ≠ []) : nestAll (wordItem (w ++ v)) n = some (false, opened) := by
  obtain ⟨afterTry, opened'⟩ := n
  obtain ⟨rfl, -⟩ := h
  rw [wordItem, if_neg (List.append_ne_nil_of_right_ne_nil w hne), nestAll, nest_word _ _ hopen,
    decide_eq_false (hv w)]
  rfl

/-- The word so far, where it ends. -/
theorem nest_wordEnd {w : Bytes} (h : Rests opened (.code w) n) (hopen : opened.head? ≠ some .tried) :
    nestAll (wordItem w) n = some (false, opened) := by
  obtain ⟨afterTry, opened'⟩ := n
  obtain ⟨rfl, hw⟩ := h
  unfold wordItem
  split at hw
  · next hnil =>
    rw [if_pos hnil, show afterTry = false from hw]
    rfl
  · next hne =>
    rw [if_neg hne, nestAll, nest_word _ _ hopen, decide_eq_false hw]
    rfl

/-- A text that begins with a sign ends the word before it. -/
theorem Nests.behind {c : UInt8} (h : Nests (c :: b) opened opened') (hopen : opened.head? ≠ some .tried)
    (hc : isIdentChar c = false) (hcomment : c ≠ 47 ∧ c ≠ 42) : Runs (c :: b) .word opened .apart opened' := by
  intro s n hat
  cases s with
  | code w =>
    rw [read_endWord hc]
    exact ⟨_, by rw [nestAll_append, nest_wordEnd hat hopen]; exact h.2, h.1, rfl⟩
  | slash =>
    obtain rfl : n = (false, opened) := hat
    have hstep : Lex.step c .slash = (.sign 47 :: (codeStep [] c).1, (codeStep [] c).2) := by
      rw [Lex.step, if_neg hcomment.1, if_neg hcomment.2]
    have hread : Lex.read .slash (c :: b)
        = (.sign 47 :: (Lex.read (.code []) (c :: b)).1, (Lex.read (.code []) (c :: b)).2) := by
      rw [Lex.read, hstep, Lex.read]
      rfl
    have hslash := nest_sign (c := 47) (by decide) false hopen
    rw [hread]
    exact ⟨_, by rw [nestAll, hslash]; exact h.2, h.1, rfl⟩
  | _ => exact hat.elim

/-- A text that begins with a word goes on with the word before it. -/
theorem Nests.behind_word {c : UInt8} (h : Nests (v ++ c :: b) opened opened')
    (hopen : opened.head? ≠ some .tried) (hc : isIdentChar c = false)
    (hident : ∀ d ∈ v, isIdentChar d = true) (hv : ∀ w, w ++ v ≠ bytes "try") (hne : v ≠ []) :
    Runs (v ++ c :: b) .word opened .apart opened' := by
  have hstart : Rests opened (.code []) (false, opened) := ⟨rfl, rfl⟩
  have hword := nest_wordItem hstart hopen hv hne
  unfold Nests at h
  rw [read_word [] hident, List.nil_append, read_endWord hc, nestAll_append] at h
  rw [List.nil_append] at hword
  rw [hword] at h
  intro s n hat
  cases s with
  | code w =>
    rw [read_word w hident, read_endWord hc]
    exact ⟨_, by rw [nestAll_append, nest_wordItem hat hopen hv hne]; exact h.2, h.1, rfl⟩
  | slash =>
    obtain rfl : n = (false, opened) := hat
    have hslash := nest_sign (c := 47) (by decide) false hopen
    have hread : Lex.read .slash (v ++ c :: b) = (.sign 47 :: (Lex.read (.code []) (v ++ c :: b)).1,
        (Lex.read (.code []) (v ++ c :: b)).2) := by
      obtain ⟨d, v, rfl⟩ := List.exists_cons_of_ne_nil hne
      have hd := hident d List.mem_cons_self
      have hslash : d ≠ 47 := fun heq => absurd (heq ▸ hd) (by decide)
      have hstar : d ≠ 42 := fun heq => absurd (heq ▸ hd) (by decide)
      rw [List.cons_append, Lex.read, Lex.step, if_neg hslash, if_neg hstar, Lex.read]
      rfl
    rw [hread, read_word [] hident, read_endWord hc, List.nil_append]
    refine ⟨_, ?_, h.1, rfl⟩
    rw [nestAll, hslash, Option.bind_some, nestAll_append, hword]
    exact h.2
  | _ => exact hat.elim

/-- What is being read behind a character that is neither of a word nor a `/`. -/
theorem step_rests {c : UInt8} (hident : isIdentChar c = false) (hslash : c ≠ 47) (s : Lex) :
    (s.step c).2 = .code [] ∨ ¬ Rests opened (s.step c).2 n := by
  have hcode (w : Bytes) : (codeStep w c).2 = .code [] ∨ ∃ quote, (codeStep w c).2 = .literal quote := by
    rw [codeStep, if_neg (Bool.eq_false_iff.1 hident), if_neg hslash]
    split
    · exact .inl rfl
    · split
      · exact .inr ⟨c, rfl⟩
      · exact .inl rfl
  have hrests (w : Bytes) : (codeStep w c).2 = .code [] ∨ ¬ Rests opened (codeStep w c).2 n := by
    rcases hcode w with h | ⟨quote, h⟩
    · exact .inl h
    · rw [h]
      exact .inr fun hrests => hrests
  have hno (quote : UInt8) : ¬ Rests opened (.literal quote) n := fun hrests => hrests
  cases s with
  | code w => exact hrests w
  | slash =>
    rw [Lex.step, if_neg hslash]
    split
    · exact .inr fun hrests => hrests
    · exact hrests []
  | literal quote =>
    rw [Lex.step]
    split
    · exact .inl rfl
    · split
      · exact .inr fun hrests => hrests
      · split <;> exact .inr (hno quote)
  | escape quote => exact .inr (hno quote)
  | line =>
    rw [Lex.step]
    dsimp only
    split
    · exact .inl rfl
    · exact .inr fun hrests => hrests
  | block =>
    rw [Lex.step]
    dsimp only
    split <;> exact .inr fun hrests => hrests
  | blockStar =>
    rw [Lex.step]
    dsimp only
    split
    · exact .inl rfl
    · split <;> exact .inr fun hrests => hrests

/-- Where the last character is neither of a word nor a `/`, the text does not end in a word. -/
theorem Runs.ends (h : Runs b .apart opened .word opened')
    (hlast : ∀ c, b.getLast? = some c → isIdentChar c = false ∧ c ≠ 47) :
    Runs b .apart opened .apart opened' := by
  rintro s n ⟨rfl, rfl⟩
  obtain ⟨n', hnest, hat⟩ := h (.code []) (false, opened) ⟨rfl, rfl⟩
  refine ⟨n', hnest, ?_⟩
  rcases List.eq_nil_or_concat b with rfl | ⟨b, c, rfl⟩
  · cases hnest
    obtain ⟨hopened, -⟩ := hat
    exact ⟨rfl, congrArg (Prod.mk false) hopened⟩
  · rw [List.concat_eq_append] at hat hlast ⊢
    obtain ⟨hident, hslash⟩ := hlast c List.getLast?_concat
    rw [Lex.read_append, Lex.read, Lex.read] at hat ⊢
    dsimp only at hat ⊢
    generalize Lex.read (.code []) b = r at hat ⊢
    rcases step_rests hident hslash r.2 with h | h
    · rw [h] at hat ⊢
      obtain ⟨hopened, hfalse⟩ := hat
      refine ⟨rfl, ?_⟩
      rw [if_pos rfl] at hfalse
      rw [← hopened, ← hfalse]
    · exact absurd hat h

end Edges

end Brackets

end LibEvmvc
