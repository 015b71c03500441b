import LibEvmvc.Foundation.JsonText

set_option autoImplicit false

/-! # JSON with comments

`parse_jsonc_string` takes comments and the last comma of an array or an object out of a text before it
is parsed. A comment leaves its line ends behind. The comma is taken out of what has been copied when
the bracket comes, so its place is remembered for as long as only blanks and comments follow. -/

namespace LibEvmvc

/-- The variables of `parse_jsonc_string`; `lastCommaLoc` is `none` for -1. -/
structure JsoncState where
  inStr : Bool := false
  inScom : Bool := false
  inMcom : Bool := false
  lastCommaLoc : Option Nat := none
  res : Bytes := []

/-- A line end in a comment. -/
def keepLineEnd (prevChr : UInt8) : Bytes := if prevChr = 13 then [13, 10] else [10]

/-- The comma at the remembered place is taken out. -/
def dropComma (res : Bytes) (lastCommaLoc : Option Nat) : Bytes :=
  match lastCommaLoc with
  | none => res
  | some k => res.take k ++ res.drop (k + 1)

namespace JsoncState

/-- A character that is neither in a string nor in a comment, and begins neither. -/
def copy (s : JsoncState) (curChr : UInt8) : JsoncState :=
  let s := if curChr = 125 ∨ curChr = 93 then
      { s with res := dropComma s.res s.lastCommaLoc, lastCommaLoc := none }
    else s
  let s := if curChr = 44 then { s with lastCommaLoc := some s.res.length }
    else if s.lastCommaLoc.isSome ∧ isspace curChr = false ∧ curChr ≠ 9 ∧ curChr ≠ 10 ∧ curChr ≠ 13 then
      { s with lastCommaLoc := none }
    else s
  { s with res := s.res ++ [curChr] }

/-- One round of the loop: whether the next character is passed over, and the state after it. -/
def step (s : JsoncState) (prevChr curChr nxtChr : UInt8) : Except String (Bool × JsoncState) :=
  if s.inScom then
    if curChr = 10 then
      .ok (false, { s with inScom := false, res := s.res ++ keepLineEnd prevChr })
    else .ok (false, s)
  else if s.inMcom then
    if curChr = 47 ∧ prevChr = 42 then .ok (false, { s with inMcom := false })
    else if curChr = 10 then .ok (false, { s with res := s.res ++ keepLineEnd prevChr })
    else .ok (false, s)
  else if s.inStr then
    if curChr = 92 then
      if nxtChr ≠ 0 then .ok (true, { s with res := s.res ++ [curChr, nxtChr] })
      else .error "JSONC invalid format!"
    else .ok (false, { s with inStr := curChr ≠ 34, res := s.res ++ [curChr] })
  else if curChr = 47 ∧ nxtChr = 47 then .ok (false, { s with inScom := true })
  else if curChr = 47 ∧ nxtChr = 42 then .ok (false, { s with inMcom := true })
  else if curChr = 34 then
    .ok (false, { s with lastCommaLoc := none, inStr := true, res := s.res ++ [curChr] })
  else .ok (false, s.copy curChr)

end JsoncState

/-- The loop of `parse_jsonc_string`, behind `prevChr`. -/
def jsoncLoop : UInt8 → Bool → Bytes → JsoncState → Except String Bytes
  | _, _, [], s => .ok s.res
  | _, true, curChr :: rest, s => jsoncLoop curChr false rest s
  | prevChr, false, curChr :: rest, s =>
    match s.step prevChr curChr (rest.headD 0) with
    | .error e => .error e
    | .ok (skip, s') => jsoncLoop curChr skip rest s'

/-- `parse_jsonc_string`, with `json::parse`. -/
def parseJsoncString {A : Type} (parse : Bytes → Except String A) (jsonwc : Bytes) :
    Except String A := do
  let res ← jsoncLoop 0 false jsonwc {}
  parse res

/-- The text that is parsed in place of another. -/
def HandedOver (jsonwc res : Bytes) : Prop :=
  ∀ (A : Type) (parse : Bytes → Except String A), parseJsoncString parse jsonwc = parse res

/-- The parser is given the same tokens without the commas in front of closing brackets, and a text in
    which there is nothing to take out as it is. -/
structure JsoncText.Transparent (d : JsoncText) : Prop where
  tokens : ∃ res, HandedOver d.text res ∧ jsonTokens res = some (dropTrailingCommas d.tokens)
  unchanged : (∀ p ∈ d.pieces, p.isComment = false) → dropTrailingCommas d.tokens = d.tokens →
    HandedOver d.text d.text

/-! ## One piece -/

section Piece

/-- Neither in a string nor in a comment. -/
def copying (res : Bytes) (lastCommaLoc : Option Nat) : JsoncState :=
  { lastCommaLoc := lastCommaLoc, res := res }

/-- The line ends of a comment. -/
def lineEnds : UInt8 → Bytes → Bytes
  | _, [] => []
  | prevChr, c :: t => (if c = 10 then keepLineEnd prevChr else []) ++ lineEnds c t

variable {res rest : Bytes} {lc : Option Nat}

theorem jsoncLoop_step {p c : UInt8} {skip : Bool} {s s' : JsoncState}
    (h : s.step p c (rest.headD 0) = .ok (skip, s')) :
    jsoncLoop p false (c :: rest) s = jsoncLoop c skip rest s' := by
  rw [jsoncLoop, h]

/-- The character before is looked at in comments only. -/
theorem jsoncLoop_prev (p q : UInt8) (t : Bytes) :
    jsoncLoop p false t (copying res lc) = jsoncLoop q false t (copying res lc) := by
  cases t with
  | nil => rfl
  | cons c t => rw [jsoncLoop, jsoncLoop]; rfl

theorem jsoncLoop_lineComment (p : UInt8) {body : Bytes} (h : 10 ∉ body) :
    jsoncLoop p false (body ++ 10 :: rest) { copying res lc with inScom := true }
      = jsoncLoop 0 false rest (copying (res ++ lineEnds p (body ++ [10])) lc) := by
  induction body generalizing p with
  | nil =>
    rw [List.nil_append, jsoncLoop_step rfl, jsoncLoop_prev 0 10]
    simp [lineEnds, copying]
  | cons c body ih =>
    have hc : c ≠ 10 := fun hc => h (hc ▸ List.mem_cons_self)
    have hbody : 10 ∉ body := fun hmem => h (List.mem_cons_of_mem _ hmem)
    have hstep : ({ copying res lc with inScom := true } : JsoncState).step p c
        ((body ++ 10 :: rest).headD 0) = .ok (false, { copying res lc with inScom := true }) := by
      rw [JsoncState.step, if_pos rfl, if_neg hc]
    rw [List.cons_append, jsoncLoop_step hstep, ih c hbody, List.cons_append, lineEnds, if_neg hc,
      List.nil_append]

/-- The star that opens a block comment is taken for one that may end it. -/
theorem jsoncLoop_blockComment (p : UInt8) {body : Bytes} (h : ¬ [42, 47] <:+: p :: (body ++ [42])) :
    jsoncLoop p false (body ++ 42 :: 47 :: rest) { copying res lc with inMcom := true }
      = jsoncLoop 0 false rest (copying (res ++ lineEnds p body) lc) := by
  induction body generalizing p res with
  | nil =>
    rw [List.nil_append, jsoncLoop_step rfl, jsoncLoop_step rfl, jsoncLoop_prev 0 47, lineEnds,
      List.append_nil]
    rfl
  | cons c body ih =>
    have hopen : ¬ (c = 47 ∧ p = 42) := by
      rintro ⟨rfl, rfl⟩
      exact h ⟨[], body ++ [42], rfl⟩
    have hbody : ¬ [42, 47] <:+: c :: (body ++ [42]) := fun hin => h (List.infix_cons hin)
    by_cases hc : c = 10
    · have hstep : ({ copying res lc with inMcom := true } : JsoncState).step p c
          ((body ++ 42 :: 47 :: rest).headD 0)
            = .ok (false, { copying (res ++ keepLineEnd p) lc with inMcom := true }) := by
        rw [JsoncState.step, if_neg (by simp [copying]), if_pos rfl, if_neg hopen, if_pos hc]
        rfl
      rw [List.cons_append, jsoncLoop_step hstep, ih c hbody, lineEnds, if_pos hc, List.append_assoc]
    · have hstep : ({ copying res lc with inMcom := true } : JsoncState).step p c
          ((body ++ 42 :: 47 :: rest).headD 0)
            = .ok (false, { copying res lc with inMcom := true }) := by
        rw [JsoncState.step, if_neg (by simp [copying]), if_pos rfl, if_neg hopen, if_neg hc]
      rw [List.cons_append, jsoncLoop_step hstep, ih c hbody, lineEnds, if_neg hc, List.nil_append]

theorem jsoncLoop_inStr (p : UInt8) {s : Bytes} (h : StrBody s) :
    jsoncLoop p false (s ++ 34 :: rest) { copying res none with inStr := true }
      = jsoncLoop 0 false rest (copying (res ++ s ++ [34]) none) := by
  induction h generalizing p res with
  | nil =>
    rw [List.nil_append, jsoncLoop_step rfl, jsoncLoop_prev 0 34, List.append_nil]
    rfl
  | @plain c s hquote hescape _ ih =>
    have hstep : ({ copying res none with inStr := true } : JsoncState).step p c
        ((s ++ 34 :: rest).headD 0)
          = .ok (false, { copying (res ++ [c]) none with inStr := true }) := by
      rw [JsoncState.step, if_neg (by simp [copying]), if_neg (by simp [copying]), if_pos rfl,
        if_neg hescape, decide_eq_true hquote]
      rfl
    rw [List.cons_append, jsoncLoop_step hstep, ih c, List.append_assoc res, List.singleton_append]
  | @escaped c s hnul _ ih =>
    have hstep : ({ copying res none with inStr := true } : JsoncState).step p 92
        ((c :: s ++ 34 :: rest).headD 0)
          = .ok (true, { copying (res ++ [92, c]) none with inStr := true }) := by
      rw [JsoncState.step, if_neg (by simp [copying]), if_neg (by simp [copying]), if_pos rfl,
        if_pos rfl, List.cons_append, List.headD_cons, if_pos hnul]
      rfl
    rw [List.cons_append, jsoncLoop_step hstep, List.cons_append, jsoncLoop, ih c,
      List.append_assoc res]
    rfl

/-- A character that is copied. -/
theorem jsoncLoop_copy (p : UInt8) {c : UInt8} (hquote : c ≠ 34) (hslash : c ≠ 47) :
    jsoncLoop p false (c :: rest) (copying res lc)
      = jsoncLoop c false rest ((copying res lc).copy c) := by
  have hstep : (copying res lc).step p c (rest.headD 0) = .ok (false, (copying res lc).copy c) := by
    rw [JsoncState.step, if_neg (by simp [copying]), if_neg (by simp [copying]),
      if_neg (by simp [copying]), if_neg fun h => hslash h.1, if_neg fun h => hslash h.1,
      if_neg hquote]
  exact jsoncLoop_step hstep

theorem copy_comma : (copying res lc).copy 44 = copying (res ++ [44]) (some res.length) := rfl

theorem copy_closing {c : UInt8} (h : c = 125 ∨ c = 93) :
    (copying res lc).copy c = copying (dropComma res lc ++ [c]) none := by
  have hcomma : c ≠ 44 := by rcases h with rfl | rfl <;> decide
  rw [JsoncState.copy, if_pos h]
  simp only [copying, if_neg hcomma, Option.isSome_none, Bool.false_eq_true, false_and, if_false]

theorem copy_blank {c : UInt8} (h : isspace c = true) :
    (copying res lc).copy c = copying (res ++ [c]) lc := by
  have hpunct : isPunct c = false := by
    by_contra hpunct
    rw [isspace_of_isPunct (Bool.not_eq_false _ ▸ hpunct)] at h
    cases h
  have hclosing : ¬ (c = 125 ∨ c = 93) := by
    rintro (rfl | rfl) <;> cases hpunct
  have hcomma : c ≠ 44 := by
    rintro rfl
    cases hpunct
  rw [JsoncState.copy, if_neg hclosing]
  simp only [copying, if_neg hcomma, h, Bool.true_eq_false, false_and, and_false, if_false]

/-- Any other character forgets the comma. -/
theorem copy_other {c : UInt8} (hblank : isspace c = false) (hclosing : ¬ (c = 125 ∨ c = 93))
    (hcomma : c ≠ 44) : (copying res lc).copy c = copying (res ++ [c]) none := by
  have hline : c ≠ 9 ∧ c ≠ 10 ∧ c ≠ 13 := by
    refine ⟨?_, ?_, ?_⟩ <;> rintro rfl <;> cases hblank
  rw [JsoncState.copy, if_neg hclosing]
  simp only [copying, if_neg hcomma, hblank, hline, ne_eq, not_false_eq_true, and_true]
  cases lc <;> rfl

theorem jsoncLoop_scalar (p : UInt8) {s : Bytes} (hne : s ≠ [])
    (h : ∀ c ∈ s, isScalarChar c = true) :
    jsoncLoop p false (s ++ rest) (copying res lc)
      = jsoncLoop 0 false rest (copying (res ++ s) none) := by
  induction s generalizing p res lc with
  | nil => exact absurd rfl hne
  | cons c s ih =>
    obtain ⟨hc, hs⟩ := List.forall_mem_cons.1 h
    obtain ⟨hblank, hpunct, hquote, hslash⟩ := isScalarChar_iff.1 hc
    have hclosing : ¬ (c = 125 ∨ c = 93) := by
      rintro (rfl | rfl) <;> cases hpunct
    have hcomma : c ≠ 44 := by
      rintro rfl
      cases hpunct
    rw [List.cons_append, jsoncLoop_copy p hquote hslash, copy_other hblank hclosing hcomma]
    by_cases hlast : s = []
    · rw [hlast, List.nil_append, jsoncLoop_prev c 0]
    · rw [ih c hlast hs, List.append_assoc, List.singleton_append]

/-- What is left of a token: a closing bracket takes the comma in front of it out. -/
theorem jsoncLoop_token (p : UInt8) {a : JsonToken} (h : a.Ok) :
    jsoncLoop p false (a.text ++ rest) (copying res lc)
      = jsoncLoop 0 false rest (copying
          ((if closesNext [a] then dropComma res lc else res) ++ a.text)
          (if a = .punct 44 then some res.length else none)) := by
  cases a with
  | punct c =>
    have hquote : c ≠ 34 := by
      rintro rfl
      cases h
    have hslash : c ≠ 47 := by
      rintro rfl
      cases h
    rw [JsonToken.text, List.singleton_append, jsoncLoop_copy p hquote hslash]
    by_cases hcomma : c = 44
    · rw [hcomma, copy_comma, jsoncLoop_prev 44 0]
      rfl
    · have htoken : JsonToken.punct c ≠ .punct 44 := fun heq => hcomma (JsonToken.punct.inj heq)
      rw [if_neg htoken]
      by_cases hclosing : c = 125 ∨ c = 93
      · have hnext : closesNext [.punct c] = true := by simpa [closesNext] using hclosing
        rw [copy_closing hclosing, if_pos hnext, jsoncLoop_prev c 0]
      · have hnext : ¬ closesNext [.punct c] = true := by simpa [closesNext] using hclosing
        rw [copy_other (isspace_of_isPunct h) hclosing hcomma, if_neg hnext, jsoncLoop_prev c 0]
  | str s =>
    have hin := @jsoncLoop_inStr (res ++ [34]) rest 34 s h
    rw [JsonToken.text, List.cons_append, jsoncLoop_step rfl, List.append_assoc]
    refine hin.trans ?_
    simp [closesNext]
  | scalar s => exact jsoncLoop_scalar p h.1 h.2

end Piece

/-! ## All pieces -/

/-- What a piece in front of others leaves in the text. -/
def JsoncPiece.left : JsoncPiece → List JsoncPiece → Bytes
  | .token a, ps => if a = .punct 44 ∧ closesNext (tokensOf ps) then [] else a.text
  | .blank c, _ => [c]
  | .line body, _ => lineEnds 47 (body ++ [10])
  | .block body, _ => lineEnds 42 body

def stripped : List JsoncPiece → Bytes
  | [] => []
  | p :: ps => p.left ps ++ stripped ps

/-- A block comment that begins with a slash is over when it begins. -/
def JsoncPiece.ReadAsWritten : JsoncPiece → Prop
  | .block body => body.head? ≠ some 47
  | _ => True

section Pieces

variable {res rest : Bytes} {lc : Option Nat}

/-- Between tokens the comma stays remembered. -/
theorem jsoncLoop_gap (prev : UInt8) {p : JsoncPiece} (hok : p.Ok) (hread : p.ReadAsWritten)
    (hgap : p.toToken = none) (ps : List JsoncPiece) :
    jsoncLoop prev false (p.text ++ rest) (copying res lc)
      = jsoncLoop 0 false rest (copying (res ++ p.left ps) lc) := by
  cases p with
  | token a => cases hgap
  | blank c =>
    have hpunct : c ≠ 34 ∧ c ≠ 47 := by
      constructor <;> rintro rfl <;> cases hok
    rw [JsoncPiece.text, List.singleton_append, jsoncLoop_copy prev hpunct.1 hpunct.2, copy_blank hok,
      jsoncLoop_prev c 0]
    rfl
  | line body =>
    have hcomment := @jsoncLoop_lineComment res rest lc 47 body hok
    rw [JsoncPiece.text, List.cons_append, List.cons_append, List.append_assoc,
      jsoncLoop_step rfl, jsoncLoop_step rfl]
    exact hcomment
  | block body =>
    have hin : ¬ [42, 47] <:+: 42 :: (body ++ [42]) := by
      rw [List.infix_cons_iff, List.cons_prefix_cons]
      rintro (⟨-, hfirst⟩ | hlater)
      · rcases body with - | ⟨b, body⟩
        · exact absurd hfirst (by decide)
        · obtain rfl : 47 = b := (List.cons_prefix_cons.1 hfirst).1
          exact hread rfl
      · exact hok hlater
    have hcomment := @jsoncLoop_blockComment res rest lc 42 body hin
    rw [JsoncPiece.text, List.cons_append, List.cons_append, List.append_assoc,
      jsoncLoop_step rfl, jsoncLoop_step rfl]
    exact hcomment

theorem dropComma_append (h : ∀ k, lc = some k → k < res.length) (b : Bytes) :
    dropComma (res ++ b) lc = dropComma res lc ++ b := by
  cases lc with
  | none => rfl
  | some k =>
    have hk := h k rfl
    rw [dropComma, dropComma, List.take_append_of_le_length (by omega),
      List.drop_append_of_le_length (by omega), List.append_assoc]

theorem closesNext_cons (a : JsonToken) (ts : List JsonToken) :
    closesNext (a :: ts) = closesNext [a] := by
  cases a <;> rfl

/-- The text that is left, behind what has been copied. -/
theorem jsoncLoop_pieces (prev : UInt8) {ps : List JsoncPiece} (hok : ∀ p ∈ ps, p.Ok)
    (hread : ∀ p ∈ ps, p.ReadAsWritten) (hlc : ∀ k, lc = some k → k < res.length) :
    jsoncLoop prev false (ps.flatMap JsoncPiece.text) (copying res lc)
      = .ok ((if closesNext (tokensOf ps) then dropComma res lc else res) ++ stripped ps) := by
  induction ps generalizing prev res lc with
  | nil =>
    rw [List.flatMap_nil, jsoncLoop, stripped, List.append_nil]
    rfl
  | cons p ps ih =>
    obtain ⟨hp, hps⟩ := List.forall_mem_cons.1 hok
    obtain ⟨hpr, hpsr⟩ := List.forall_mem_cons.1 hread
    rw [List.flatMap_cons, stripped]
    cases hgap : p.toToken with
    | none =>
      have htokens : tokensOf (p :: ps) = tokensOf ps := List.filterMap_cons_none hgap
      have hlonger : ∀ k, lc = some k → k < (res ++ p.left ps).length := by
        intro k hk
        rw [List.length_append]
        exact Nat.lt_add_right _ (hlc k hk)
      rw [jsoncLoop_gap prev hp hpr hgap ps, ih 0 hps hpsr hlonger, dropComma_append hlc, htokens]
      split <;> rw [List.append_assoc]
    | some a =>
      obtain rfl : p = .token a := by
        cases p <;> simp_all [JsoncPiece.toToken]
      have htokens : tokensOf (.token a :: ps) = a :: tokensOf ps := rfl
      rw [htokens, closesNext_cons, JsoncPiece.text, jsoncLoop_token prev hp]
      by_cases hcomma : a = .punct 44
      · have hend : ∀ k, some res.length = some k → k < (res ++ a.text).length := by
          rintro k ⟨⟩
          rw [hcomma, List.length_append]
          exact Nat.lt_succ_self _
        have hdrop : dropComma (res ++ [44]) (some res.length) = res := by
          rw [dropComma, List.take_left, List.drop_eq_nil_of_le (by simp), List.append_nil]
        have hnot : ¬ closesNext [a] = true := by rw [hcomma]; decide
        have hleft : (JsoncPiece.token a).left ps
            = if closesNext (tokensOf ps) then [] else [44] := by
          simp only [JsoncPiece.left, hcomma, true_and, JsonToken.text]
        rw [if_pos hcomma, if_neg hnot, ih 0 hps hpsr hend, hleft, hcomma, JsonToken.text, hdrop]
        split <;> simp
      · have hnone : ∀ k, (none : Option Nat) = some k →
            k < ((if closesNext [a] then dropComma res lc else res) ++ a.text).length := by
          rintro k ⟨⟩
        have hleft : (JsoncPiece.token a).left ps = a.text := if_neg fun h => hcomma h.1
        have hsame : ∀ r, (if closesNext (tokensOf ps) then dropComma r none else r) = r := by
          intro r
          split <;> rfl
        rw [if_neg hcomma, ih 0 hps hpsr hnone, hleft, hsame, List.append_assoc]

end Pieces

/-! ## What is parsed -/

theorem handedOver_iff {jsonwc res : Bytes} :
    HandedOver jsonwc res ↔ jsoncLoop 0 false jsonwc {} = .ok res := by
  constructor
  · intro h
    have hsame := h Bytes .ok
    unfold parseJsoncString at hsame
    cases hloop : jsoncLoop 0 false jsonwc {} with
    | error e =>
      rw [hloop] at hsame
      cases hsame
    | ok r =>
      rw [hloop] at hsame
      exact hsame
  · intro h A parse
    rw [parseJsoncString, h]
    rfl

/-- The tokens are the expected ones; or there are fewer, if two words have become one. -/
def ReadAs (glued : Bool) (expected : List JsonToken) (read : Option (List JsonToken)) : Prop :=
  ∃ ts, read = some ts ∧ if glued then ts.length < expected.length else ts = expected

theorem ReadAs.append {glued : Bool} {expected : List JsonToken} {read : Option (List JsonToken)}
    (h : ReadAs glued expected read) (front : List JsonToken) :
    ReadAs glued (front ++ expected) (read.map (front ++ ·)) := by
  obtain ⟨ts, rfl, hts⟩ := h
  refine ⟨front ++ ts, rfl, ?_⟩
  cases glued with
  | true => simpa using hts
  | false => exact congrArg (front ++ ·) hts

theorem lineEnds_blank (prev : UInt8) (b : Bytes) : ∀ c ∈ lineEnds prev b, isspace c = true := by
  induction b generalizing prev with
  | nil => exact fun c hc => absurd hc List.not_mem_nil
  | cons a b ih =>
    intro c hc
    rcases List.mem_append.1 hc with hc | hc
    · have hends : ∀ c ∈ keepLineEnd prev, isspace c = true := by
        unfold keepLineEnd
        split <;> exact forall_mem_of_all (by decide)
      split at hc
      · exact hends c hc
      · cases hc
    · exact ih a c hc

theorem lineEnds_eq_nil_iff (prev : UInt8) (b : Bytes) : lineEnds prev b = [] ↔ 10 ∉ b := by
  induction b generalizing prev with
  | nil => simp [lineEnds]
  | cons a b ih =>
    have hends : keepLineEnd prev ≠ [] := by
      unfold keepLineEnd
      split <;> exact List.cons_ne_nil _ _
    rw [lineEnds, List.append_eq_nil_iff, ih, List.mem_cons, not_or]
    refine and_congr_left fun _ => ?_
    by_cases ha : a = 10
    · simp [ha, hends]
    · simp [ha, Ne.symm ha]

/-- A comment with a line end ends a word. -/
theorem lexJson_lineEnds {word t : Bytes} {b : Bytes} (hne : b ≠ []) (h : ∀ c ∈ b, isspace c = true) :
    lexJson (.between word) (b ++ t) = (lexJson (.between []) t).map (begun word ++ ·) := by
  obtain ⟨c, b, rfl⟩ := List.exists_cons_of_ne_nil hne
  obtain ⟨hc, hb⟩ := List.forall_mem_cons.1 h
  rw [List.cons_append, lexJson_blank hc, lexJson_blanks hb]

/-- A token that is left is read again. -/
theorem lexJson_kept {a : JsonToken} (hok : a.Ok) (hword : a.isScalar = false) (word t : Bytes) :
    lexJson (.between word) (a.text ++ t)
      = (lexJson (.between []) t).map (begun word ++ [a] ++ ·) := by
  cases a with
  | punct c =>
    rw [JsonToken.text, List.singleton_append, lexJson_punct hok]
    simp
  | str s =>
    rw [lexJson_str hok]
    simp
  | scalar s => cases hword

theorem lexJson_stripped_token {a : JsonToken} (hok : a.Ok) (ps : List JsoncPiece) (word : Bytes)
    (ih : ∀ w, ReadAs (gluesWords (!w.isEmpty) ps) (begun w ++ dropTrailingCommas (tokensOf ps))
      (lexJson (.between w) (stripped ps))) :
    ReadAs (gluesWords (!word.isEmpty) (.token a :: ps))
      (begun word ++ dropTrailingCommas (a :: tokensOf ps))
      (lexJson (.between word) ((JsoncPiece.token a).left ps ++ stripped ps)) := by
  by_cases hdrop : a = .punct 44 ∧ closesNext (tokensOf ps)
  · obtain ⟨rfl, hcloses⟩ := hdrop
    have hglue : gluesWords (!word.isEmpty) (.token (.punct 44) :: ps)
        = gluesWords (!word.isEmpty) ps := by
      rw [gluesWords_closing hcloses (!word.isEmpty)]
      simp [gluesWords, JsonToken.isScalar]
    rw [JsoncPiece.left, if_pos ⟨rfl, hcloses⟩, List.nil_append, hglue, dropTrailingCommas_comma,
      if_pos hcloses]
    exact ih word
  · have hleft : (JsoncPiece.token a).left ps = a.text := if_neg hdrop
    have hkeep : dropTrailingCommas (a :: tokensOf ps) = a :: dropTrailingCommas (tokensOf ps) := by
      by_cases hcomma : a = .punct 44
      · rw [hcomma, dropTrailingCommas_comma, if_neg fun h => hdrop ⟨hcomma, h⟩]
      · exact dropTrailingCommas_other hcomma _
    rw [hleft, hkeep]
    by_cases hword : a.isScalar = true
    · obtain ⟨s, rfl⟩ : ∃ s, a = .scalar s := by
        cases a with
        | punct c => cases hword
        | str s => cases hword
        | scalar s => exact ⟨s, rfl⟩
      have hlonger : word ++ s ≠ [] := fun h => hok.1 (List.append_eq_nil_iff.1 h).2
      have hbegun : begun (word ++ s) = [.scalar (word ++ s)] := if_neg hlonger
      have hpending : (!(word ++ s).isEmpty) = true := by simpa using hlonger
      have hnext := ih (word ++ s)
      rw [hbegun, hpending] at hnext
      rw [JsonToken.text, lexJson_scalar hok.2, gluesWords, hword, Bool.and_true]
      rcases word with - | ⟨c, word⟩
      · exact hnext
      · -- the word has become a longer one
        obtain ⟨ts, hread, hts⟩ := hnext
        refine ⟨ts, hread, ?_⟩
        have hfewer : ts.length ≤ 1 + (dropTrailingCommas (tokensOf ps)).length := by
          split at hts
          · simp only [List.length_append, List.length_singleton] at hts
            omega
          · rw [hts, List.length_append, List.length_singleton]
        have hlength : (begun (c :: word) ++ .scalar s :: dropTrailingCommas (tokensOf ps)).length
            = (dropTrailingCommas (tokensOf ps)).length + 2 := by
          rw [begun, if_neg (List.cons_ne_nil _ _)]
          simp
        rw [List.isEmpty_cons, Bool.not_false, Bool.true_or, if_pos rfl, hlength]
        omega
    · have hend : a.isScalar = false := Bool.not_eq_true _ ▸ hword
      have hnext := (ih []).append (begun word ++ [a])
      rw [lexJson_kept hok hend, gluesWords, hend, Bool.and_false, Bool.false_or]
      rw [List.append_assoc, List.singleton_append] at hnext
      exact hnext

/-- The tokens of the text that is left are those that were there, unless two words have become one. -/
theorem lexJson_stripped {ps : List JsoncPiece} (hok : ∀ p ∈ ps, p.Ok) (word : Bytes) :
    ReadAs (gluesWords (!word.isEmpty) ps) (begun word ++ dropTrailingCommas (tokensOf ps))
      (lexJson (.between word) (stripped ps)) := by
  induction ps generalizing word with
  | nil => exact ⟨begun word, rfl, (List.append_nil _).symm⟩
  | cons p ps ih =>
    obtain ⟨hp, hps⟩ := List.forall_mem_cons.1 hok
    have hnext := (ih hps []).append (begun word)
    rw [stripped]
    cases p with
    | token a => exact lexJson_stripped_token hp ps word fun w => ih hps w
    | blank c =>
      rw [JsoncPiece.left, List.singleton_append, lexJson_blank hp]
      exact hnext
    | line body =>
      have hne : lineEnds 47 (body ++ [10]) ≠ [] := by
        rw [Ne, lineEnds_eq_nil_iff, not_not]
        simp
      rw [JsoncPiece.left, lexJson_lineEnds hne (lineEnds_blank _ _)]
      exact hnext
    | block body =>
      rw [JsoncPiece.left, gluesWords]
      by_cases hline : 10 ∈ body
      · have hne : lineEnds 42 body ≠ [] := by
          rw [Ne, lineEnds_eq_nil_iff, not_not]
          exact hline
        rw [lexJson_lineEnds hne (lineEnds_blank _ _), List.contains_iff_mem.2 hline, Bool.not_true,
          Bool.and_false]
        exact hnext
      · have hnil : lineEnds 42 body = [] := (lineEnds_eq_nil_iff _ _).2 hline
        have hfree : body.contains 10 = false := by simpa using hline
        rw [hnil, List.nil_append, hfree, Bool.not_false, Bool.and_true]
        exact ih hps word

/-- Where there is nothing to take out, the text is left as it is. -/
theorem stripped_eq_text {ps : List JsoncPiece} (hcomments : ∀ p ∈ ps, p.isComment = false)
    (hcommas : dropTrailingCommas (tokensOf ps) = tokensOf ps) :
    stripped ps = ps.flatMap JsoncPiece.text := by
  induction ps with
  | nil => rfl
  | cons p ps ih =>
    obtain ⟨hp, hps⟩ := List.forall_mem_cons.1 hcomments
    rw [stripped, List.flatMap_cons]
    cases p with
    | token a =>
      have htokens : tokensOf (.token a :: ps) = a :: tokensOf ps := rfl
      rw [htokens] at hcommas
      have hkept : ¬ (a = .punct 44 ∧ closesNext (tokensOf ps)) := by
        rintro ⟨rfl, hcloses⟩
        have hle := length_dropTrailingCommas_le (tokensOf ps)
        rw [dropTrailingCommas_comma, if_pos hcloses] at hcommas
        rw [hcommas, List.length_cons] at hle
        omega
      have hrest : dropTrailingCommas (tokensOf ps) = tokensOf ps := by
        by_cases hcomma : a = .punct 44
        · rw [hcomma, dropTrailingCommas_comma, if_neg fun h => hkept ⟨hcomma, h⟩] at hcommas
          exact (List.cons.inj hcommas).2
        · rw [dropTrailingCommas_other hcomma] at hcommas
          exact (List.cons.inj hcommas).2
      rw [JsoncPiece.left, if_neg hkept, ih hps hrest, JsoncPiece.text]
    | blank c =>
      rw [JsoncPiece.left, ih hps hcommas]
      rfl
    | line body => cases hp
    | block body => cases hp

namespace JsoncText

variable (d : JsoncText)

theorem handedOver_stripped (hread : ∀ p ∈ d.pieces, p.ReadAsWritten) :
    HandedOver d.text (stripped d.pieces) := by
  have hloop := @jsoncLoop_pieces [] none 0 d.pieces d.ok hread (by rintro k ⟨⟩)
  rw [handedOver_iff]
  refine hloop.trans ?_
  split <;> rfl

/-- Of a text in which no block comment begins with a slash, the parser is given the tokens, unless two
    words have only block comments between them, without a line end. -/
theorem transparent_iff (hread : ∀ p ∈ d.pieces, p.ReadAsWritten) :
    d.Transparent ↔ gluesWords false d.pieces = false := by
  have hover := d.handedOver_stripped hread
  obtain ⟨ts, htokens, hts⟩ := lexJson_stripped d.ok []
  constructor
  · intro h
    obtain ⟨res, hres, hexpected⟩ := h.tokens
    have hsame : res = stripped d.pieces := by
      rw [handedOver_iff] at hover hres
      exact Except.ok.inj (hres.symm.trans hover)
    have hlist : ts = dropTrailingCommas d.tokens := by
      rw [hsame, jsonTokens, htokens] at hexpected
      exact Option.some.inj hexpected
    by_contra hglued
    rw [List.isEmpty_nil, Bool.not_true, if_pos (Bool.not_eq_false _ ▸ hglued), hlist] at hts
    exact Nat.lt_irrefl _ hts
  · intro h
    refine ⟨⟨stripped d.pieces, hover, ?_⟩, ?_⟩
    · rw [List.isEmpty_nil, Bool.not_true, if_neg (by simp [h])] at hts
      rw [jsonTokens, htokens, hts]
      rfl
    · intro hcomments hcommas
      rw [stripped_eq_text hcomments hcommas] at hover
      exact hover

end JsoncText

/-- `["//\"",/* 2 */]`. -/
def quotedSlashes : JsoncText where
  pieces := [.token (.punct 91), .token (.str [47, 47, 92, 34]), .token (.punct 44),
    .block (bytes " 2 "), .token (.punct 93)]
  ok := by
    have hbody : StrBody [47, 47, 92, 34] :=
      .plain (by decide) (by decide) (.plain (by decide) (by decide) (.escaped (by decide) .nil))
    have hblock : (JsoncPiece.block (bytes " 2 ")).Ok := by
      unfold JsoncPiece.Ok
      decide
    intro p hp
    simp only [List.mem_cons, List.not_mem_nil, or_false] at hp
    rcases hp with rfl | rfl | rfl | rfl | rfl
    · exact (rfl : isPunct 91 = true)
    · exact hbody
    · exact (rfl : isPunct 44 = true)
    · exact hblock
    · exact (rfl : isPunct 93 = true)
  separate := by decide

theorem quotedSlashes_transparent :
    quotedSlashes.Transparent ↔ gluesWords false quotedSlashes.pieces = false := by
  refine quotedSlashes.transparent_iff fun p hp => ?_
  simp only [quotedSlashes, List.mem_cons, List.not_mem_nil, or_false] at hp
  rcases hp with rfl | rfl | rfl | rfl | rfl
  · trivial
  · trivial
  · trivial
  · unfold JsoncPiece.ReadAsWritten
    decide
  · trivial

/-- `[1/*/ 2 */]`. -/
def slashComment : JsoncText where
  pieces := [.token (.punct 91), .token (.scalar (bytes "1")), .block (bytes "/ 2 "),
    .token (.punct 93)]
  ok := by
    have hword : (JsonToken.scalar (bytes "1")).Ok := ⟨by decide, forall_mem_of_all (by decide)⟩
    have hblock : (JsoncPiece.block (bytes "/ 2 ")).Ok := by
      unfold JsoncPiece.Ok
      decide
    intro p hp
    simp only [List.mem_cons, List.not_mem_nil, or_false] at hp
    rcases hp with rfl | rfl | rfl | rfl
    · exact (rfl : isPunct 91 = true)
    · exact hword
    · exact hblock
    · exact (rfl : isPunct 93 = true)
  separate := by decide

/-- The comment is over in front of the 2, and its end is left in the text. -/
theorem slashComment_not_transparent : ¬ slashComment.Transparent := by
  have hloop : jsoncLoop 0 false slashComment.text {} = .ok (bytes "[1 2 */]") := rfl
  intro h
  obtain ⟨res, hres, htokens⟩ := h.tokens
  have hsame : res = bytes "[1 2 */]" := Except.ok.inj ((handedOver_iff.1 hres).symm.trans hloop)
  rw [hsame] at htokens
  exact absurd htokens (by decide)

-- what is behind the slash may be a comment again
example : jsoncLoop 0 false (bytes "[/*//**/]") {} = .ok (bytes "[]") := rfl

end LibEvmvc
