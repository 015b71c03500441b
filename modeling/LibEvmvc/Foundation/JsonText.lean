import LibEvmvc.Foundation.Bytes

set_option autoImplicit false

/-! # Texts of JSON tokens

`jsonTokens` splits a text into JSON's tokens. Nothing is asked of their order, and a number or a
word may be any run of characters that cannot belong to another token. A text with comments is a
list of pieces: tokens, blanks and comments. -/

namespace LibEvmvc

/-- Commas, colons, brackets and braces. -/
def isPunct (c : UInt8) : Bool := [44, 58, 91, 93, 123, 125].contains c

/-- The characters of numbers and words. -/
def isScalarChar (c : UInt8) : Bool := !isspace c && !isPunct c && c != 34 && c != 47

/-- What is between the quotes of a string: a quote or a backslash has a backslash in front of it, and a
    backslash is not followed by NUL. -/
inductive StrBody : Bytes → Prop where
  | nil : StrBody []
  | plain {c : UInt8} {s : Bytes} : c ≠ 34 → c ≠ 92 → StrBody s → StrBody (c :: s)
  | escaped {c : UInt8} {s : Bytes} : c ≠ 0 → StrBody s → StrBody (92 :: c :: s)

inductive JsonToken where
  | punct (c : UInt8)
  -- what is between the quotes, as it is written
  | str (s : Bytes)
  | scalar (s : Bytes)
  deriving DecidableEq, Repr

namespace JsonToken

def text : JsonToken → Bytes
  | .punct c => [c]
  | .str s => 34 :: (s ++ [34])
  | .scalar s => s

def Ok : JsonToken → Prop
  | .punct c => isPunct c = true
  | .str s => StrBody s
  | .scalar s => s ≠ [] ∧ ∀ c ∈ s, isScalarChar c = true

def isScalar : JsonToken → Bool
  | .scalar _ => true
  | _ => false

end JsonToken

/-! ## Splitting a text -/

/-- Between two strings, with the number or word that has begun; or within a string. -/
inductive JsonMode where
  | between (word : Bytes)
  | inStr (s : Bytes)
  | escape (s : Bytes)

/-- The number or word that has begun, if any. -/
def begun (word : Bytes) : List JsonToken := if word = [] then [] else [.scalar word]

def lexJson : JsonMode → Bytes → Option (List JsonToken)
  | .between word, [] => some (begun word)
  | .inStr _, [] => none
  | .escape _, [] => none
  | .between word, c :: t =>
    if isspace c then (lexJson (.between []) t).map (begun word ++ ·)
    else if isPunct c then (lexJson (.between []) t).map (begun word ++ .punct c :: ·)
    else if c = 34 then (lexJson (.inStr []) t).map (begun word ++ ·)
    else if c = 47 then none
    else lexJson (.between (word ++ [c])) t
  | .inStr s, c :: t =>
    if c = 34 then (lexJson (.between []) t).map (.str s :: ·)
    else if c = 92 then lexJson (.escape s) t
    else lexJson (.inStr (s ++ [c])) t
  | .escape s, c :: t => lexJson (.inStr (s ++ [92, c])) t

/-- The tokens of a text, if it is made of tokens and blanks. -/
def jsonTokens (text : Bytes) : Option (List JsonToken) := lexJson (.between []) text

theorem isPunct_iff {c : UInt8} : isPunct c = true ↔ c ∈ ([44, 58, 91, 93, 123, 125] : Bytes) :=
  List.contains_iff_mem

theorem isspace_of_isPunct {c : UInt8} (h : isPunct c = true) : isspace c = false := by
  have hall : ([44, 58, 91, 93, 123, 125] : Bytes).all (fun c => !isspace c) = true := by decide
  simpa using List.all_eq_true.1 hall c (isPunct_iff.1 h)

theorem isScalarChar_iff {c : UInt8} :
    isScalarChar c = true ↔ isspace c = false ∧ isPunct c = false ∧ c ≠ 34 ∧ c ≠ 47 := by
  simp [isScalarChar, and_assoc]

section Lex

variable {word t : Bytes}

theorem lexJson_between (word : Bytes) (c : UInt8) (t : Bytes) :
    lexJson (.between word) (c :: t)
      = if isspace c then (lexJson (.between []) t).map (begun word ++ ·)
        else if isPunct c then (lexJson (.between []) t).map (begun word ++ .punct c :: ·)
        else if c = 34 then (lexJson (.inStr []) t).map (begun word ++ ·)
        else if c = 47 then none
        else lexJson (.between (word ++ [c])) t := rfl

theorem lexJson_inStr_cons (s : Bytes) (c : UInt8) (t : Bytes) :
    lexJson (.inStr s) (c :: t)
      = if c = 34 then (lexJson (.between []) t).map (.str s :: ·)
        else if c = 92 then lexJson (.escape s) t
        else lexJson (.inStr (s ++ [c])) t := rfl

theorem lexJson_escape (s : Bytes) (c : UInt8) (t : Bytes) :
    lexJson (.escape s) (c :: t) = lexJson (.inStr (s ++ [92, c])) t := rfl

theorem lexJson_blank {c : UInt8} (h : isspace c = true) :
    lexJson (.between word) (c :: t) = (lexJson (.between []) t).map (begun word ++ ·) := by
  rw [lexJson_between, if_pos h]

/-- Where no word has begun, blanks make no difference. -/
theorem lexJson_blanks {b : Bytes} (h : ∀ c ∈ b, isspace c = true) :
    lexJson (.between []) (b ++ t) = lexJson (.between []) t := by
  induction b with
  | nil => rfl
  | cons c b ih =>
    obtain ⟨hc, hb⟩ := List.forall_mem_cons.1 h
    rw [List.cons_append, lexJson_blank hc, ih hb]
    exact Option.map_id'

theorem lexJson_punct {c : UInt8} (h : isPunct c = true) :
    lexJson (.between word) (c :: t)
      = (lexJson (.between []) t).map (begun word ++ .punct c :: ·) := by
  have hblank := isspace_of_isPunct h
  rw [lexJson_between, if_neg (by simp [hblank]), if_pos h]

theorem lexJson_inStr {s acc : Bytes} (h : StrBody s) :
    lexJson (.inStr acc) (s ++ 34 :: t) = (lexJson (.between []) t).map (.str (acc ++ s) :: ·) := by
  induction h generalizing acc with
  | nil => rw [List.nil_append, lexJson_inStr_cons, if_pos rfl, List.append_nil]
  | plain hquote hescape _ ih =>
    rw [List.cons_append, lexJson_inStr_cons, if_neg hquote, if_neg hescape, ih, List.append_assoc,
      List.singleton_append]
  | escaped _ _ ih =>
    rw [List.cons_append, List.cons_append, lexJson_inStr_cons, if_neg (by decide), if_pos rfl,
      lexJson_escape, ih, List.append_assoc]
    rfl

theorem lexJson_str {s : Bytes} (h : StrBody s) :
    lexJson (.between word) ((JsonToken.str s).text ++ t)
      = (lexJson (.between []) t).map (begun word ++ .str s :: ·) := by
  have hin := @lexJson_inStr t s [] h
  rw [JsonToken.text, List.cons_append, List.append_assoc, List.singleton_append, lexJson_between,
    if_neg (by decide), if_neg (by decide), if_pos rfl, hin, Option.map_map, List.nil_append]
  rfl

/-- The characters of a word are added to what has begun. -/
theorem lexJson_scalar {s : Bytes} (h : ∀ c ∈ s, isScalarChar c = true) :
    lexJson (.between word) (s ++ t) = lexJson (.between (word ++ s)) t := by
  induction s generalizing word with
  | nil => rw [List.nil_append, List.append_nil]
  | cons c s ih =>
    obtain ⟨hc, hs⟩ := List.forall_mem_cons.1 h
    obtain ⟨hblank, hpunct, hquote, hslash⟩ := isScalarChar_iff.1 hc
    rw [List.cons_append, lexJson_between, if_neg (by simp [hblank]), if_neg (by simp [hpunct]),
      if_neg hquote, if_neg hslash, ih hs, List.append_assoc, List.singleton_append]

end Lex

/-! ## Commas in front of a closing bracket -/

/-- The first token closes an array or an object. -/
def closesNext : List JsonToken → Bool
  | .punct c :: _ => c == 125 || c == 93
  | _ => false

def dropTrailingCommas : List JsonToken → List JsonToken
  | [] => []
  | .punct 44 :: ts =>
    if closesNext ts then dropTrailingCommas ts else .punct 44 :: dropTrailingCommas ts
  | a :: ts => a :: dropTrailingCommas ts

theorem length_dropTrailingCommas_le (ts : List JsonToken) :
    (dropTrailingCommas ts).length ≤ ts.length := by
  fun_induction dropTrailingCommas ts with
  | case1 => exact Nat.le_refl _
  | case2 ts hcloses ih => exact ih.trans (Nat.le_succ _)
  | case3 ts hcloses ih => exact Nat.succ_le_succ ih
  | case4 a ts hcomma ih => exact Nat.succ_le_succ ih

theorem dropTrailingCommas_comma (ts : List JsonToken) :
    dropTrailingCommas (.punct 44 :: ts)
      = if closesNext ts then dropTrailingCommas ts else .punct 44 :: dropTrailingCommas ts := rfl

theorem dropTrailingCommas_other {a : JsonToken} (h : a ≠ .punct 44) (ts : List JsonToken) :
    dropTrailingCommas (a :: ts) = a :: dropTrailingCommas ts := by
  rw [dropTrailingCommas]
  exact h

/-! ## Texts with comments -/

inductive JsoncPiece where
  | token (a : JsonToken)
  | blank (c : UInt8)
  -- to the end of the line
  | line (body : Bytes)
  | block (body : Bytes)

namespace JsoncPiece

def text : JsoncPiece → Bytes
  | .token a => a.text
  | .blank c => [c]
  | .line body => 47 :: 47 :: (body ++ [10])
  | .block body => 47 :: 42 :: (body ++ [42, 47])

/-- The end of a block comment is the first one behind its opening. -/
def Ok : JsoncPiece → Prop
  | .token a => a.Ok
  | .blank c => isspace c = true
  | .line body => 10 ∉ body
  | .block body => ¬ [42, 47] <:+: body ++ [42]

def toToken : JsoncPiece → Option JsonToken
  | .token a => some a
  | _ => none

def isScalar : JsoncPiece → Bool
  | .token a => a.isScalar
  | _ => false

def isComment : JsoncPiece → Bool
  | .line _ => true
  | .block _ => true
  | _ => false

end JsoncPiece

/-- A text with comments: between two numbers or words there is something. -/
structure JsoncText where
  pieces : List JsoncPiece
  ok : ∀ p ∈ pieces, p.Ok
  separate : pieces.IsChain fun p q => ¬ (p.isScalar ∧ q.isScalar)

def tokensOf (ps : List JsoncPiece) : List JsonToken := ps.filterMap JsoncPiece.toToken

namespace JsoncText

variable (d : JsoncText)

def text : Bytes := d.pieces.flatMap JsoncPiece.text

def tokens : List JsonToken := tokensOf d.pieces

end JsoncText

/-- There are two numbers or words with nothing between them but block comments without a line end;
    `pending` if the first one has been passed. -/
def gluesWords : Bool → List JsoncPiece → Bool
  | _, [] => false
  | pending, .token a :: ps => (pending && a.isScalar) || gluesWords a.isScalar ps
  | _, .blank _ :: ps => gluesWords false ps
  | _, .line _ :: ps => gluesWords false ps
  | pending, .block body :: ps => gluesWords (pending && !body.contains 10) ps

/-- In front of a closing bracket it makes no difference that a word has been passed. -/
theorem gluesWords_closing {ps : List JsoncPiece} (h : closesNext (tokensOf ps) = true)
    (pending : Bool) : gluesWords pending ps = gluesWords false ps := by
  induction ps generalizing pending with
  | nil => rfl
  | cons p ps ih =>
    cases p with
    | token a =>
      cases a with
      | punct c => simp [gluesWords, JsonToken.isScalar]
      | str s => cases h
      | scalar s => cases h
    | blank c => rfl
    | line body => rfl
    | block body => exact ih h _

end LibEvmvc
