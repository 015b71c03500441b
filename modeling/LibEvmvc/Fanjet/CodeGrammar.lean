import LibEvmvc.Fanjet.Parser

set_option autoImplicit false

/-! # The code in a code block

Code as the parsers of the nodes should read it: plain tokens, strings, what is in parentheses, blocks,
and statements, whose bodies are blocks. A brace or a parenthesis in a string counts for nothing.

The parsers do not look at every token. The node of an `if`, `switch`, `while`, `for` or `try` is closed
with the token behind the statement, whatever that is; in an expression the token behind an operator is
passed over; `return` and `throw` open an expression that only a `;` ends; and a `\\` in front of a quote
escapes it, even if it is itself escaped. `Reads false` is the code that is meant, `Reads true` that
which is read as it is meant in spite of that. -/

namespace LibEvmvc

namespace Fanjet

/-! ## Tokens -/

/-- The tokens that open something of fanjet's own. -/
def fanWords : List String :=
  ["@**", "@*", "*@", "@region", "@endregion", "@path", "@name", "@namespace", "@ns", "@layout",
    "@header", "@inherits", "@include", "@<", "@await", "@(", "@add-section", "@write-section",
    "@filename", "@dirname", "@body", "@scripts", "@styles", "@>", "@set", "@get", "@fmt", "@get-raw",
    "@fmt-raw", "@import", "@script", "@style", "@::", "@:"]

/-- The tokens that open something in code. -/
def codeWords : List String :=
  fanWords ++ ["(", "\"", "'", "\x7b", "if", "switch", "while", "for", "do", "try"]

/-- The tokens that open something in an expression. -/
def exprWords : List String := fanWords ++ ["(", "\"", "'", "\x7b"]

/-- The token that ends an expression. -/
def ExprType.close : ExprType → String
  | .parens => ")"
  | .semicol => ";"

/-- White space. -/
def Token.isGap (t : Token) : Bool := t.text.all isspace

/-- The first token that is no white space does not continue a statement. -/
def StatementEnds (ts : List Token) : Prop :=
  (ts.find? fun t => !t.isGap).any (·.isAny ["else", "catch"]) = false

/-- A token that stands for itself in code. As it is read, that may be a parenthesis that is left over,
    or an `else` or `catch` of a statement that was taken apart, but neither `return` nor `throw`. -/
structure PlainInCode (asRead : Bool) (t : Token) : Prop where
  ne : t.text ≠ []
  opens : t.isAny codeWords = false
  close : t.is "\x7d" = false
  read : asRead = true → t.isAny ["return", "throw"] = false
  meant : asRead = false → t.isAny [")", "@\x7b", "@\x7d", "else", "catch"] = false

/-- A token that stands for itself in an expression. -/
structure PlainInExpr (asRead : Bool) (type : ExprType) (t : Token) : Prop where
  ne : t.text ≠ []
  opens : t.isAny exprWords = false
  close : t.is type.close = false
  read : asRead = true → t.isAny ["return", "throw"] = false
  meant : asRead = false → t.isAny [")", "\x7d", "@\x7b", "@\x7d"] = false

/-- What is between the quotes `q`. A backslash escapes what is behind it. -/
inductive StringBody (asRead : Bool) (q : Bytes) : List Token → Prop
  | nil : StringBody asRead q []
  | char {t : Token} {ts : List Token} (hne : t.text ≠ []) (hq : t.text ≠ q)
      (hslash : ¬ bytes "\\" <+: t.text) (hts : StringBody asRead q ts) : StringBody asRead q (t :: ts)
  | escape {b t : Token} {ts : List Token} (hb : b.is "\\" = true) (hne : t.text ≠ [])
      (hslash : t.is "\\" = true ∨ ¬ bytes "\\" <+: t.text)
      (hlast : asRead = true → t.is "\\" = true → ts ≠ []) (hts : StringBody asRead q ts) :
      StringBody asRead q (b :: t :: ts)

/-! ## Code -/

/-- What a list of tokens is read as. -/
inductive CodePart where
  /-- the inside of a block; if `taken`, a statement before it takes the first token -/
  | code (taken : Bool)
  /-- the inside of an expression; if `passed`, the first token is passed over -/
  | expr (type : ExprType) (passed : Bool)
  /-- a string, an expression with what opens and closes it, or a block -/
  | group
  /-- `(..)` of a statement -/
  | head
  /-- a block of a statement -/
  | body
  /-- an `if`, `switch`, `while`, `for` or `try` statement -/
  | statement
  /-- an `if` statement from behind the `if` -/
  | ifRest
  /-- the `catch` clauses -/
  | catches
  /-- a `do` statement -/
  | doWhile

/-- Tokens that are code, or a part of code. -/
inductive Reads (asRead : Bool) : CodePart → List Token → Prop
  | done : Reads asRead (.code false) []
  | plain {t : Token} {ts : List Token} (ht : PlainInCode asRead t) (hts : Reads asRead (.code false) ts) :
      Reads asRead (.code false) (t :: ts)
  | taken {t : Token} {ts : List Token} (ht : t.text ≠ []) (hts : Reads asRead (.code false) ts) :
      Reads asRead (.code true) (t :: ts)
  | grouped {g ts : List Token} (hg : Reads asRead .group g) (hts : Reads asRead (.code false) ts) :
      Reads asRead (.code false) (g ++ ts)
  | statement {s ts : List Token} (hs : Reads asRead .statement s) (hends : StatementEnds ts)
      (hts : Reads asRead (.code asRead) ts) : Reads asRead (.code false) (s ++ ts)
  | doStatement {s ts : List Token} (hs : Reads asRead .doWhile s) (hts : Reads asRead (.code false) ts) :
      Reads asRead (.code false) (s ++ ts)
  | exprDone {type : ExprType} {passed : Bool} : Reads asRead (.expr type passed) []
  | exprPlain {type : ExprType} {t : Token} {ts : List Token} (ht : PlainInExpr asRead type t)
      (hts : Reads asRead (.expr type (asRead && splitsOff type t)) ts) :
      Reads asRead (.expr type false) (t :: ts)
  | exprPassed {type : ExprType} {t : Token} {ts : List Token} (ht : t.text ≠ [])
      (hclose : t.is type.close = false) (hts : Reads asRead (.expr type false) ts) :
      Reads asRead (.expr type true) (t :: ts)
  | exprGrouped {type : ExprType} {g ts : List Token} (hg : Reads asRead .group g)
      (hts : Reads asRead (.expr type false) ts) : Reads asRead (.expr type false) (g ++ ts)
  | string {q q' : Token} {ts : List Token} (hq : q.isAny ["\"", "'"] = true) (hq' : q'.text = q.text)
      (hts : StringBody asRead q.text ts) : Reads asRead .group (q :: (ts ++ [q']))
  | parens {l r : Token} {ts : List Token} (hl : l.is "(" = true) (hr : r.is ")" = true)
      (hts : Reads asRead (.expr .parens false) ts) : Reads asRead .group (l :: (ts ++ [r]))
  | result {l r : Token} {ts : List Token} (hl : l.isAny ["return", "throw"] = true) (hr : r.is ";" = true)
      (hts : Reads asRead (.expr .semicol false) ts) : Reads asRead .group (l :: (ts ++ [r]))
  | block {l r : Token} {ts : List Token} (hl : l.is "\x7b" = true) (hr : r.is "\x7d" = true)
      (hts : Reads asRead (.code false) ts) : Reads asRead .group (l :: (ts ++ [r]))
  | head {g ts : List Token} {l r : Token} (hg : ∀ t ∈ g, t.isGap = true) (hl : l.is "(" = true)
      (hr : r.is ")" = true) (hts : Reads asRead (.expr .parens false) ts) :
      Reads asRead .head (g ++ l :: (ts ++ [r]))
  | body {g ts : List Token} {l r : Token} (hg : ∀ t ∈ g, t.isGap = true) (hl : l.is "\x7b" = true)
      (hr : r.is "\x7d" = true) (hts : Reads asRead (.code false) ts) :
      Reads asRead .body (g ++ l :: (ts ++ [r]))
  | ifStatement {k : Token} {s : List Token} (hk : k.is "if" = true) (hs : Reads asRead .ifRest s) :
      Reads asRead .statement (k :: s)
  | loop {k : Token} {h b : List Token} (hk : k.isAny ["switch", "while", "for"] = true)
      (hh : Reads asRead .head h) (hb : Reads asRead .body b) : Reads asRead .statement (k :: (h ++ b))
  | tryStatement {k : Token} {b s : List Token} (hk : k.is "try" = true) (hb : Reads asRead .body b)
      (hs : Reads asRead .catches s) : Reads asRead .statement (k :: (b ++ s))
  | ifThen {h b : List Token} (hh : Reads asRead .head h) (hb : Reads asRead .body b) :
      Reads asRead .ifRest (h ++ b)
  | ifElse {h b g b' : List Token} {e : Token} (hh : Reads asRead .head h) (hb : Reads asRead .body b)
      (hg : ∀ t ∈ g, t.isGap = true) (he : e.is "else" = true) (hb' : Reads asRead .body b') :
      Reads asRead .ifRest (h ++ (b ++ (g ++ e :: b')))
  | ifElseIf {h b g g' s : List Token} {e k : Token} (hh : Reads asRead .head h)
      (hb : Reads asRead .body b) (hg : ∀ t ∈ g, t.isGap = true) (he : e.is "else" = true)
      (hg' : ∀ t ∈ g', t.isGap = true) (hk : k.is "if" = true) (hs : Reads asRead .ifRest s) :
      Reads asRead .ifRest (h ++ (b ++ (g ++ e :: (g' ++ k :: s))))
  | lastCatch {g h b : List Token} {k : Token} (hg : ∀ t ∈ g, t.isGap = true) (hk : k.is "catch" = true)
      (hh : Reads asRead .head h) (hb : Reads asRead .body b) :
      Reads asRead .catches (g ++ k :: (h ++ b))
  | moreCatch {g h b s : List Token} {k : Token} (hg : ∀ t ∈ g, t.isGap = true) (hk : k.is "catch" = true)
      (hh : Reads asRead .head h) (hb : Reads asRead .body b) (hs : Reads asRead .catches s) :
      Reads asRead .catches (g ++ k :: (h ++ (b ++ s)))
  | doWhile {k w e : Token} {b g h g' : List Token} (hk : k.is "do" = true) (hb : Reads asRead .body b)
      (hg : ∀ t ∈ g, t.isGap = true) (hw : w.is "while" = true) (hh : Reads asRead .head h)
      (hg' : ∀ t ∈ g', t.isGap = true) (he : e.is ";" = true) :
      Reads asRead .doWhile (k :: (b ++ (g ++ w :: (h ++ (g' ++ [e])))))

end Fanjet

end LibEvmvc
