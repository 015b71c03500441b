import LibEvmvc.Fanjet.Ast

set_option autoImplicit false

/-! # The parsers of the nodes

Each node has a `parse` of its own: a loop over the tokens that ends when a node is opened, when the
node is closed, or with the tokens. A definition here is one round of such a loop: what the parser
does when it is at `cur`, with `pre` behind it. The variable `entry` is true in the first round, for
what the parser does before the loop. -/

namespace LibEvmvc

namespace Fanjet

/-- `md::trim`. -/
structure FanEnv where
  trim : Bytes → Bytes

/-! ## Tokens -/

def Token.is (t : Token) (s : String) : Bool := t.text = bytes s

def Token.isAny (t : Token) (ss : List String) : Bool := ss.any t.is

/-- `t->text(false, true).empty()`. -/
def Token.isBlank (env : FanEnv) (t : Token) : Bool := env.trim t.text = []

/-- `token_t::is_whitespace`. -/
def Token.isWhitespace (env : FanEnv) (t : Token) : Bool :=
  t.isAny [" ", "\t", "\n", "\x0b", "\x0c", "\r"] || t.isBlank env

/-- `token_t::is_cpp_op`. -/
def Token.isCppOp (t : Token) : Bool :=
  t.isAny [",", ".", "::", "==", "!=", "!", "&&", "||", "=", "++", "--", "+", "-", "*", "/", "~", "&",
    "%", "|", "^"]

def Token.isFanComment (t : Token) : Bool := t.isAny ["@**", "@*", "*@"]

def Token.isFanDirective (t : Token) : Bool :=
  t.isAny ["@path", "@name", "@namespace", "@ns", "@layout", "@header", "@inherits", "@include"]

/-! ## Opening a scope -/

/-- The node is the literal at the top of the template, or one like it. -/
def NodeKind.isLiteralSec : NodeKind → Bool
  | .literal .literal _ _ => true
  | _ => false

def openFanComment (t : Token) : Option Action :=
  if t.isFanComment || t.isAny ["@region", "@endregion"] then
    some (.openScope (.comment (
      if t.is "@**" then .commentLine else if t.is "@*" then .commentBlock else .regionStart)) 1)
  else none

def openFanDirective (pn : NodeKind) (t : Token) : Option Action :=
  if t.isFanDirective then
    if !pn.isLiteralSec then some (.fail (.directiveScope t.line t.col t.pos))
    else
      some (.openScope (.directive (
        if t.isAny ["@namespace", "@ns"] then .dirNs else if t.is "@path" then .dirPath
        else if t.is "@name" then .dirName else if t.is "@layout" then .dirLayout
        else if t.is "@include" then .dirInclude else if t.is "@header" then .dirHeader
        else .dirInherits) false) 1)
  else none

def openFanOutput (t : Token) : Option Action :=
  if t.isAny ["@::", "@:"] then
    some (.openBoth (.output (if t.is "@::" then .outputRaw else .outputEnc) true) (.expr .semicol) 0)
  else none

def openFanCodeBlock (t : Token) : Option Action :=
  if t.is "@\x7b" then some (.openScope .codeBlock 1) else none

def openCodeBlock (t : Token) : Option Action :=
  if t.is "\x7b" then some (.openScope .codeBlock 1) else none

/-- A new `code_control_node_t`. -/
def ControlNode.new (sec : ControlSec) : ControlNode :=
  { sec, needExpr := true, needCode := true, needSemicol := sec = .codeDo, done := false }

def openFanControl (t : Token) : Option Action :=
  if t.isAny ["@if", "@switch", "@while", "@for", "@do"] then
    some (.openScope (.codeControl (.new (
      if t.is "@if" then .codeIf else if t.is "@switch" then .codeSwitch
      else if t.is "@while" then .codeWhile else if t.is "@for" then .codeFor else .codeDo))) 1)
  else none

/-- `node_type() == node_type::code_control`. -/
def NodeKind.isControl : NodeKind → Bool
  | .codeControl _ => true
  | _ => false

def openControl (pn : NodeKind) (t : Token) : Option Action :=
  if t.isAny ["if", "switch", "for", "do"] || (t.is "while" && !pn.isControl) then
    some (.openScope (.codeControl (.new (
      if t.is "if" then .codeIf else if t.is "switch" then .codeSwitch
      else if t.is "while" then .codeWhile else if t.is "for" then .codeFor else .codeDo))) 1)
  else none

/-- A new `code_err_node_t`. -/
def ErrNode.new : ErrNode := { needExpr := false, needCode := true, done := false }

def openFanTry (t : Token) : Option Action :=
  if t.is "@try" then some (.openScope (.codeErr .new) 1) else none

def openTry (t : Token) : Option Action :=
  if t.is "try" then some (.openScope (.codeErr .new) 1) else none

def openFanFuniFunc (t : Token) : Option Action :=
  if t.isAny ["@funi", "@func"] then
    some (.openScope (.codeFun (if t.is "@funi" then .codeFuni else .codeFunc) false) 1)
  else none

/-- A new `code_async_node_t`. -/
def AsyncNode.new (sec : AsyncSec) : AsyncNode :=
  { sec, needExpr := true, needCode := false, needSemicol := sec = .codeAwait, done := false,
    asyncType := [], line := 0, openedTags := 0 }

def openFanFunaAwait (t : Token) : Option Action :=
  if t.isAny ["@<", "@await"] then
    some (.openScope (.codeAsync (.new (if t.is "@<" then .codeFuna else .codeAwait))) 1)
  else none

def openExpr (t : Token) : Option Action :=
  if t.is "(" then some (.openScope (.expr .parens) 1)
  else if t.isAny ["return", "throw"] then some (.openScope (.expr .semicol) 1)
  else none

/-- The name of a section without the parenthesis before it. -/
def sectionName (env : FanEnv) (l : Bytes) : Bytes :=
  if (bytes "(").isPrefixOf l then env.trim (l.drop 1) else l

/-- `open_fan_markup`. That a markup language is not enabled is only logged. -/
def openFanMarkup (env : FanEnv) (t : Token) (rest : List Token) : Option Action :=
  if t.isAny ["@(", "@add-section", "@write-section"] then
    let inParens := rest.takeWhile fun tl => !tl.is ")"
    let tl := rest.drop inParens.length
    let endHup := 1 + inParens.length
    let l := env.trim (listText inParens)
    let openLiteral (l : Bytes) (endHup : Nat) : Action :=
      .openScope (.literal (if l = bytes "html" ∨ l = bytes "htm" then .markupHtml else .markupOther) l 0)
        ((if (bytes "$$").isPrefixOf l then endHup
          else endHup + (tl.takeWhile fun tl => !tl.is "\x7b").length) + 1)
    if t.is "@(" then some (openLiteral l endHup)
    else if t.is "@add-section" then some (openLiteral (bytes "<$" ++ sectionName env l) endHup)
    else
      let l := sectionName env l
      let before := tl.takeWhile fun st => !st.is "\x7b" && !st.is ";"
      match tl.drop before.length with
      | [] => some (.fail (.writeSection l t.line t.col))
      | st :: _ =>
        if st.is "\x7b" then some (openLiteral (bytes "$>" ++ l) endHup)
        else some (openLiteral (bytes "$$" ++ l) (endHup + before.length))
  else none

def openFanKey (t : Token) : Option Action :=
  if t.isAny ["@filename", "@dirname", "@body", "@scripts", "@styles"] then
    some (.openScope (.fanKey (
      if t.is "@body" then .body else if t.is "@scripts" then .scripts
      else if t.is "@styles" then .styles else if t.is "@filename" then .filename else .dirname)) 1)
  else none

def openFanFn (t : Token) : Option Action :=
  if t.isAny ["@>", "@set", "@get", "@fmt", "@get-raw", "@fmt-raw", "@import", "@script", "@style"] then
    if t.is "@>" then some (.openBoth (.fanFn .render true) (.expr .semicol) 1)
    else
      some (.openScope (.fanFn (
        if t.is "@set" then .set else if t.is "@get" then .get else if t.is "@fmt" then .fmt
        else if t.is "@get-raw" then .getRaw else if t.is "@fmt-raw" then .fmtRaw
        else if t.is "@script" then .script else if t.is "@style" then .style else .importFile)
        false) 1)
  else none

/-- The tag type of a name. -/
def tagTypeOf (name : Token) : TagType :=
  if name.isAny htmlVoidTags then .htmlVoid else if name.isAny htmlTags then .html
  else if name.isAny svgTags then .svg else if name.isAny mathmlTags then .mathml else .unknown

/-- A new `tag_node_t` with the name that follows the `<`. -/
def TagNode.new (name : Token) : TagNode :=
  { tagType := tagTypeOf name, tagName := name.text, startCompleted := false, endStarted := false,
    endCompleted := false, done := false }

def openTag (t : Token) (rest : List Token) : Option Action :=
  if t.is "<" then
    match rest with
    | [] => none
    | nt :: _ => some (.openScope (.tag (.new nt)) 1)
  else none

/-- `open_code_string`, and `open_attr_string`, which does the same. -/
def openCodeString (t : Token) : Option Action :=
  if t.isAny ["\"", "'"] then some (.openScope (.string t.text (bytes "\\" ++ t.text)) 1) else none

/-- `t = t->next()`, `k` times. -/
def nextN : Nat → Action → Action
  | 0, a => a
  | k + 1, a => .next (nextN k a)

/-- The fences of markdown code. -/
def markdownFences : List String :=
  ["``````````", "`````````", "````````", "```````", "``````", "`````", "````", "```", "``",
    "~~~~~~~~~~", "~~~~~~~~~", "~~~~~~~~", "~~~~~~~", "~~~~~~", "~~~~~", "~~~~", "~~~", "~~"]

/-- `open_markdown_string`: a line that is indented by four blanks or a tab, or a fence. -/
def openMarkdownString (t : Token) (rest : List Token) : Option Action :=
  if t.is "\n" then
    match rest with
    | [] => none
    | nt :: _ =>
      let blanks := if nt.is " " then rest.takeWhile fun nt => nt.isAny [" ", "\t"] else []
      if 4 ≤ blanks.length ∨ nt.is "\t" then
        some (nextN (1 + blanks.length) (.openScope (.string (bytes "\n") []) 1))
      else if nt.isAny markdownFences then
        some (.next (.openScope (.string (bytes "\n" ++ nt.text) []) 1))
      else none
  else if t.isAny markdownFences then some (.openScope (.string t.text []) 1)
  else none

/-- `open_a(t, this) || open_b(t, this) || ..`, and else `a`. -/
def orOpen (opens : List (Option Action)) (a : Action) : Action := (opens.findSome? id).getD a

/-! ## Closing a scope -/

/-- `close_scope` at a token: the tokens before it and the token become children, and the parent goes
    on. -/
def closeScope : Action := .attach (.next (.attach .passUp))

/-- `close_scope`. Without a token it returns. -/
def closeScopeAt : List Token → Action
  | [] => .finish
  | _ :: _ => closeScope

/-- The parser sets `_dbg_line` and `_dbg_col` when it is called for the first time. -/
def entered (entry : Bool) (n : OpenNode) (cur : List Token) (body : OpenNode → Action) : Action :=
  if entry && n.dbgLine = 0 then
    match cur with
    | [] => .null
    | t :: _ => .dbg t.line t.col (body { n with dbgLine := t.line, dbgCol := t.col })
  else body n

/-! ## The parsers -/

/-- What opens a scope in a literal. -/
def literalOpens (env : FanEnv) (k : NodeKind) (t : Token) (rest : List Token) : List (Option Action) :=
  [openFanComment t, openFanDirective k t, openFanOutput t, openFanCodeBlock t, openFanControl t,
    openFanTry t, openFanFuniFunc t, openFanMarkup env t rest, openFanKey t, openFanFn t]

/-- `literal_node_t::parse` -/
def literalParse (env : FanEnv) (sec : LiteralSec) (lang : Bytes) (braces : Nat) (pre cur : List Token) :
    Action :=
  match cur with
  | [] =>
    if sec = .literal then .attach .finish
    else
      match pre with
      | [] => .null
      | tt :: _ => .fail (.scopeNotClosed tt.line tt.col)
  | t :: rest =>
    if t.isAny ["\"", "'"] then .next .loop
    else
      let opens := orOpen (literalOpens env (.literal sec lang braces) t rest) (.next .loop)
      let closes := if t.is "\x7d" then closeScope else opens
      match sec with
      | .literal => orOpen [openTag t rest] opens
      | .markupHtml => orOpen [openTag t rest] closes
      | .markupOther =>
        if (bytes "$$").isPrefixOf lang then closeScope
        else if (bytes "<$").isPrefixOf lang || (bytes "$>").isPrefixOf lang then
          orOpen [openTag t rest] closes
        else if lang = bytes "markdown" ∨ lang = bytes "md" then
          orOpen [openTag t rest, openMarkdownString t rest] closes
        else if lang = bytes "tex" ∨ lang = bytes "latex" then
          -- braces nest, and a backslash escapes one
          if t.is "\\" then
            match rest with
            | [] => closes
            | nt :: _ => if nt.isAny ["\x7d", "\x7b", "\\"] then .next (.next .loop) else closes
          else if t.is "\x7b" then .set (.literal sec lang (braces + 1)) (.next .loop)
          else if t.is "\x7d" then
            if braces = 0 then closeScope else .set (.literal sec lang (braces - 1)) (.next .loop)
          else closes
        else closes

/-- The first token that is neither blank nor the end of a line. -/
def firstSolid (env : FanEnv) (ts : List Token) : Option Token :=
  ts.find? fun it => !it.isBlank env && !it.is "\n"

/-- The end of a round of `expr_node_t::parse`, at `t`. The parenthesis of an asynchronous function says
    whether this is a declaration or a definition. -/
def exprEnd (env : FanEnv) (type : ExprType) (parent : Option NodeKind) (t : Token) (rest : List Token) :
    Action :=
  if type = .parens && t.is ")" then
    match parent with
    | some (.codeAsync an) =>
      if an.sec = .codeFuna then
        if (firstSolid env rest).any (·.is ";") then
          .setParent (.codeAsync { an with needSemicol := true, needCode := false }) closeScope
        else if (firstSolid env rest).any (·.is "\x7b") then
          .setParent (.codeAsync { an with needSemicol := false, needCode := true }) closeScope
        else .fail (.braceOrSemicolonRequired t.line t.col)
      else closeScope
    | _ => closeScope
  else if type = .semicol && t.is ";" then closeScope
  else .next .loop

/-- The token is an operator that `expr_node_t::parse` splits off. -/
def splitsOff (type : ExprType) (t : Token) : Bool :=
  (t.isCppOp && !t.is "::") || (t.is ";" && type ≠ .semicol)

/-- `expr_node_t::parse` -/
def exprParse (env : FanEnv) (entry : Bool) (n : OpenNode) (type : ExprType) (parent : Option NodeKind)
    (cur : List Token) : Action :=
  entered entry n cur fun n =>
    match cur with
    | [] => .fail (.scopeNotClosed n.dbgLine n.dbgCol)
    | t :: rest =>
      orOpen [openFanComment t, openFanDirective n.kind t, openFanOutput t, openFanKey t, openFanFn t,
          openExpr t, openCodeString t, openCodeBlock t] (
        if splitsOff type t then
          match rest with
          | [] => .null
          | u :: rest => .attach (.next (.attach (exprEnd env type parent u rest)))
        else exprEnd env type parent t rest)

/-- What opens a scope in a tag. -/
def tagOpens (env : FanEnv) (t : Token) (rest : List Token) : List (Option Action) :=
  [openFanComment t, openFanOutput t, openFanCodeBlock t, openFanControl t, openFanTry t,
    openFanFuniFunc t, openFanFunaAwait t, openFanMarkup env t rest, openFanKey t, openFanFn t]

/-- The end of a tag that has no contents. -/
def tagComplete (n : TagNode) : Action :=
  .set (.tag { n with startCompleted := true, endStarted := true, endCompleted := true, done := true })
    closeScope

/-- `tag_node_t::parse` -/
def tagParse (env : FanEnv) (entry : Bool) (n : OpenNode) (tn : TagNode) (cur : List Token) : Action :=
  entered entry n cur fun n =>
    match cur with
    | [] => .fail (.tagNotClosed tn.tagName n.dbgLine n.dbgCol)
    | t :: rest =>
      if !tn.startCompleted then
        orOpen [openCodeString t] (
          if tn.tagType = .htmlVoid then
            if t.isAny [">", "/>"] then tagComplete tn
            else orOpen (tagOpens env t rest) (.next .loop)
          else if t.is "/>" then tagComplete tn
          else if t.is ">" then .set (.tag { tn with startCompleted := true }) (.next .loop)
          else orOpen (tagOpens env t rest) (.next .loop))
      else if !tn.endStarted && !tn.endCompleted then
        orOpen [openFanComment t, openFanDirective n.kind t, openFanCodeBlock t, openFanControl t,
            openFanTry t, openFanFuniFunc t, openFanMarkup env t rest, openFanOutput t, openFanKey t,
            openFanFn t, openTag t rest] (
          if t.is "</" then .set (.tag { tn with endStarted := true }) (.next .loop) else .next .loop)
      else if tn.endStarted && !tn.endCompleted then
        if t.is ">" then .set (.tag { tn with endCompleted := true, done := true }) closeScope
        else .next .loop
      else .next .loop

/-- How many tokens further a text ends that begins with the first token. -/
def matchText (target : Bytes) : Bytes → Nat → List Token → Option Nat
  | _, _, [] => none
  | tesc, k, t :: ts =>
    if (tesc ++ t.text).isPrefixOf target then
      if tesc ++ t.text = target then some k else matchText target (tesc ++ t.text) (k + 1) ts
    else none

/-- `node_type() == node_type::literal || node_type() == node_type::tag`. -/
def NodeKind.isLiteralOrTag : NodeKind → Bool
  | .literal .. => true
  | .tag _ => true
  | _ => false

/-- The end of a round of `string_node_t::parse`, at `t`. -/
def stringEnd (parent : Option NodeKind) (t : Token) : Action :=
  if parent.any (·.isLiteralOrTag) then
    orOpen [openFanOutput t, openFanKey t, openFanFn t] (.next .loop)
  else .next .loop

/-- `string_node_t::parse` -/
def stringParse (entry : Bool) (n : OpenNode) (enclosing escape : Bytes) (parent : Option NodeKind)
    (cur : List Token) : Action :=
  entered entry n cur fun n =>
    match cur with
    | [] => .fail (.stringNotClosed enclosing n.dbgLine n.dbgCol)
    | t :: rest =>
      match if escape = [] then none else matchText escape [] 0 (t :: rest) with
      | some k => nextN k (stringEnd parent ((t :: rest).getD k t))
      | none =>
        match matchText enclosing [] 0 (t :: rest) with
        | some k => nextN k closeScope
        | none => stringEnd parent t

/-- `directive_node_t::parse` -/
def directiveParse (env : FanEnv) (entry : Bool) (n : OpenNode) (sec : DirectiveSec) (done : Bool)
    (parent : Option NodeKind) (cur : List Token) : Action :=
  entered entry n cur fun n =>
    if entry && !parent.any (·.isLiteralSec) then .fail (.directiveTop n.dbgLine n.dbgCol)
    else if entry && done then .passUp
    else
      match cur with
      | [] => .fail (.directiveNotClosed n.dbgLine n.dbgCol)
      | t :: _ =>
        if sec = .dirHeader ∨ sec = .dirInherits then
          if !t.isWhitespace env then
            if t.is "\x7b" then .set (.directive sec true) (orOpen [openCodeBlock t] .finish)
            else .fail (.braceRequired t.line t.col)
          else .next .loop
        else if t.is "\n" then .set (.directive sec true) closeScope
        else if t.isFanComment then
          .set (.directive sec (t.is "@**")) (orOpen [openFanComment t] .finish)
        else .next .loop

/-- `comment_node_t::parse` -/
def commentParse (sec : CommentSec) (cur : List Token) : Action :=
  match cur with
  | [] => closeScopeAt []
  | t :: _ =>
    if t.is (if sec = .commentBlock then "*@" else "\n") then closeScope else .next .loop

/-- `output_node_t::parse` -/
def outputParse (entry : Bool) (n : OpenNode) (done : Bool) (cur : List Token) : Action :=
  if entry && done then .passUp
  else
    entered entry n cur fun n =>
      match cur with
      | [] => .fail (.outputNotClosed n.dbgLine n.dbgCol)
      | t :: _ => if t.is ";" then closeScope else .next .loop

/-- What follows the block of an `if`: an `else`, and an `if` behind that. -/
def elseIf (env : FanEnv) : Bool → List Token → Bool × Bool
  | isElse, [] => (isElse, false)
  | isElse, it :: ts =>
    if !it.isBlank env && !it.is "\n" then
      if it.is "else" then elseIf env true ts
      else if isElse && it.is "if" then (isElse, true)
      else (isElse, false)
    else elseIf env isElse ts

/-- What the end of a block says to the statement it belongs to, before it is closed. -/
def blockEnd (env : FanEnv) (parent : Option NodeKind) (rest : List Token) : Action :=
  match parent with
  | some (.codeControl cn) =>
    if cn.sec = .codeIf then
      match elseIf env false rest with
      | (true, true) => .setParent (.codeControl { cn with needExpr := true, needCode := true }) closeScope
      | (true, false) => .setParent (.codeControl { cn with needCode := true }) closeScope
      | (false, _) => .setParent (.codeControl { cn with done := true }) closeScope
    else if cn.sec ≠ .codeDo then .setParent (.codeControl { cn with done := true }) closeScope
    else closeScope
  | some (.codeErr en) =>
    if (firstSolid env rest).any (·.is "catch") then
      .setParent (.codeErr { en with needExpr := true, needCode := true }) closeScope
    else .setParent (.codeErr { en with done := true }) closeScope
  | some (.codeAsync an) =>
    if an.sec = .codeFuna then .setParent (.codeAsync { an with done := true }) closeScope
    else closeScope
  | _ => closeScope

/-- `code_block_node_t::parse` -/
def codeBlockParse (env : FanEnv) (entry : Bool) (n : OpenNode) (parent : Option NodeKind)
    (cur : List Token) : Action :=
  entered entry n cur fun n =>
    match cur with
    | [] => .fail (.blockNotClosed n.dbgLine n.dbgCol)
    | t :: rest =>
      orOpen [openFanComment t, openFanDirective n.kind t, openFanFunaAwait t, openFanMarkup env t rest,
          openFanKey t, openFanFn t, openExpr t, openCodeString t, openCodeBlock t,
          openControl n.kind t, openTry t] (
        if t.is "\x7d" then blockEnd env parent rest else .next .loop)

/-- `code_control_node_t::parse` -/
def codeControlParse (env : FanEnv) (entry : Bool) (n : OpenNode) (cn : ControlNode) (cur : List Token) :
    Action :=
  if entry && cn.done then closeScopeAt cur
  else
    entered entry n cur fun n =>
      match cur with
      | [] => .fail (.controlIncomplete n.dbgLine n.dbgCol)
      | t :: _ =>
        if !t.isBlank env && !t.isAny ["\n", "else", "if", "while"] then
          if cn.needExpr && (cn.sec ≠ .codeDo || !cn.needCode) then
            if t.is "(" then .set (.codeControl { cn with needExpr := false }) (orOpen [openExpr t] .finish)
            else .fail (.exprRequired t.line t.col)
          else if cn.needCode && (cn.sec ≠ .codeDo || cn.needExpr) then
            if t.is "\x7b" then
              .set (.codeControl { cn with needCode := false }) (orOpen [openCodeBlock t] .finish)
            else .fail (.braceRequired t.line t.col)
          else if cn.needSemicol then
            if t.is ";" then
              .set (.codeControl { cn with needSemicol := false }) (.next (.attach .passUp))
            else .fail (.semicolonRequired t.line t.col)
          else .next .loop
        else .next .loop

/-- `code_err_node_t::parse` -/
def codeErrParse (env : FanEnv) (entry : Bool) (n : OpenNode) (en : ErrNode) (cur : List Token) : Action :=
  if entry && en.done then closeScopeAt cur
  else
    entered entry n cur fun n =>
      match cur with
      | [] => .fail (.tryIncomplete n.dbgLine n.dbgCol)
      | t :: _ =>
        if !t.isBlank env && !t.isAny ["\n", "catch"] then
          if en.needExpr then
            if t.is "(" then .set (.codeErr { en with needExpr := false }) (orOpen [openExpr t] .finish)
            else .fail (.exprRequired t.line t.col)
          else if en.needCode then
            if t.is "\x7b" then
              .set (.codeErr { en with needCode := false }) (orOpen [openCodeBlock t] .finish)
            else .fail (.braceRequired t.line t.col)
          else .next .loop
        else .next .loop

/-- `code_fun_node_t::parse` -/
def codeFunParse (env : FanEnv) (entry : Bool) (n : OpenNode) (sec : FunSec) (done : Bool)
    (cur : List Token) : Action :=
  if entry && done then closeScopeAt cur
  else
    entered entry n cur fun n =>
      match cur with
      | [] => .fail (.braceRequired n.dbgLine n.dbgCol)
      | t :: _ =>
        if !t.isBlank env && !t.is "\n" then
          if t.is "\x7b" then .set (.codeFun sec true) (orOpen [openCodeBlock t] .finish)
          else .fail (.braceRequired t.line t.col)
        else .next .loop

/-- The end of a round of `code_async_node_t::parse`: behind the type, everything up to the parenthesis
    is skipped. -/
def asyncEnd (an : AsyncNode) (t : Token) (rest : List Token) : Action :=
  let an := if 0 < an.openedTags then { an with asyncType := an.asyncType ++ t.text } else an
  .set (.codeAsync an) (
    if an.openedTags = 0 && an.needExpr && rest.head?.any fun nt => !nt.is "(" then
      let skipped := rest.takeWhile fun nt => !nt.is "("
      let skip := nextN skipped.length (if rest.drop skipped.length = [] then .loop else .attach .loop)
      if t.is ">" then .attach (.next (.attach skip)) else .next skip
    else .next .loop)

/-- A round of the loop of `code_async_node_t::parse`, at `t`. -/
def asyncRound (env : FanEnv) (an : AsyncNode) (t : Token) (rest : List Token) : Action :=
  if !t.isBlank env && !t.is "\n" then
    if 0 < an.openedTags then
      asyncEnd (if t.is ">" then { an with openedTags := an.openedTags - 1 }
        else if t.is "<" then { an with openedTags := an.openedTags + 1 } else an) t rest
    else if an.needExpr then
      if t.is "(" then .set (.codeAsync { an with needExpr := false }) (orOpen [openExpr t] .finish)
      else .fail (.exprRequired t.line t.col)
    else if an.needCode then
      if t.is "\x7b" then .set (.codeAsync { an with needCode := false }) (orOpen [openCodeBlock t] .finish)
      else .fail (.braceRequired t.line t.col)
    else if an.needSemicol then
      if t.is ";" then
        .set (.codeAsync { an with needSemicol := false, done := true }) (.next (.attach .passUp))
      else .fail (.semicolonRequired t.line t.col)
    else asyncEnd an t rest
  else asyncEnd an t rest

/-- `code_async_node_t::parse` -/
def codeAsyncParse (env : FanEnv) (entry : Bool) (n : OpenNode) (an : AsyncNode) (cur : List Token) :
    Action :=
  if entry && an.done then closeScopeAt cur
  else
    entered entry n cur fun _ =>
      match cur with
      | [] => if entry then .null else if an.openedTags ≠ 0 then .fail (.invalidAsync an.line) else .finish
      | t :: rest =>
        if entry then
          let openedTags := if an.needExpr && an.sec = .codeFuna then 1 else 0
          asyncRound env { an with line := t.line, openedTags } t rest
        else asyncRound env an t rest

/-- `fan_fn_node_t::parse` -/
def fanFnParse (env : FanEnv) (entry : Bool) (n : OpenNode) (sec : FnSec) (done : Bool)
    (cur : List Token) : Action :=
  if entry && done then .passUp
  else
    entered entry n cur fun n =>
      match cur with
      | [] => .fail (.fnIncomplete n.dbgLine n.dbgCol)
      | t :: _ =>
        if sec = .render then
          if t.is ";" then .set (.fanFn sec true) closeScope else .next .loop
        else if !t.isWhitespace env then
          if t.is "(" then .set (.fanFn sec true) (orOpen [openExpr t] .finish)
          else .fail (.parenRequired t.line t.col)
        else .next .loop

/-- The `parse` of a node. -/
def parseAction (env : FanEnv) (p : Parsing) : Action :=
  let parent := p.below.head?.map OpenNode.kind
  match p.top.kind with
  | .literal sec lang braces => literalParse env sec lang braces p.pre p.cur
  | .expr type => exprParse env p.entry p.top type parent p.cur
  | .string enclosing escape => stringParse p.entry p.top enclosing escape parent p.cur
  | .directive sec done => directiveParse env p.entry p.top sec done parent p.cur
  | .comment sec => commentParse sec p.cur
  | .output _ done => outputParse p.entry p.top done p.cur
  | .codeBlock => codeBlockParse env p.entry p.top parent p.cur
  | .codeControl cn => codeControlParse env p.entry p.top cn p.cur
  | .codeErr en => codeErrParse env p.entry p.top en p.cur
  | .codeFun sec done => codeFunParse env p.entry p.top sec done p.cur
  | .codeAsync an => codeAsyncParse env p.entry p.top an p.cur
  | .fanKey _ => .passUp
  | .fanFn sec done => fanFnParse env p.entry p.top sec done p.cur
  | .tag tn => tagParse env p.entry p.top tn p.cur

/-- One round of the parser that is at work. -/
def parseStep (env : FanEnv) (p : Parsing) : Outcome := act p (parseAction env p)

/-! ## The whole parse -/

/-- The nodes are closed from the innermost one on. -/
def closeAll (n : OpenNode) : List OpenNode → Node
  | [] => n.toNode
  | q :: below => closeAll { q with childs := q.childs ++ [n.toNode] } below

/-- `root_node_t`: the languages, and the literal that is its child. -/
structure RootNode where
  markupLangs : List Bytes
  child : Node

/-- `token_section_text` of the root. -/
def RootNode.text (r : RootNode) : Bytes := r.child.text

/-- The tokens of the tree. -/
def RootNode.tokens (r : RootNode) : List Token := r.child.tokens

/-- How a parse ends: with a tree, with an error of the parser, or with a null token that is
    dereferenced. -/
inductive Parsed where
  | ok (r : RootNode)
  | error (err : FanError)
  | null

/-- The parse goes on until one of the parsers returns. -/
def parseLoop (env : FanEnv) (markupLangs : List Bytes) : Nat → Parsing → Option Parsed
  | 0, _ => none
  | fuel + 1, p =>
    match parseStep env p with
    | .go q => parseLoop env markupLangs fuel q
    | .done q => some (.ok ⟨markupLangs, closeAll q.top q.below⟩)
    | .error err => some (.error err)
    | .null => some .null

/-- How long a parse can go on. -/
def Parsing.size (p : Parsing) : Nat := 4 * p.cur.length + p.below.length

/-- `root_node_t::parse`: the first node is a literal. -/
def parseStart (ts : List Token) : Parsing where
  top := { kind := .literal .literal (bytes "html") 0, dbgLine := 0, dbgCol := 0, childs := [] }
  below := []
  pre := []
  cur := ts
  entry := true

/-- The languages of the root: `html` and `htm` are always there. -/
def rootLangs (markupLangs : List Bytes) : List Bytes :=
  markupLangs ++ [bytes "html", bytes "htm"].filter fun l => !markupLangs.contains l

/-- `parser::parse`. The number of rounds is bounded by the number of tokens. -/
def parse (env : FanEnv) (markupLangs : List Bytes) (text : Bytes) : Option Parsed :=
  let start := parseStart (tokenize text)
  parseLoop env (rootLangs markupLangs) (start.size + 1) start

end Fanjet

end LibEvmvc
