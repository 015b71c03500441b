import LibEvmvc.Fanjet.Tokenizer

set_option autoImplicit false

/-! # The tree of a template and how it grows

The parsers of the nodes work on one list of tokens. Each call of `parse` looks at the tokens one by
one until it hands the rest on: to a node it opens, or to its parent. All of these calls are the last
thing their caller does, so what there is at any time is the node that is being parsed, the nodes it
stands in, the tokens it has looked at and those to come (`Parsing`).

What a parser does with them are the few things of `Action`: to add the tokens it has looked at to its
node (`add_token(t->snip())`), to go on by one token, to open a node, to go back to its parent, or to
end. Whatever the actions are, the tokens of the nodes, those looked at and those to come stay the same
together (`act_tokens`), apart from tokens without text, which no node is made for. -/

namespace LibEvmvc

namespace Fanjet

/-! ## Nodes -/

inductive LiteralSec where
  | literal
  | markupHtml
  | markupOther
  deriving DecidableEq, Repr

inductive ExprType where
  | parens
  | semicol
  deriving DecidableEq, Repr

inductive DirectiveSec where
  | dirNs
  | dirPath
  | dirName
  | dirLayout
  | dirInclude
  | dirHeader
  | dirInherits
  deriving DecidableEq, Repr

inductive CommentSec where
  | commentLine
  | commentBlock
  | regionStart
  deriving DecidableEq, Repr

inductive OutputSec where
  | outputRaw
  | outputEnc
  deriving DecidableEq, Repr

inductive ControlSec where
  | codeIf
  | codeSwitch
  | codeWhile
  | codeFor
  | codeDo
  deriving DecidableEq, Repr

inductive FunSec where
  | codeFuni
  | codeFunc
  deriving DecidableEq, Repr

inductive AsyncSec where
  | codeFuna
  | codeAwait
  deriving DecidableEq, Repr

inductive KeySec where
  | body
  | scripts
  | styles
  | filename
  | dirname
  deriving DecidableEq, Repr

inductive FnSec where
  | render
  | set
  | get
  | fmt
  | getRaw
  | fmtRaw
  | script
  | style
  | importFile
  deriving DecidableEq, Repr

inductive TagType where
  | unknown
  | html
  | htmlVoid
  | mathml
  | svg
  deriving DecidableEq, Repr

/-- The members of `code_control_node_t`. -/
structure ControlNode where
  sec : ControlSec
  needExpr : Bool
  needCode : Bool
  needSemicol : Bool
  done : Bool
  deriving DecidableEq, Repr

/-- The members of `code_err_node_t`. -/
structure ErrNode where
  needExpr : Bool
  needCode : Bool
  done : Bool
  deriving DecidableEq, Repr

/-- The members of `code_async_node_t`, and the variables `line` and `opened_tags` of its `parse`. -/
structure AsyncNode where
  sec : AsyncSec
  needExpr : Bool
  needCode : Bool
  needSemicol : Bool
  done : Bool
  asyncType : Bytes
  line : Nat
  openedTags : Nat
  deriving DecidableEq, Repr

/-- The members of `tag_node_t`. -/
structure TagNode where
  tagType : TagType
  tagName : Bytes
  startCompleted : Bool
  endStarted : Bool
  endCompleted : Bool
  done : Bool
  deriving DecidableEq, Repr

/-- The type of a node, its section and the members of its class. -/
inductive NodeKind where
  | literal (sec : LiteralSec) (markupLanguage : Bytes) (braces : Nat)
  | expr (type : ExprType)
  | string (enclosing escape : Bytes)
  | directive (sec : DirectiveSec) (done : Bool)
  | comment (sec : CommentSec)
  | output (sec : OutputSec) (done : Bool)
  | codeBlock
  | codeControl (n : ControlNode)
  | codeErr (n : ErrNode)
  | codeFun (sec : FunSec) (done : Bool)
  | codeAsync (n : AsyncNode)
  | fanKey (sec : KeySec)
  | fanFn (sec : FnSec) (done : Bool)
  | tag (n : TagNode)
  deriving DecidableEq, Repr

/-- A node of the tree: a list of tokens, or a node with children. -/
inductive Node where
  | token (ts : List Token)
  | node (kind : NodeKind) (dbgLine dbgCol : Nat) (childs : List Node)

mutual

/-- `node_t::token_section_text`. -/
def Node.text : Node → Bytes
  | .token ts => listText ts
  | .node _ _ _ childs => childsText childs

/-- The text of the children of a node. -/
def childsText : List Node → Bytes
  | [] => []
  | n :: ns => n.text ++ childsText ns

end

mutual

/-- The tokens of a node, in the order of the tree. -/
def Node.tokens : Node → List Token
  | .token ts => ts
  | .node _ _ _ childs => childsTokens childs

/-- The tokens of the children of a node. -/
def childsTokens : List Node → List Token
  | [] => []
  | n :: ns => n.tokens ++ childsTokens ns

end

/-! ## A parse in progress -/

/-- A node that is being parsed, with the children it has so far. -/
structure OpenNode where
  kind : NodeKind
  dbgLine : Nat
  dbgCol : Nat
  childs : List Node

def OpenNode.toNode (n : OpenNode) : Node := .node n.kind n.dbgLine n.dbgCol n.childs

/-- `node_t::add_token`: there is no node for tokens without text. -/
def OpenNode.addToken (n : OpenNode) (ts : List Token) : OpenNode :=
  if ts.all fun t => t.text = [] then n else { n with childs := n.childs ++ [.token ts] }

/-- A call of `parse`: the node, the nodes it is in (the nearest first), the tokens it has looked at,
    the current token with all that follow, and whether it has just begun. -/
structure Parsing where
  top : OpenNode
  below : List OpenNode
  pre : List Token
  cur : List Token
  entry : Bool

/-- The errors of the parser, with the values they name. -/
inductive FanError where
  | missingOpenScope (line col : Nat)
  | directiveScope (line col pos : Nat)
  | directiveTop (line col : Nat)
  | writeSection (name : Bytes) (line col : Nat)
  | scopeNotClosed (line col : Nat)
  | braceOrSemicolonRequired (line col : Nat)
  | tagNotClosed (tagName : Bytes) (line col : Nat)
  | stringNotClosed (enclosing : Bytes) (line col : Nat)
  | braceRequired (line col : Nat)
  | directiveNotClosed (line col : Nat)
  | outputNotClosed (line col : Nat)
  | blockNotClosed (line col : Nat)
  | exprRequired (line col : Nat)
  | semicolonRequired (line col : Nat)
  | controlIncomplete (line col : Nat)
  | tryIncomplete (line col : Nat)
  | invalidAsync (line : Nat)
  | parenRequired (line col : Nat)
  | fnIncomplete (line col : Nat)
  deriving DecidableEq, Repr

/-- `line: '{}', col: '{}'` -/
def placeText (line col : Nat) : Bytes :=
  bytes "line: '" ++ bytes (toString line) ++ bytes "', col: '" ++ bytes (toString col) ++ bytes "'"

/-- The message that is thrown. -/
def FanError.text : FanError → Bytes
  | .missingOpenScope line col => bytes "Are you missing an open scope? " ++ placeText line col
  | .directiveScope line col pos =>
    bytes "Directive can only be defined at the first scope level. " ++ placeText line col
      ++ bytes ", pos: '" ++ bytes (toString pos) ++ bytes "'"
  | .directiveTop line col =>
    bytes "Directive can only be defined at top level scope!\nline: " ++ bytes (toString line)
      ++ bytes ", col: " ++ bytes (toString col)
  | .writeSection name line col =>
    bytes "Invalid @write-section definition '" ++ name ++ bytes "' at " ++ placeText line col
      ++ bytes "!\n\nAre you missing a semi-colon or code block?"
  | .scopeNotClosed line col =>
    bytes "Scope is not closed, are you missing a closing parenthesis, a closing brace or semicolon? "
      ++ placeText line col
  | .braceOrSemicolonRequired line col =>
    bytes "Open curly brace or semicolon required, line: '" ++ bytes (toString line)
      ++ bytes "', col '" ++ bytes (toString col) ++ bytes "'"
  | .tagNotClosed tagName line col =>
    bytes "Tag is not closed, are you missing a closing '" ++ tagName ++ bytes "' tag? " ++ placeText line col
  | .stringNotClosed enclosing line col =>
    bytes "String is not closed, are you missing a '" ++ enclosing ++ bytes "'? " ++ placeText line col
  | .braceRequired line col => bytes "Open curly brace is required, " ++ placeText line col
  | .directiveNotClosed line col =>
    bytes "Directive is not closed, are you missing a closing brace? " ++ placeText line col
  | .outputNotClosed line col => bytes "Output is not closed, are you missing a ';'? " ++ placeText line col
  | .blockNotClosed line col =>
    bytes "Code block is not closed, are you missing a closing brace? " ++ placeText line col
  | .exprRequired line col => bytes "Expression required, " ++ placeText line col
  | .semicolonRequired line col => bytes "Semicolon is required, " ++ placeText line col
  | .controlIncomplete line col => bytes "Incomplete control statement, " ++ placeText line col
  | .tryIncomplete line col =>
    bytes "Incomplete try catch statement, are you missing the catch statement? " ++ placeText line col
  | .invalidAsync line =>
    bytes "Invalid async function definition, line: '" ++ bytes (toString line) ++ bytes "'"
  | .parenRequired line col => bytes "Open parenthesis is required, " ++ placeText line col
  | .fnIncomplete line col => bytes "Incomplete function, are you missing a '('? " ++ placeText line col

/-- The line that is thrown with an error. -/
def FanError.line : FanError → Nat
  | .missingOpenScope line _ | .directiveScope line _ _ | .directiveTop line _ | .writeSection _ line _
  | .scopeNotClosed line _ | .braceOrSemicolonRequired line _ | .tagNotClosed _ line _
  | .stringNotClosed _ line _ | .braceRequired line _ | .directiveNotClosed line _ | .outputNotClosed line _
  | .blockNotClosed line _ | .exprRequired line _ | .semicolonRequired line _ | .controlIncomplete line _
  | .tryIncomplete line _ | .invalidAsync line | .parenRequired line _ | .fnIncomplete line _ => line

theorem placeText_line (line col : Nat) : bytes (toString line) <:+: placeText line col :=
  ⟨bytes "line: '", bytes "', col: '" ++ bytes (toString col) ++ bytes "'", by simp [placeText]⟩

/-- Every message names the line. -/
theorem FanError.line_infix_text (err : FanError) : bytes (toString err.line) <:+: err.text := by
  have hinside (a b : Bytes) (line : Nat) : bytes (toString line) <:+: a ++ bytes (toString line) ++ b :=
    List.infix_append ..
  have hplace (a b : Bytes) (line col : Nat) : bytes (toString line) <:+: a ++ placeText line col ++ b :=
    (placeText_line line col).trans (List.infix_append ..)
  have hlast (a : Bytes) (line col : Nat) : bytes (toString line) <:+: a ++ placeText line col := by
    simpa using hplace a [] line col
  cases err with
  | directiveScope line col pos =>
    have h := hplace (bytes "Directive can only be defined at the first scope level. ")
      (bytes ", pos: '" ++ bytes (toString pos) ++ bytes "'") line col
    simp only [text, List.append_assoc] at h ⊢
    exact h
  | writeSection name line col => exact hplace _ _ line col
  | directiveTop line col =>
    have h := hinside (bytes "Directive can only be defined at top level scope!\nline: ")
      (bytes ", col: " ++ bytes (toString col)) line
    simp only [text, List.append_assoc] at h ⊢
    exact h
  | braceOrSemicolonRequired line col =>
    have h := hinside (bytes "Open curly brace or semicolon required, line: '")
      (bytes "', col '" ++ bytes (toString col) ++ bytes "'") line
    simp only [text, List.append_assoc] at h ⊢
    exact h
  | invalidAsync line => exact hinside ..
  | _ => exact hlast ..

/-- What a parser does, up to the next time it looks at a token. -/
inductive Action where
  /-- `add_token(t->snip())`: the tokens looked at become a child -/
  | attach (a : Action)
  /-- `t = t->next()` -/
  | next (a : Action)
  /-- the members of the node change -/
  | set (kind : NodeKind) (a : Action)
  /-- `_dbg_line` and `_dbg_col` are set -/
  | dbg (line col : Nat) (a : Action)
  /-- the members of the parent change -/
  | setParent (kind : NodeKind) (a : Action)
  /-- the loop goes on -/
  | loop
  /-- `open_scope` -/
  | openScope (kind : NodeKind) (hup : Nat)
  /-- `open_scope` for a node and, without parsing it, for a node in it -/
  | openBoth (kind inner : NodeKind) (hup : Nat)
  /-- `parent()->parse(t)` -/
  | passUp
  /-- every call returns -/
  | finish
  | fail (err : FanError)
  /-- a null token is dereferenced -/
  | null

/-- What comes of an action. -/
inductive Outcome where
  | go (p : Parsing)
  | done (p : Parsing)
  | error (err : FanError)
  | null

/-- What there is after an action that neither fails nor dereferences a null token. -/
def Outcome.parsing? : Outcome → Option Parsing
  | .go p => some p
  | .done p => some p
  | .error _ => none
  | .null => none

/-- `open_scope` without the call of `parse`: the tokens looked at go before the new node, the next
    `hup` ones into it. -/
def Parsing.open (p : Parsing) (kind : NodeKind) (hup : Nat) : Parsing where
  top := ({ kind, dbgLine := 0, dbgCol := 0, childs := [] } : OpenNode).addToken (p.cur.take hup)
  below := p.top.addToken p.pre :: p.below
  pre := []
  cur := p.cur.drop hup
  entry := true

/-- The parser does what it does. -/
def act : Parsing → Action → Outcome
  | p, .attach a => act { p with top := p.top.addToken p.pre, pre := [] } a
  | p, .next a =>
    match p.cur with
    | [] => .null
    | t :: rest => act { p with pre := p.pre ++ [t], cur := rest } a
  | p, .set kind a => act { p with top := { p.top with kind } } a
  | p, .dbg dbgLine dbgCol a => act { p with top := { p.top with dbgLine, dbgCol } } a
  | p, .setParent kind a =>
    match p.below with
    | [] => .null
    | q :: below => act { p with below := { q with kind } :: below } a
  | p, .loop => .go { p with entry := false }
  | p, .openScope kind hup =>
    match p.cur with
    | [] => .null
    | t :: _ =>
      if hup < p.cur.length then .go (p.open kind hup) else .error (.missingOpenScope t.line t.col)
  | p, .openBoth kind inner hup =>
    match p.cur with
    | [] => .null
    | [t] => .error (.missingOpenScope t.line t.col)
    | _ :: t :: rest =>
      if hup < (t :: rest).length then .go ((p.open kind 1).open inner hup)
      else .error (.missingOpenScope t.line t.col)
  | p, .passUp =>
    match p.below with
    | [] => .null
    | q :: below =>
      .go { p with top := { q with childs := q.childs ++ [p.top.toNode] }, below, entry := true }
  | p, .finish => .done p
  | _, .fail err => .error err
  | _, .null => .null

/-! ## Nothing is lost -/

/-- The tokens with a text. -/
def solid (ts : List Token) : List Token := ts.filter fun t => t.text ≠ []

/-- The tokens of the nodes from the outermost one on. -/
def openTokens : List OpenNode → List Token
  | [] => []
  | n :: ns => openTokens ns ++ childsTokens n.childs

/-- The tokens of the tree. -/
def Parsing.tree (p : Parsing) : List Token := openTokens (p.top :: p.below)

/-- The tokens of the tree and those that are not in it. -/
def Parsing.tokens (p : Parsing) : List Token := p.tree ++ (p.pre ++ p.cur)

section Tokens

theorem childsTokens_append (ns ns' : List Node) :
    childsTokens (ns ++ ns') = childsTokens ns ++ childsTokens ns' := by
  induction ns with
  | nil => rfl
  | cons n ns ih => rw [List.cons_append, childsTokens, childsTokens, ih, List.append_assoc]

theorem childsTokens_singleton (n : Node) : childsTokens [n] = n.tokens := by
  rw [childsTokens, childsTokens, List.append_nil]

theorem solid_append (ts ts' : List Token) : solid (ts ++ ts') = solid ts ++ solid ts' :=
  List.filter_append ..

theorem solid_eq_nil {ts : List Token} : solid ts = [] ↔ ∀ t ∈ ts, t.text = [] := by
  simp [solid]

theorem listText_solid (ts : List Token) : listText (solid ts) = listText ts := by
  induction ts with
  | nil => rfl
  | cons t ts ih =>
    rw [solid, List.filter_cons]
    split
    · rw [listText_cons, listText_cons, ← ih]
      rfl
    · next h =>
      have hnil : t.text = [] := by simpa using h
      rw [listText_cons, hnil, ← ih]
      rfl

mutual

/-- The text of a node is that of its tokens. -/
theorem Node.text_eq : (n : Node) → n.text = listText n.tokens
  | .token _ => rfl
  | .node _ _ _ childs => childsText_eq childs

theorem childsText_eq : (ns : List Node) → childsText ns = listText (childsTokens ns)
  | [] => rfl
  | n :: ns => by rw [childsText, childsTokens, listText_append, n.text_eq, childsText_eq ns]

end

theorem OpenNode.tokens_addToken (n : OpenNode) (ts : List Token) :
    solid (childsTokens (n.addToken ts).childs) = solid (childsTokens n.childs) ++ solid ts := by
  unfold OpenNode.addToken
  split
  · next h =>
    have hnil : solid ts = [] := solid_eq_nil.2 (by simpa using h)
    rw [hnil, List.append_nil]
  · show solid (childsTokens (n.childs ++ [.token ts])) = _
    rw [childsTokens_append, childsTokens_singleton, Node.tokens, solid_append]

theorem Parsing.tokens_open (p : Parsing) (kind : NodeKind) (hup : Nat) :
    solid (p.open kind hup).tokens = solid p.tokens := by
  have hcur : solid p.cur = solid (p.cur.take hup) ++ solid (p.cur.drop hup) := by
    rw [← solid_append, List.take_append_drop]
  unfold Parsing.tokens Parsing.tree Parsing.open
  simp only [openTokens, solid_append, OpenNode.tokens_addToken, List.nil_append, childsTokens, hcur,
    List.append_assoc]
  rfl

/-- **No action loses, repeats or moves a token.** -/
theorem act_tokens (a : Action) (p : Parsing) {q : Parsing} (h : (act p a).parsing? = some q) :
    solid q.tokens = solid p.tokens := by
  induction a generalizing p with
  | attach a ih =>
    rw [act] at h
    rw [ih _ h]
    unfold Parsing.tokens Parsing.tree
    simp only [openTokens, solid_append, OpenNode.tokens_addToken, List.nil_append, List.append_assoc]
  | next a ih =>
    rw [act] at h
    cases hcur : p.cur with
    | nil =>
      rw [hcur] at h
      cases h
    | cons t rest =>
      rw [hcur] at h
      rw [ih _ h]
      unfold Parsing.tokens Parsing.tree
      simp only [hcur, List.append_assoc, List.singleton_append]
  | set kind a ih =>
    rw [act] at h
    rw [ih _ h]
    rfl
  | dbg line col a ih =>
    rw [act] at h
    rw [ih _ h]
    rfl
  | setParent kind a ih =>
    rw [act] at h
    cases hbelow : p.below with
    | nil =>
      rw [hbelow] at h
      cases h
    | cons n below =>
      rw [hbelow] at h
      rw [ih _ h]
      unfold Parsing.tokens Parsing.tree
      simp only [hbelow, openTokens]
  | loop =>
    cases h
    rfl
  | openScope kind hup =>
    rw [act] at h
    split at h
    · cases h
    · split at h
      · cases h
        exact p.tokens_open kind hup
      · cases h
  | openBoth kind inner hup =>
    rw [act] at h
    split at h
    · cases h
    · cases h
    · split at h
      · cases h
        rw [Parsing.tokens_open, Parsing.tokens_open]
      · cases h
  | passUp =>
    rw [act] at h
    cases hbelow : p.below with
    | nil =>
      rw [hbelow] at h
      cases h
    | cons n below =>
      rw [hbelow] at h
      cases h
      unfold Parsing.tokens Parsing.tree
      simp only [hbelow, openTokens, childsTokens_append, childsTokens_singleton, OpenNode.toNode,
        Node.tokens, List.append_assoc]
  | finish =>
    cases h
    rfl
  | fail err => cases h
  | null => cases h

end Tokens

end Fanjet

end LibEvmvc
