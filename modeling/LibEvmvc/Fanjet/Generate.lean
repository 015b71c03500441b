import LibEvmvc.Foundation.Replace
import LibEvmvc.Foundation.Words
import LibEvmvc.Fanjet.Parser
import LibEvmvc.Views.FindDocument

set_option autoImplicit false

/-! # The generator

Each node of a template generates a part of the class of its document (`gen_header_code`). Literal text
becomes calls of `write_raw` with a string literal, code is taken over, and the keys and aliases in it
are replaced (`replace_fan_keys`): by each code block and each statement, in all that is generated for
what is in it.

A partial rendering `@> view;` opens a function and a `try` in it, which stay open for the rest of the
template. How many are open is the document's `scope_level`. -/

namespace LibEvmvc

namespace Fanjet

/-! ## The environment -/

/-- What the generator uses of the library underneath, and the files it can read. -/
structure GenEnv extends FanEnv where
  /-- `md::num_to_str` -/
  numToStr : Nat → Bytes
  /-- `md::replace_substring` -/
  replaceSubstring : Bytes → Bytes → Bytes → Bytes
  replace_eq : ∀ s f r, f ≠ [] → replaceSubstring s f r = replaceAll f r s
  /-- the lines of a file, if it exists -/
  readLines : Bytes → Option (List Bytes)

/-- What changes while a document is generated: its `scope_level`, and the counter of
    `unique_ident`. -/
structure GenState where
  scopeLevel : Nat
  idents : Nat
  deriving DecidableEq, Repr

inductive GenError where
  /-- Unknown code block start token -/
  | unknownStart (text : Bytes)
  /-- Not implemented! -/
  | notImplemented
  /-- Unknown fanjet function -/
  | unknownFunction (text : Bytes)
  /-- Unknown file name for @import! -/
  | unknownImport (line col : Nat) (filename : Bytes)
  /-- `substr` behind the end -/
  | outOfRange
  /-- `child` of a child that is not there -/
  | noChild
  /-- what `ast::find` throws -/
  | find (err : ViewErr)
  deriving DecidableEq, Repr

/-- A part of the generator: a text, or an exception. -/
def Gen : Type := GenState → Except GenError (Bytes × GenState)

/-- A text. -/
def Gen.text (b : Bytes) : Gen := fun st => .ok (b, st)

def Gen.fail (err : GenError) : Gen := fun _ => .error err

/-- One text, and another one behind it. -/
def Gen.append (g h : Gen) : Gen := fun st =>
  match g st with
  | .error err => .error err
  | .ok (a, st) =>
    match h st with
    | .error err => .error err
    | .ok (b, st) => .ok (a ++ b, st)

instance : Append Gen := ⟨Gen.append⟩

/-- A text that is changed once it is there. -/
def Gen.map (f : Bytes → Bytes) (g : Gen) : Gen := fun st =>
  match g st with
  | .error err => .error err
  | .ok (a, st) => .ok (f a, st)

/-- What is done with a text. -/
def Gen.bind (g : Gen) (f : Bytes → Gen) : Gen := fun st =>
  match g st with
  | .error err => .error err
  | .ok (a, st) => f a st

/-- `unique_ident`. -/
def uniqueIdent (env : GenEnv) (pre : Bytes) : Gen := fun st =>
  .ok (pre ++ bytes "_" ++ env.numToStr (st.idents + 1), { st with idents := st.idents + 1 })

/-! ## Keys and aliases -/

/-- The characters of a word: `isalnum(c) || c == '_' || c == '@'`. -/
def isFanWord (c : UInt8) : Bool := isAlphanum c || c == 64

/-- `document_t::replace_alias`, for a word. -/
def aliasWord (doc : Document) (wrd : Bytes) : Bytes :=
  if wrd = bytes "@this" then doc.selfName
  else if wrd = bytes "@type" then doc.nsclsName
  else if wrd = bytes "@shared_type" then bytes "std::shared_ptr<" ++ doc.nsclsName ++ bytes ">"
  else
    match doc.inheritsItems.find? fun ii => ii.aliasName = wrd with
    | some ii => ii.nsclsName
    | none => wrd

/-- `document_t::replace_alias`. -/
def replaceAlias (doc : Document) (s : Bytes) : Bytes := replaceWords isFanWord (aliasWord doc) s

/-- `replace_fan_keys`, for a word. -/
def fanKeyWord (doc : Document) (wrd : Bytes) : Bytes :=
  let wrd := replaceAlias doc wrd
  if wrd = bytes "@this" then doc.selfName
  else if wrd = bytes "@type" then doc.nsclsName
  else if wrd = bytes "@shared_type" then bytes "std::shared_ptr<" ++ doc.nsclsName ++ bytes ">"
  else if wrd = bytes "@req" then doc.selfName ++ bytes "->req"
  else if wrd = bytes "@res" then doc.selfName ++ bytes "->res"
  else if wrd = bytes "@cb" then doc.cbName
  else if wrd = bytes "@filename" then doc.filename
  else if wrd = bytes "@dirname" then doc.dirname
  else wrd

/-- `replace_fan_keys`. -/
def replaceFanKeys (doc : Document) (s : Bytes) : Bytes := replaceWords isFanWord (fanKeyWord doc) s

/-- A word that is replaced by a text, and no other one. -/
def oneWord (f r wrd : Bytes) : Bytes := if wrd = f then r else wrd

/-- `document_t::replace_paths`. -/
def replacePaths (doc : Document) (s : Bytes) : Bytes :=
  replaceWords isFanWord (oneWord (bytes "@filename") doc.filename)
    (replaceWords isFanWord (oneWord (bytes "@dirname") doc.dirname) s)

/-! ## Literal text -/

/-- `escape_cpp_source`. -/
def escapeCppSource (env : GenEnv) (source : Bytes) : Bytes :=
  let escs := env.replaceSubstring source (bytes "\\") (bytes "\\\\")
  let escs := env.replaceSubstring escs (bytes "\"") (bytes "\\\"")
  let escs := env.replaceSubstring escs (bytes "\t") (bytes "\\t")
  let escs := env.replaceSubstring escs (bytes "\r") (bytes "\\r")
  bytes "\"" ++ (escs.flatMap fun c => if c = 10 then bytes "\\n\"\n\"" else [c]) ++ bytes "\""

/-- `write_tokens`, for the texts of the tokens. -/
def writeRaw (env : GenEnv) (doc : Document) (text : Bytes) : Bytes :=
  replaceFanKeys doc (bytes "@this->write_raw(") ++ escapeCppSource env text
    ++ replaceFanKeys doc (bytes ");")

/-- The call for the tokens so far, if there are any. -/
def writePending (env : GenEnv) (doc : Document) (pending : Option Bytes) : Bytes :=
  (pending.map (writeRaw env doc)).getD []

/-- `doc->self_name + "->" + ...`. -/
def selfCall (doc : Document) (call : Bytes) : Bytes := doc.selfName ++ bytes "->" ++ call

def beginWrite (doc : Document) (lang : Bytes) : Bytes :=
  selfCall doc (bytes "begin_write(\"" ++ lang ++ bytes "\");")

def commitWrite (doc : Document) (lang : Bytes) : Bytes :=
  selfCall doc (bytes "commit_write(\"" ++ lang ++ bytes "\");")

def writeSection (doc : Document) (name : Bytes) : Bytes :=
  selfCall doc (bytes "write_section(\"$" ++ name ++ bytes "\");")

/-- The kinds of sections a literal can be, by its language. -/
inductive SectionKind where
  | none
  | add
  | write
  | writeSemicol
  deriving DecidableEq, Repr

/-- `is_add_section`, `is_write_section` and `is_write_semcolon_section`. -/
def sectionKind (sec : LiteralSec) (lang : Bytes) : SectionKind :=
  if sec ≠ .markupOther then .none
  else if (bytes "<$").isPrefixOf lang then .add
  else if (bytes "$>").isPrefixOf lang then .write
  else if (bytes "$$").isPrefixOf lang then .writeSemicol
  else .none

/-- What `literal_node_t::gen_header_code` writes before the contents. -/
def literalBegin (doc : Document) (sec : LiteralSec) (lang : Bytes) : Bytes :=
  let name := lang.drop 2
  match sectionKind sec lang with
  | .add => beginWrite doc (bytes "$" ++ name) ++ beginWrite doc (bytes "html")
  | .write =>
    bytes "if(" ++ selfCall doc (bytes "section_exists(\"$" ++ name ++ bytes "\")") ++ bytes ")\x7b"
      ++ writeSection doc name ++ bytes "\x7delse\x7b" ++ beginWrite doc (bytes "html")
  | .writeSemicol => writeSection doc name
  | .none => beginWrite doc (if sec = .markupOther then lang else bytes "html")

/-- What it writes after the contents. -/
def literalEnd (doc : Document) (sec : LiteralSec) (lang : Bytes) : Bytes :=
  let name := lang.drop 2
  match sectionKind sec lang with
  | .add => commitWrite doc (bytes "html") ++ commitWrite doc (bytes "$" ++ name)
  | .write => commitWrite doc (bytes "html") ++ bytes "\x7d"
  | .writeSemicol => []
  | .none => commitWrite doc (if sec = .markupOther then lang else bytes "html")

/-! ## Nodes -/

/-- Whether a node stands in literal text or in code: `is_literal_ctx` and `is_cpp_ctx`. -/
inductive GenCtx where
  | root
  | literal
  | cpp
  deriving DecidableEq, Repr

def NodeKind.isDirective : NodeKind → Bool
  | .directive .. => true
  | _ => false

/-- `node_t::token_text`: only a node for tokens has one. -/
def Node.tokenText : Node → Bytes
  | .token ts => listText ts
  | .node .. => []

/-- `text(0)`: the texts of the tokens among the children. -/
def tokenTexts (childs : List Node) : Bytes := childs.flatMap Node.tokenText

/-- The calls `fan_fn_node_t::gen_header_code` begins with, and whether a parenthesis is to be
    closed. -/
def fnCall (doc : Document) (tt : Bytes) : Option (Bytes × Bool) :=
  if tt = bytes "@set" then some (selfCall doc (bytes "set"), false)
  else if tt = bytes "@get" then
    some (selfCall doc (bytes "write_enc(") ++ selfCall doc (bytes "get<std::string>"), true)
  else if tt = bytes "@fmt" then some (selfCall doc (bytes "write_enc(") ++ selfCall doc (bytes "fmt"), true)
  else if tt = bytes "@get-raw" then
    some (selfCall doc (bytes "write_raw(") ++ selfCall doc (bytes "get<std::string>"), true)
  else if tt = bytes "@fmt-raw" then
    some (selfCall doc (bytes "write_raw(") ++ selfCall doc (bytes "fmt"), true)
  else if tt = bytes "@script" then some (selfCall doc (bytes "add_script"), false)
  else if tt = bytes "@style" then some (selfCall doc (bytes "add_style"), false)
  else none

/-- The call that opens the function of a partial rendering. -/
def renderCall (env : GenEnv) (doc : Document) (vs : Bytes) : Gen := fun st =>
  (Gen.bind (uniqueIdent env (bytes "__err_" ++ doc.clsName)) fun errVar =>
    .text (selfCall doc (bytes "render_view(" ++ vs ++ bytes ", [" ++ doc.selfName ++ bytes ", "
      ++ doc.cbName ++ bytes "](md::callback::cb_error " ++ errVar ++ bytes ")\x7b if(" ++ errVar
      ++ bytes ")\x7b " ++ doc.cbName ++ bytes "(" ++ errVar ++ bytes "); return; \x7d try\x7b ")))
    { st with scopeLevel := st.scopeLevel + 1 }

/-- The name of a view that is written as it is. -/
def staticName (env : GenEnv) (doc : Document) (nds : List Node) : Bytes :=
  bytes "\"" ++ env.trim (replaceFanKeys doc (tokenTexts nds)) ++ bytes "\""

/-- The text of an imported file. -/
def importFile (env : GenEnv) (doc : Document) (line col : Nat) (src : Bytes) : Gen :=
  if src.length < 2 then .fail .outOfRange
  else
    let src := (src.drop 2).take (if 4 ≤ src.length then src.length - 4 else src.length)
    match env.readLines src with
    | none => .fail (.unknownImport line col doc.filename)
    | some lines =>
      .text (selfCall doc (bytes "write_raw(") ++ (lines.flatMap fun l =>
        bytes "\"" ++ env.replaceSubstring l (bytes "\"") (bytes "\\\"") ++ bytes "\"\n") ++ bytes ");")

/-- The keys `fan_key_node_t::gen_header_code` has a call for. -/
def keyCall (doc : Document) (tt : Bytes) : Option Bytes :=
  if tt = bytes "@body" then some (selfCall doc (bytes "write_body();"))
  else if tt = bytes "@scripts" then some (selfCall doc (bytes "write_scripts();"))
  else if tt = bytes "@styles" then some (selfCall doc (bytes "write_styles();"))
  else none

mutual

/-- `gen_header_code` of a node. -/
def Node.gen (env : GenEnv) (doc : Document) (ctx : GenCtx) : Node → Gen
  | .token _ => .fail .notImplemented
  | .node (.literal sec lang _) _ _ childs =>
    .text (literalBegin doc sec lang) ++
      (match childs with
        | [] => .fail .noChild
        | c :: cs =>
          if sec = .literal then genWrites env doc .literal false none (c :: cs)
          else if sectionKind sec lang = .writeSemicol then .text []
          else if cs.isEmpty then .fail .noChild
          else genWrites env doc .literal true none cs) ++
      .text (literalEnd doc sec lang)
  | .node (.expr _) _ _ childs =>
    if childs.isEmpty then .fail .noChild
    else
      match ctx with
      | .literal => genWrites env doc .literal false none childs
      | .cpp => genCode env doc .cpp true false childs
      | .root => .text []
  | .node (.string ..) _ _ childs =>
    match ctx with
    | .literal => if childs.isEmpty then .fail .noChild else genWrites env doc .literal false none childs
    | .cpp =>
      match childs with
      | [] => .fail .noChild
      | c :: cs => .text c.tokenText ++ genCode env doc .cpp true true cs ++ .text c.tokenText
    | .root => .text []
  | .node (.tag _) _ _ childs =>
    if childs.isEmpty then .fail .noChild else genWrites env doc ctx false none childs
  | .node (.comment _) _ _ childs =>
    let s := env.replaceSubstring (tokenTexts childs) (bytes "@**") (bytes "//")
    let s := env.replaceSubstring s (bytes "@*") (bytes "/*")
    .text (env.replaceSubstring s (bytes "*@") (bytes "*/"))
  | .node (.output sec _) _ _ childs =>
    .text (selfCall doc (if sec = .outputEnc then bytes "write_enc(" else bytes "write_raw(")) ++
      (match childs with
        | _ :: .node _ _ _ nds :: _ => (genCode env doc .cpp false true nds).map (replaceFanKeys doc)
        | _ :: .token _ :: _ => .text (replaceFanKeys doc [])
        | _ => .fail .noChild) ++
      .text (bytes ");")
  | .node .codeBlock _ _ childs =>
    match childs with
    | [] => .fail .noChild
    | fn :: cns =>
      let code := (genCode env doc .cpp false true cns).map (replaceFanKeys doc)
      if fn.tokenText = bytes "@\x7b" then code
      else if fn.tokenText = bytes "\x7b" then .text (bytes "\x7b") ++ code ++ .text (bytes "\x7d")
      else .fail (.unknownStart fn.tokenText)
  | .node (.codeControl _) _ _ childs =>
    match childs with
    | [] => .fail .noChild
    | fn :: cns =>
      let tt := fn.tokenText
      let code := (genCode env doc .cpp false false cns).map (replaceFanKeys doc)
      if (["@if", "@switch", "@while", "@for", "@do"].map bytes).contains tt then .text (tt.drop 1) ++ code
      else if (["if", "switch", "while", "for", "do"].map bytes).contains tt then .text tt ++ code
      else .fail (.unknownStart tt)
  | .node (.codeErr _) _ _ childs => .text (tokenTexts childs)
  | .node (.codeAsync _) _ _ childs => .text (tokenTexts childs)
  | .node (.codeFun sec _) _ _ childs =>
    if sec = .codeFunc then
      .text (((childsText childs).splitOn 10).flatMap fun l => bytes "// " ++ l ++ bytes "\n")
    else
      .text (bytes "private: ") ++
        (match childs with
          | _ :: .node _ _ _ (_ :: nds) :: _ =>
            (genCode env doc .cpp false true nds).map (replaceFanKeys doc)
          | _ :: .node _ _ _ [] :: _ => .text (replaceFanKeys doc [])
          | _ :: .token _ :: _ => .text (replaceFanKeys doc [])
          | _ => .fail .noChild)
  | .node (.fanKey _) _ _ childs =>
    match childs with
    | [] => .fail .noChild
    | fn :: _ => .text ((keyCall doc fn.tokenText).getD (tokenTexts childs))
  | .node (.fanFn ..) line col childs =>
    match childs with
    | [] => .fail .noChild
    | fn :: cns =>
      let tt := fn.tokenText
      let code := (genCode env doc .cpp false false cns).map (replaceFanKeys doc)
      if tt = bytes "@>" then
        match cns with
        | .node _ _ _ nds :: _ =>
          if (nds.dropLast.all fun n => match n with | .token _ => true | .node .. => false) then
            renderCall env doc (staticName env doc nds.dropLast)
          else ((genCode env doc .cpp false true nds).map (replaceFanKeys doc)).bind (renderCall env doc)
        | .token _ :: _ => renderCall env doc (staticName env doc [])
        | [] => .fail .noChild
      else if tt = bytes "@import" then code.bind (importFile env doc line col)
      else
        match fnCall doc tt with
        | none => .fail (.unknownFunction tt)
        | some (call, closeParens) =>
          .text call ++ code ++ .text (if closeParens then bytes ");" else bytes ";")
  | .node (.directive sec _) _ _ childs =>
    match sec, childs with
    | .dirInclude, _ :: cs => .text (bytes "#include " ++ replacePaths doc (tokenTexts cs))
    | .dirInclude, [] => .text (bytes "#include " ++ replacePaths doc [])
    | .dirHeader, _ :: .node _ _ _ (_ :: nds) :: _ =>
      (genCode env doc ctx false true nds).map (replaceFanKeys doc)
    | .dirHeader, _ :: _ :: _ => .text (replaceFanKeys doc [])
    | .dirHeader, _ => .fail .noChild
    | _, _ => .fail .notImplemented

/-- The texts of the tokens and what is generated for the other nodes: without directives if `skip`, and
    without the last node if `init`. -/
def genCode (env : GenEnv) (doc : Document) (ctx : GenCtx) (skip init : Bool) : List Node → Gen
  | [] => .text []
  | n :: ns =>
    if init && ns.isEmpty then .text []
    else
      (match n with
        | .token ts => .text (listText ts)
        | .node kind _ _ _ => if skip && kind.isDirective then .text [] else n.gen env doc ctx) ++
      genCode env doc ctx skip init ns

/-- Calls for the texts of the tokens, one for those that follow each other, and what is generated for
    the other nodes: without the last node if `init`. -/
def genWrites (env : GenEnv) (doc : Document) (ctx : GenCtx) (init : Bool) :
    Option Bytes → List Node → Gen
  | pending, [] => .text (writePending env doc pending)
  | pending, n :: ns =>
    if init && ns.isEmpty then .text (writePending env doc pending)
    else
      match n with
      | .token ts => genWrites env doc ctx init (some (pending.getD [] ++ listText ts)) ns
      | .node kind _ _ _ =>
        .text (writePending env doc pending) ++
          (if kind.isDirective then .text [] else n.gen env doc ctx) ++ genWrites env doc ctx init none ns

end

/-! ## One node after the other -/

/-- A node that something is generated for: neither tokens nor a directive. -/
def Node.isGenerated : Node → Bool
  | .token _ => false
  | .node kind .. => !kind.isDirective

section Lists

variable {env : GenEnv} {doc : Document} {ctx : GenCtx} {skip init : Bool} {ns : List Node}

theorem not_last (hlast : init = true → ns ≠ []) : ¬ (init && ns.isEmpty) = true := by
  rw [Bool.and_eq_true, List.isEmpty_iff]
  exact fun hboth => hlast hboth.1 hboth.2

theorem genCode_token (hlast : init = true → ns ≠ []) (ts : List Token) :
    genCode env doc ctx skip init (.token ts :: ns)
      = .text (listText ts) ++ genCode env doc ctx skip init ns := by
  rw [genCode.eq_def]
  exact if_neg (not_last hlast)

theorem genCode_node (hlast : init = true → ns ≠ []) {n : Node} (hn : n.isGenerated = true) :
    genCode env doc ctx skip init (n :: ns) = n.gen env doc ctx ++ genCode env doc ctx skip init ns := by
  cases n with
  | token => cases hn
  | node kind line col childs =>
    rw [Node.isGenerated, Bool.not_eq_true'] at hn
    rw [genCode.eq_def]
    dsimp only
    rw [if_neg (not_last hlast), hn, Bool.and_false, if_neg Bool.false_ne_true]

/-- What is generated for a node of code stands before what is generated for the nodes behind it. -/
theorem genCode_cons (env : GenEnv) (doc : Document) (ctx : GenCtx) (skip init : Bool) (n : Node) :
    ∃ k : Gen, ∀ ns, (init = true → ns ≠ []) →
      genCode env doc ctx skip init (n :: ns) = k ++ genCode env doc ctx skip init ns := by
  cases n with
  | token ts => exact ⟨.text (listText ts), fun ns hlast => genCode_token hlast ts⟩
  | node kind line col childs =>
    refine ⟨if skip && kind.isDirective then .text [] else Node.gen env doc ctx (.node kind line col childs),
      fun ns hlast => ?_⟩
    rw [genCode.eq_def]
    exact if_neg (not_last hlast)

theorem genWrites_token (hlast : init = true → ns ≠ []) (pending : Option Bytes) (ts : List Token) :
    genWrites env doc ctx init pending (.token ts :: ns)
      = genWrites env doc ctx init (some (pending.getD [] ++ listText ts)) ns := by
  rw [genWrites.eq_def]
  exact if_neg (not_last hlast)

theorem genWrites_node (hlast : init = true → ns ≠ []) (pending : Option Bytes) {n : Node}
    (hn : n.isGenerated = true) :
    genWrites env doc ctx init pending (n :: ns)
      = .text (writePending env doc pending) ++ n.gen env doc ctx ++ genWrites env doc ctx init none ns := by
  cases n with
  | token => cases hn
  | node kind line col childs =>
    rw [Node.isGenerated, Bool.not_eq_true'] at hn
    rw [genWrites.eq_def]
    dsimp only
    rw [if_neg (not_last hlast), hn, if_neg Bool.false_ne_true]

theorem genWrites_directive (hlast : init = true → ns ≠ []) (pending : Option Bytes) {kind : NodeKind}
    (hkind : kind.isDirective = true) (line col : Nat) (childs : List Node) :
    genWrites env doc ctx init pending (.node kind line col childs :: ns)
      = .text (writePending env doc pending) ++ .text [] ++ genWrites env doc ctx init none ns := by
  rw [genWrites.eq_def]
  dsimp only
  rw [if_neg (not_last hlast), if_pos hkind]

theorem genWrites_cons (env : GenEnv) (doc : Document) (ctx : GenCtx) (init : Bool) (kind : NodeKind)
    (line col : Nat) (childs : List Node) :
    ∃ k : Gen, ∀ pending ns, (init = true → ns ≠ []) →
      genWrites env doc ctx init pending (.node kind line col childs :: ns)
        = .text (writePending env doc pending) ++ k ++ genWrites env doc ctx init none ns := by
  refine ⟨if kind.isDirective then .text [] else Node.gen env doc ctx (.node kind line col childs),
    fun pending ns hlast => ?_⟩
  rw [genWrites.eq_def]
  exact if_neg (not_last hlast)

theorem genWrites_last (pending : Option Bytes) (n : Node) :
    genWrites env doc ctx true pending [n] = .text (writePending env doc pending) := by
  rw [genWrites.eq_def]
  rfl

end Lists
end Fanjet

end LibEvmvc
