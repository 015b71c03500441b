import LibEvmvc.Fanjet.Generate

set_option autoImplicit false

/-! # The class of a document

`root_node_t::gen_header_code` writes the class of a document: its head, a body that is made of the nodes
of the template one after the other, and its foot. The body begins with the function the view is rendered
by; it is closed where the last node is written. A function block closes it too, and what comes behind
the block goes on in another function. -/

namespace LibEvmvc

namespace Fanjet

/-! ## The classes it inherits from -/

/-- The items of `@inherits`, with the classes of the documents they are found as. -/
def findInherits (docs : List Document) (doc : Document) :
    List InheritsItem → Except ViewErr (List InheritsItem)
  | [] => .ok []
  | ii :: items =>
    match astFind docs doc ii.path with
    | .error err => .error err
    | .ok d =>
      match findInherits docs doc items with
      | .error err => .error err
      | .ok items => .ok ({ ii with nsclsName := d.nsclsName } :: items)

/-- The document with the classes it inherits from. -/
def Document.inherit (docs : List Document) (doc : Document) : Except ViewErr Document :=
  match findInherits docs doc doc.inheritsItems with
  | .error err => .error err
  | .ok items => .ok { doc with inheritsItems := items }

def InheritsAccess.text : InheritsAccess → Bytes
  | .pub => bytes "    public"
  | .pro => bytes "    protected"
  | .pri => bytes "    private"

/-- `inherit_val`. -/
def inheritVal (items : List InheritsItem) : Bytes :=
  let classes := (items.map fun ii => ii.access.text ++ bytes " " ++ ii.nsclsName ++ bytes " ")
  (if items = [] then bytes " : public ::evmvc::fanjet::view_base"
    else bytes " : " ++ List.intercalate (bytes ", ") classes
      ++ if items.any fun ii => ii.access = .pub then []
        else bytes ", public ::evmvc::fanjet::view_base") ++ bytes " "

/-- `inherit_cstr`. -/
def inheritCstr (items : List InheritsItem) : Bytes :=
  if items = [] then bytes " ::evmvc::fanjet::view_base(engine, _res)"
  else List.intercalate (bytes ", ") (items.map fun ii => ii.nsclsName ++ bytes "(engine, _res)")
    ++ if items.any fun ii => ii.access = .pub then []
      else bytes ", ::evmvc::fanjet::view_base(engine, _res)"

/-! ## The head and the foot -/

/-- The parts of the namespace. -/
def nsVals (doc : Document) : List Bytes := (doc.ns.splitOn 58).filter (· ≠ [])

def nsOpen (doc : Document) : Bytes :=
  (nsVals doc).flatMap fun v => bytes "namespace " ++ v ++ bytes "\x7b "

def nsClose (dbg : Bool) (doc : Document) : Bytes :=
  ((nsVals doc).flatMap fun _ => bytes "\x7d") ++ if dbg then bytes " // " ++ nsOpen doc else []

/-- `cls_head`. -/
def clsHead (doc : Document) : Bytes :=
  nsOpen doc ++ bytes "class " ++ doc.clsName ++ bytes " " ++ inheritVal doc.inheritsItems
    ++ bytes "\x7b private: "

def DocType.text : DocType → Bytes
  | .layout => bytes "evmvc::view_type::layout"
  | .partialView => bytes "evmvc::view_type::partial"
  | .helper => bytes "evmvc::view_type::helper"
  | .body => bytes "evmvc::view_type::body"

/-- A member function of the class that returns a text. -/
def textMember (member : String) (value : Bytes) : Bytes :=
  bytes "    md::string_view " ++ bytes member ++ bytes "() const \x7b return \"" ++ value
    ++ bytes "\";\x7d\n"

/-- `cls_foot`. -/
def clsFoot (dbg : Bool) (doc : Document) (execFn : Bytes) : Bytes :=
  bytes "\n\npublic:\n    " ++ doc.clsName
    ++ bytes "(\n        ::evmvc::sp_view_engine engine,\n        const ::evmvc::response& _res)\n        : "
    ++ inheritCstr doc.inheritsItems ++ bytes "\n    \x7b\n    \x7d\n\n"
    ++ textMember "ns" doc.ns ++ textMember "path" (docDir doc.path) ++ textMember "name" doc.name
    ++ textMember "abs_path" doc.absPath ++ textMember "layout" doc.layout
    ++ bytes "    evmvc::view_type type() const \x7b return " ++ doc.type.text ++ bytes ";\x7d\n"
    ++ bytes "\n    void render(std::shared_ptr<evmvc::view_base> self,\n        md::callback::async_cb cb)\n"
    ++ bytes "    \x7b\n        try\x7b\n            this->" ++ execFn
    ++ bytes "(std::static_pointer_cast<" ++ doc.clsName ++ bytes ">(self), cb);\n"
    ++ bytes "        \x7dcatch(const std::exception& err)\x7b\n            cb(err);\n        \x7d\n    \x7d\n\n\x7d;\n"
    ++ nsClose dbg doc ++ bytes "\n"

/-! ## The body -/

/-- The call of another function, and the `catch` that ends the innermost `try`. -/
def callNext (doc : Document) (fn : Bytes) : Bytes :=
  doc.selfName ++ bytes "->" ++ fn ++ bytes "(" ++ doc.selfName ++ bytes ", " ++ doc.cbName ++ bytes ");"

/-- The `catch` of a `try`. -/
def catchErr (doc : Document) : Bytes :=
  bytes "\x7dcatch(const std::exception& __err)\x7b " ++ doc.cbName ++ bytes "(__err);return;\x7d"

/-- The beginning of a function that renders. -/
def execHead (doc : Document) (fn : Bytes) : Bytes :=
  bytes "void " ++ fn ++ bytes "(std::shared_ptr<" ++ doc.clsName ++ bytes "> " ++ doc.selfName
    ++ bytes ", md::callback::async_cb " ++ doc.cbName ++ bytes ")\x7b try\x7b"

/-- What the loop over the nodes writes into the body. -/
inductive BodyPart where
  /-- calls of `write_raw` for literal text -/
  | write (text : Bytes)
  /-- what is generated for a node -/
  | node (text : Bytes)
  /-- before a function block: the next function is called, and this one is closed -/
  | leave (next : Bytes) (scopeLevel : Nat)
  /-- behind a function block: the next function begins -/
  | enter (next : Bytes)
  /-- behind the last node: what was written is committed, the callback is called, and the function is
      closed -/
  | finish (scopeLevel : Nat)
  deriving DecidableEq, Repr

/-- `s`, `n` times. -/
def repeated (n : Nat) (s : Bytes) : Bytes := (List.replicate n s).flatten

def BodyPart.text (doc : Document) : BodyPart → Bytes
  | .write text => text
  | .node text => text
  | .leave next scopeLevel =>
    callNext doc next ++ catchErr doc ++ repeated scopeLevel (bytes "\x7d);") ++ bytes "\x7d"
  | .enter next => bytes "private: " ++ execHead doc next
  | .finish scopeLevel =>
    commitWrite doc (bytes "html") ++ doc.cbName ++ bytes "(nullptr);"
      ++ repeated scopeLevel (catchErr doc ++ bytes "\x7d);") ++ catchErr doc ++ bytes "\x7d"
      ++ bytes "\n\n// ===========================\n// === end of user section ===\n// ===========================\n"

/-- The parts of the body with another list of parts before them. -/
def withParts (front : List BodyPart) :
    Except GenError (List BodyPart × GenState) → Except GenError (List BodyPart × GenState)
  | .error err => .error err
  | .ok (parts, st) => .ok (front ++ parts, st)

/-- The name of a function that renders. -/
def execName (env : GenEnv) (doc : Document) : Gen := uniqueIdent env (bytes "__exec_" ++ doc.clsName)

/-- What is written behind the last node. -/
def finishPart (st : GenState) : Except GenError (List BodyPart × GenState) :=
  .ok ([.finish st.scopeLevel], st)

/-- The loop over the nodes of the template, with the texts of the tokens since the last other node. -/
def bodyParts (env : GenEnv) (doc : Document) :
    Option Bytes → Bytes → List Node → GenState → Except GenError (List BodyPart × GenState)
  | pending, _, [], st =>
    match pending with
    | none => .ok ([], st)
    | some text => withParts [.write (writeRaw env doc text)] (finishPart st)
  | pending, next, .token ts :: ns, st => bodyParts env doc (some (pending.getD [] ++ listText ts)) next ns st
  | pending, next, .node kind line col childs :: ns, st =>
    let front := pending.toList.map fun text => .write (writeRaw env doc text)
    match kind with
    | .codeFun .. =>
      match Node.gen env doc .literal (.node kind line col childs) st with
      | .error err => .error err
      | .ok (text, st') =>
        match execName env doc { st' with scopeLevel := 0 } with
        | .error err => .error err
        | .ok (next', st') =>
          withParts (front ++ [.leave next st.scopeLevel, .node text, .enter next])
            (if ns.isEmpty then finishPart st' else bodyParts env doc none next' ns st')
    | _ =>
      match if kind.isDirective then .ok ([], st)
          else Node.gen env doc .literal (.node kind line col childs) st with
      | .error err => .error err
      | .ok (text, st') =>
        withParts (front ++ [.node text])
          (if ns.isEmpty then finishPart st' else bodyParts env doc none next ns st')

/-- The two escapes of a template that are left: `@\x7d` is a brace, and `@@` is an `@`. -/
def replaceEscapes (env : GenEnv) (s : Bytes) : Bytes :=
  env.replaceSubstring (env.replaceSubstring s (bytes "@\x7d") (bytes "\x7d")) (bytes "@@") (bytes "@")

/-- `cls_body` before the escapes are replaced: the beginning of the function, and the parts. -/
def bodyText (doc : Document) (execFn : Bytes) (parts : List BodyPart) : Bytes :=
  execHead doc execFn ++ bytes " " ++ beginWrite doc (bytes "html") ++ parts.flatMap (BodyPart.text doc)

/-- The name of the function and the parts of the body. -/
def clsParts (env : GenEnv) (doc : Document) (childs : List Node) (st : GenState) :
    Except GenError ((Bytes × List BodyPart) × GenState) :=
  match execName env doc st with
  | .error err => .error err
  | .ok (execFn, st) =>
    match execName env doc st with
    | .error err => .error err
    | .ok (next, st) =>
      match bodyParts env doc none next childs st with
      | .error err => .error err
      | .ok (parts, st) => .ok ((execFn, parts), st)

/-- `root_node_t::gen_header_code`. -/
def RootNode.gen (env : GenEnv) (dbg : Bool) (docs : List Document) (doc : Document) (r : RootNode) :
    Gen := fun st =>
  match doc.inherit docs with
  | .error err => .error (.find err)
  | .ok doc =>
    match r.child with
    | .token _ => .error .noChild
    | .node _ _ _ childs =>
      match clsParts env doc childs st with
      | .error err => .error err
      | .ok ((execFn, parts), st) =>
        .ok (clsHead doc ++ replaceEscapes env (bodyText doc execFn parts) ++ clsFoot dbg doc execFn, st)

/-! ## One part after the other -/

/-- The call for the tokens so far. -/
def pendingParts (env : GenEnv) (doc : Document) (pending : Option Bytes) : List BodyPart :=
  pending.toList.map fun text => .write (writeRaw env doc text)

/-- A node whose text is written into the body as it is. -/
def NodeKind.isInline : NodeKind → Bool
  | .directive .. => false
  | .codeFun .. => false
  | _ => true

section Parts

variable {env : GenEnv} {doc : Document}

theorem bodyParts_token (pending : Option Bytes) (next : Bytes) (ts : List Token) (ns : List Node)
    (st : GenState) :
    bodyParts env doc pending next (.token ts :: ns) st
      = bodyParts env doc (some (pending.getD [] ++ listText ts)) next ns st := by
  rw [bodyParts]

theorem bodyParts_inline {pending : Option Bytes} {next : Bytes} {kind : NodeKind} {line col : Nat}
    {childs ns : List Node} {st : GenState} (hkind : kind.isInline = true) :
    bodyParts env doc pending next (.node kind line col childs :: ns) st
      = match Node.gen env doc .literal (.node kind line col childs) st with
        | .error err => .error err
        | .ok (text, st') =>
          withParts (pendingParts env doc pending ++ [.node text])
            (if ns.isEmpty then finishPart st' else bodyParts env doc none next ns st') := by
  rw [bodyParts.eq_def]
  cases kind with
  | directive => cases hkind
  | codeFun => cases hkind
  | _ => rfl

theorem bodyParts_directive {pending : Option Bytes} {next : Bytes} {sec : DirectiveSec} {done : Bool}
    {line col : Nat} {childs ns : List Node} {st : GenState} :
    bodyParts env doc pending next (.node (.directive sec done) line col childs :: ns) st
      = withParts (pendingParts env doc pending ++ [.node []])
        (if ns.isEmpty then finishPart st else bodyParts env doc none next ns st) := by
  rw [bodyParts.eq_def]
  rfl

theorem bodyParts_fun {pending : Option Bytes} {next : Bytes} {sec : FunSec} {done : Bool} {line col : Nat}
    {childs ns : List Node} {st : GenState} :
    bodyParts env doc pending next (.node (.codeFun sec done) line col childs :: ns) st
      = match Node.gen env doc .literal (.node (.codeFun sec done) line col childs) st with
        | .error err => .error err
        | .ok (text, st') =>
          match execName env doc { st' with scopeLevel := 0 } with
          | .error err => .error err
          | .ok (next', st') =>
            withParts (pendingParts env doc pending ++ [.leave next st.scopeLevel, .node text, .enter next])
              (if ns.isEmpty then finishPart st' else bodyParts env doc none next' ns st') := by
  rw [bodyParts.eq_def]
  rfl

/-- The parts for a node stand behind the tokens before it, and before the parts of the nodes behind it. -/
theorem bodyParts_node (env : GenEnv) (doc : Document) (next : Bytes) (kind : NodeKind) (line col : Nat)
    (childs : List Node) (st : GenState) :
    (∃ err, ∀ pending ns, bodyParts env doc pending next (.node kind line col childs :: ns) st = .error err) ∨
      ∃ front next' st', ∀ pending ns, bodyParts env doc pending next (.node kind line col childs :: ns) st
        = withParts (pendingParts env doc pending ++ front)
          (if ns.isEmpty then finishPart st' else bodyParts env doc none next' ns st') := by
  by_cases hkind : kind.isInline = true
  · simp only [bodyParts_inline hkind]
    cases Node.gen env doc .literal (.node kind line col childs) st with
    | error err => exact .inl ⟨err, fun _ _ => rfl⟩
    | ok r => exact .inr ⟨_, _, _, fun _ _ => rfl⟩
  · cases kind with
    | directive sec done => exact .inr ⟨[.node []], next, st, fun _ _ => bodyParts_directive⟩
    | codeFun sec done =>
      simp only [bodyParts_fun]
      cases Node.gen env doc .literal (.node (.codeFun sec done) line col childs) st with
      | error err => exact .inl ⟨err, fun _ _ => rfl⟩
      | ok r =>
        dsimp only
        cases execName env doc { r.2 with scopeLevel := 0 } with
        | error err => exact .inl ⟨err, fun _ _ => rfl⟩
        | ok r' => exact .inr ⟨_, _, _, fun _ _ => rfl⟩
    | _ => exact absurd rfl hkind

end Parts

end Fanjet

end LibEvmvc
