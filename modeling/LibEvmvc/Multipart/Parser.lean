import LibEvmvc.Http.Headers
import LibEvmvc.Foundation.LineFeed
import Mathlib.Logic.Function.Basic

set_option autoImplicit false

/-! # The multipart parser

`http_parser::parse_form_multip` is a machine over the lines of its buffer. It builds a tree of
contents under `_mp_root` and keeps a pointer, `_mp_current`, to the node the next line is about. The
nodes are kept by number here, the root being number 0; a node knows its parent, and a subcontent
the nodes that were added to it.

Only the headers of the current node are ever read or written, so they are kept apart. The parent of
a node is always alive, and opening, writing and closing temporary files is taken to succeed; a file
node holds what was written to its file. `md::trim` is a parameter. -/

namespace LibEvmvc

/-- `multipart_parser_state`. -/
inductive MpStage where
  | init
  | headers
  | content
  | failed
  deriving DecidableEq, Repr

/-- `multipart_subcontent_type`. -/
inductive MpSubType where
  | root
  | mixed
  | alternative
  | digest
  deriving DecidableEq, Repr

/-- What kind of content a node is, with the data of that kind. -/
inductive MpKind where
  | unset
  | form (value : Bytes)
  | file (filename : Bytes) (size : Nat) (appendCrlf : Bool) (written : Bytes)
  | subcontent (subType : MpSubType) (startBoundary endBoundary : Bytes) (contents : List Nat)
  deriving DecidableEq, Repr

def defaultMimeType : Bytes := bytes "text/plain"

/-- `multipart_content_t`. -/
structure MpNode where
  parent : Nat
  name : Bytes := []
  mimeType : Bytes := defaultMimeType
  kind : MpKind := .unset
  deriving DecidableEq, Repr

/-- The nodes made so far, the current one and its headers. -/
structure MpTree where
  nodes : Nat → MpNode
  next : Nat
  current : Nat
  headers : HeaderMap

/-- Why the parser fails, with the status it answers. -/
inductive MpError where
  /-- `must start with the boundary` -/
  | noBoundary
  /-- `Unable to parse the boundary header!` -/
  | badHeader
  /-- `Invalid multipart content type!` -/
  | invalidType
  deriving DecidableEq, Repr

def MpError.status : MpError → Nat
  | .noBoundary => 400
  | .badHeader => 400
  | .invalidType => 500

/-- The variables of the parser, apart from its buffer. -/
structure MpParse where
  tree : MpTree
  stage : MpStage
  completed : Bool
  error : Option MpError

/-! ## Attributes of a header value -/

section Attributes

variable (trim : Bytes → Bytes)

/-- The first `key=value` of a header value with the given key: parts with more than one `=`, or
    with none, do not count. -/
def headerParam (hdrVal key : Bytes) : Option Bytes :=
  ((hdrVal.splitOn 59).map fun kv => (trim kv).splitOn 61).findSome? fun
    | [k, v] => if trim k = key then some (trim v) else none
    | _ => none

/-- `multip::get_boundary` of a header value. -/
def mpBoundary (hdrVal : Bytes) : Bytes := (headerParam trim hdrVal (bytes "boundary")).getD []

/-- A quote at the beginning and one at the end taken away. -/
def unquote (val : Bytes) : Bytes :=
  let val := if val.head? = some 34 then val.drop 1 else val
  if val.getLast? = some 34 then val.dropLast else val

/-- `multip::get_header_attribute`. -/
def getHeaderAttribute (hdrVal attrName : Bytes) : Bytes :=
  ((headerParam trim hdrVal attrName).map unquote).getD []

end Attributes

/-! ## Nodes -/

namespace MpTree

def currentNode (t : MpTree) : MpNode := t.nodes t.current

/-- Change the current node. -/
def modifyCurrent (t : MpTree) (f : MpNode → MpNode) : MpTree :=
  { t with nodes := Function.update t.nodes t.current (f t.currentNode) }

/-- Make a node and let it be the current one. -/
def make (t : MpTree) (n : MpNode) : MpTree :=
  { t with nodes := Function.update t.nodes t.next n, next := t.next + 1, current := t.next }

/-- A content that is not known yet, with headers of its own. -/
def makeUnset (t : MpTree) (parent : Nat) : MpTree :=
  { t.make { parent := parent } with headers := .empty _ _ }

/-- The current node as another kind of content; the headers are shared. -/
def makeCopy (t : MpTree) (kind : MpKind) : MpTree := t.make { t.currentNode with kind := kind }

/-- The boundary lines of a subcontent. -/
def boundaries (t : MpTree) (id : Nat) : Bytes × Bytes :=
  match (t.nodes id).kind with
  | .subcontent _ s e _ => (s, e)
  | _ => ([], [])

/-- `contents.emplace_back`. -/
def addContent (t : MpTree) (id child : Nat) : MpTree :=
  match (t.nodes id).kind with
  | .subcontent ty s e cs =>
    let n := { t.nodes id with kind := .subcontent ty s e (cs ++ [child]) }
    { t with nodes := Function.update t.nodes id n }
  | _ => t

@[simp] theorem currentNode_make (t : MpTree) (n : MpNode) : (t.make n).currentNode = n := by
  simp [currentNode, make]

@[simp] theorem currentNode_makeUnset (t : MpTree) (k : Nat) :
    (t.makeUnset k).currentNode = { parent := k } := by
  simp [currentNode, makeUnset, make]

@[simp] theorem currentNode_makeCopy (t : MpTree) (kind : MpKind) :
    (t.makeCopy kind).currentNode = { t.currentNode with kind := kind } :=
  t.currentNode_make _

@[simp] theorem currentNode_modifyCurrent (t : MpTree) (f : MpNode → MpNode) :
    (t.modifyCurrent f).currentNode = f t.currentNode := by
  simp [currentNode, modifyCurrent]

end MpTree

/-- `set_boundary`: the start and the end line. -/
def setBoundary (b : Bytes) : Bytes × Bytes := (bytes "--" ++ b, bytes "--" ++ b ++ bytes "--")

/-- `http_parser::init_multip`, once the boundary is known. -/
def initMultip (boundary : Bytes) : MpParse :=
  { tree :=
      { nodes := fun _ =>
          { parent := 0
            kind := .subcontent .root (setBoundary boundary).1 (setBoundary boundary).2 [] }
        next := 1
        current := 0
        headers := .empty _ _ }
    stage := .init
    completed := false
    error := none }

/-! ## Lines -/

/-- `goto cleanup` with an error. -/
def MpParse.fail (p : MpParse) (e : MpError) : MpParse :=
  { p with stage := .failed, error := some e }

/-- `_mp_parse_boundary_header`. -/
def mpParseBoundaryHeader (t : MpTree) (hdr : Bytes) : Option MpTree :=
  if 58 ∈ hdr then
    some { t with headers :=
      t.headers.set (hdr.takeWhile (· ≠ 58)) ((hdr.dropWhile (· ≠ 58)).drop 1) false }
  else none

/-- A header line of a part. -/
def mpHeaderLine (p : MpParse) (hdr : Bytes) : MpParse :=
  match mpParseBoundaryHeader p.tree hdr with
  | some t => { p with tree := t }
  | none => p.fail .badHeader

/-- `multipart_content_t::get`. -/
def MpTree.get (t : MpTree) (name : Bytes) : Bytes := (t.headers.getFirst name).getD []

/-- The subcontent a content type asks for. -/
def mpSubType (ct : Bytes) : Option MpSubType :=
  if bytes "multipart/mixed" <:+: ct then some .mixed
  else if bytes "multipart/alternative" <:+: ct then some .alternative
  else if bytes "multipart/digest" <:+: ct then some .digest
  else none

section Assign

variable (trim : Bytes → Bytes)

/-- The boundary lines of a subcontent: its own, or those of the content it is in. -/
def subBoundaries (t : MpTree) (ct : Bytes) : Bytes × Bytes :=
  if mpBoundary trim ct = [] then t.boundaries t.currentNode.parent
  else setBoundary (mpBoundary trim ct)

/-- Enter a subcontent: the current node is now the subcontent itself. -/
def enterSubcontent (t : MpTree) (ty : MpSubType) (ct cd : Bytes) : MpTree :=
  let bs := subBoundaries trim t ct
  (t.makeCopy (.subcontent ty bs.1 bs.2 [])).modifyCurrent fun n =>
    { n with mimeType := [], name := getHeaderAttribute trim cd (bytes "name") }

/-- Enter a form field or a file. -/
def enterContent (t : MpTree) (ct cd : Bytes) : MpTree :=
  let t := t.modifyCurrent fun n =>
    { n with name := getHeaderAttribute trim cd (bytes "name"), mimeType := trim ct }
  let filename := getHeaderAttribute trim cd (bytes "filename")
  if filename = [] then t.makeCopy (.form []) else t.makeCopy (.file filename 0 false [])

/-- Enter the content that the headers announce. -/
def enterAnnounced (t : MpTree) : MpTree :=
  let ct := t.get (bytes "Content-Type")
  let cd := t.get (bytes "Content-Disposition")
  match mpSubType ct with
  | some ty => enterSubcontent trim t ty ct cd
  | none => enterContent trim t (if ct = [] then defaultMimeType else ct) cd

/-- After its headers a subcontent has headers again, other contents are read to their end. -/
def stageOf : MpKind → MpStage
  | .subcontent .. => .headers
  | _ => .content

/-- `_mp_assign_content_type`, and the stage it leads to. -/
def mpAssignContentType (t : MpTree) : MpTree × MpStage :=
  let t := enterAnnounced trim t
  let t := t.addContent t.currentNode.parent t.current
  (t, stageOf t.currentNode.kind)

end Assign

/-- `_mp_parse_end_of_section`, and whether the section has ended. The line is compared as a C
    string. -/
def mpParseEndOfSection (p : MpParse) (line : Bytes) : MpParse × Bool :=
  let starts := (p.tree.boundaries p.tree.currentNode.parent).1 = cstr line
  let p := if starts then
      { p with tree := p.tree.makeUnset p.tree.currentNode.parent, stage := .headers }
    else p
  let ends := (p.tree.boundaries p.tree.currentNode.parent).2 = cstr line
  let p := if ends then
      let spa := p.tree.currentNode.parent
      let tree := if spa = 0 then { p.tree with current := 0, headers := .empty _ _ }
        else p.tree.makeUnset (p.tree.nodes spa).parent
      { p with tree := tree, stage := .headers }
    else p
  let ended := decide (starts ∨ ends)
  ({ p with completed := p.completed || (ended && p.tree.current == 0) }, ended)

/-- What is still to be written before the next line: the line end held back. -/
def heldBack (appendCrlf : Bool) : Bytes := if appendCrlf then crlf else []

/-- A line of a form field or a file. -/
def mpContentLine (p : MpParse) (line : Bytes) : MpParse :=
  match p.tree.currentNode.kind with
  | .form value =>
    let (p', ended) := mpParseEndOfSection p line
    if ended then p'
    else { p' with tree := p'.tree.modifyCurrent fun n =>
      { n with kind := .form (value ++ cstr line) } }
  | .file filename size appendCrlf written =>
    let (p', ended) := mpParseEndOfSection p line
    if ended then p'
    else { p' with tree := p'.tree.modifyCurrent fun n =>
      { n with kind := .file filename size true (written ++ heldBack appendCrlf ++ line) } }
  | _ => p.fail .invalidType

/-- One turn of the loop of `parse_form_multip`, on a line. -/
def mpLine (trim : Bytes → Bytes) (p : MpParse) (line : Bytes) : MpParse :=
  match p.stage with
  | .init =>
    if (p.tree.boundaries p.tree.currentNode.parent).1 = cstr line then
      { p with tree := p.tree.makeUnset p.tree.currentNode.parent, stage := .headers }
    else p.fail .noBoundary
  | .headers =>
    if line = [] then
      { p with tree := (mpAssignContentType trim p.tree).1,
               stage := (mpAssignContentType trim p.tree).2 }
    else mpHeaderLine p (cstr line)
  | .content => mpContentLine p line
  | .failed => p

/-! ## Calls -/

/-- The loop stops at the end of the body and at an error. -/
def mpReader (trim : Bytes → Bytes) : LineReader MpParse where
  line := mpLine trim
  halted p := p.completed || p.stage == .failed

def maxContentBufLen : Nat := 10240

/-- What the loop does when no line end is left in the buffer: in a file, a long unfinished line is
    written out. -/
def mpNoLine (p : MpParse) (buf : Bytes) : MpParse × Bytes :=
  if p.completed ∨ p.stage ≠ .content then (p, buf)
  else match p.tree.currentNode.kind with
    | .file filename size appendCrlf written =>
      if maxContentBufLen ≤ buf.length then
        ({ p with tree := p.tree.modifyCurrent fun n =>
          { n with kind := .file filename size false (written ++ heldBack appendCrlf ++ buf) } }, [])
      else (p, buf)
    | .form _ => (p, buf)
    | _ => (p.fail .invalidType, buf)

/-- The loop of `parse_form_multip`, on what is in the buffer. -/
def mpLoop (trim : Bytes → Bytes) (p : MpParse) (buf : Bytes) : MpParse × Bytes :=
  let r := (mpReader trim).feed p buf
  mpNoLine r.1 r.2

/-- A call of `parse_form_multip`: the parser and its buffer after it. -/
def mpCall (trim : Bytes → Bytes) (p : MpParse × Bytes) (data : Bytes) : MpParse × Bytes :=
  if p.1.stage = .failed then p else mpLoop trim p.1 (p.2 ++ data)

/-- Calls of `parse_form_multip`, one after the other, until the body is complete. -/
def mpCalls (trim : Bytes → Bytes) (p : MpParse × Bytes) : List Bytes → MpParse × Bytes
  | [] => p
  | d :: ds => if p.1.completed then p else mpCalls trim (mpCall trim p d) ds

/-- The nodes of `_mp_root->contents`. -/
def MpTree.rootContents (t : MpTree) : List MpNode :=
  match (t.nodes 0).kind with
  | .subcontent _ _ _ cs => cs.map t.nodes
  | _ => []

/-! ## The request's parameters -/

/-- `http_file`, without the path of its temporary file. -/
structure HttpFile where
  name : Bytes
  filename : Bytes
  mimeType : Bytes
  size : Nat
  deriving DecidableEq, Repr

/-- What `_load_multipart_params` adds to a request. -/
structure MpParams where
  bodyParams : List (Bytes × Bytes)
  files : List HttpFile
  deriving DecidableEq, Repr

/-- The parameters of one node, given those of the subcontents. -/
def nodeParams (sub : List Nat → MpParams) (n : MpNode) : MpParams :=
  match n.kind with
  | .form value => ⟨[(n.name, value)], []⟩
  | .file filename size _ _ => ⟨[], [⟨n.name, filename, n.mimeType, size⟩]⟩
  | .subcontent _ _ _ cs => sub cs
  | .unset => ⟨[], []⟩

/-- `request_t::_load_multipart_params` on the contents of a node; the fuel is the depth of the
    tree. -/
def loadContents (t : MpTree) : Nat → List Nat → MpParams
  | 0, _ => ⟨[], []⟩
  | fuel + 1, ids =>
    let ps := ids.map fun id => nodeParams (loadContents t fuel) (t.nodes id)
    ⟨ps.flatMap MpParams.bodyParams, ps.flatMap MpParams.files⟩

/-- `request_t::_load_multipart_params` on the root. -/
def loadMultipartParams (t : MpTree) : MpParams := nodeParams (loadContents t t.next) (t.nodes 0)

end LibEvmvc
