import LibEvmvc.Multipart.Parser

set_option autoImplicit false

/-! # An upload as a list of parts

What the multipart parser is for: it reads the parts of an upload, one after the other. `Upload` is a
reader of lines that keeps the parts in a list and works on the last of them. The parser with its
tree of nodes shows the same parts (`Shows`): every node it makes is a child of the root, and a
subcontent never gets contents of its own. -/

namespace LibEvmvc

/-- A part of an upload. -/
structure Part where
  name : Bytes
  mimeType : Bytes
  kind : MpKind
  deriving DecidableEq, Repr

/-- The node of a part. -/
def Part.node (p : Part) : MpNode :=
  { parent := 0, name := p.name, mimeType := p.mimeType, kind := p.kind }

/-- The parts read so far; in the content the last one is being read. -/
structure Upload where
  parts : List Part
  headers : HeaderMap
  stage : MpStage
  completed : Bool
  error : Option MpError

namespace Upload

def fresh : Upload :=
  { parts := [], headers := .empty _ _, stage := .init, completed := false, error := none }

def fail (u : Upload) (e : MpError) : Upload := { u with stage := .failed, error := some e }

/-- The value of a header, empty if there is none. -/
def header (hdrs : HeaderMap) (name : Bytes) : Bytes := (hdrs.getFirst name).getD []

/-- The part its headers announce, for an upload with boundary `b`. -/
def announced (trim : Bytes → Bytes) (b : Bytes) (hdrs : HeaderMap) : Part :=
  let ct := header hdrs (bytes "Content-Type")
  let cd := header hdrs (bytes "Content-Disposition")
  let name := getHeaderAttribute trim cd (bytes "name")
  match mpSubType ct with
  | some ty =>
    let bs := if mpBoundary trim ct = [] then setBoundary b else setBoundary (mpBoundary trim ct)
    ⟨name, [], .subcontent ty bs.1 bs.2 []⟩
  | none =>
    let filename := getHeaderAttribute trim cd (bytes "filename")
    ⟨name, trim (if ct = [] then defaultMimeType else ct),
      if filename = [] then .form [] else .file filename 0 false []⟩

/-- The headers of a part are over. -/
def openPart (trim : Bytes → Bytes) (b : Bytes) (u : Upload) : Upload :=
  { u with
    parts := u.parts ++ [announced trim b u.headers]
    stage := stageOf (announced trim b u.headers).kind }

/-- A boundary line: the headers of the next part begin. -/
def nextPart (u : Upload) : Upload := { u with headers := .empty _ _, stage := .headers }

/-- The last boundary line. -/
def close (u : Upload) : Upload := { u.nextPart with completed := true }

/-- Change the last part. -/
def setLast (u : Upload) (kind : MpKind) : Upload :=
  { u with parts := u.parts.dropLast ++ u.parts.getLast?.toList.map fun p => { p with kind := kind } }

/-- A header line. -/
def headerLine (u : Upload) (hdr : Bytes) : Upload :=
  if 58 ∈ hdr then
    { u with headers :=
      u.headers.set (hdr.takeWhile (· ≠ 58)) ((hdr.dropWhile (· ≠ 58)).drop 1) false }
  else u.fail .badHeader

/-- The kind of the part being read after one of its lines. -/
def addLine (line : Bytes) : MpKind → Option MpKind
  | .form value => some (.form (value ++ cstr line))
  | .file filename size appendCrlf written =>
    some (.file filename size true (written ++ heldBack appendCrlf ++ line))
  | _ => none

/-- The kind of the part being read, if its content is being read. -/
def lastKind (u : Upload) : MpKind := (u.parts.getLast?.map Part.kind).getD .unset

/-- A line of a part. -/
def contentLine (b : Bytes) (u : Upload) (line : Bytes) : Upload :=
  match addLine line u.lastKind with
  | none => u.fail .invalidType
  | some kind =>
    if (setBoundary b).1 = cstr line then u.nextPart
    else if (setBoundary b).2 = cstr line then u.close
    else u.setLast kind

/-- A line of the upload. -/
def line (trim : Bytes → Bytes) (b : Bytes) (u : Upload) (l : Bytes) : Upload :=
  match u.stage with
  | .init => if (setBoundary b).1 = cstr l then u.nextPart else u.fail .noBoundary
  | .headers => if l = [] then u.openPart trim b else u.headerLine (cstr l)
  | .content => u.contentLine b l
  | .failed => u

/-- The reader of an upload. -/
def reader (trim : Bytes → Bytes) (b : Bytes) : LineReader Upload where
  line := line trim b
  halted u := u.completed || u.stage == .failed

/-- No line end is left in the buffer. -/
def noLine (u : Upload) (buf : Bytes) : Upload × Bytes :=
  if u.completed ∨ u.stage ≠ .content then (u, buf)
  else match u.lastKind with
    | .file filename size appendCrlf written =>
      if maxContentBufLen ≤ buf.length then
        (u.setLast (.file filename size false (written ++ heldBack appendCrlf ++ buf)), [])
      else (u, buf)
    | .form _ => (u, buf)
    | _ => (u.fail .invalidType, buf)

/-- A call with more data. -/
def call (trim : Bytes → Bytes) (b : Bytes) (u : Upload × Bytes) (data : Bytes) : Upload × Bytes :=
  if u.1.stage = .failed then u
  else
    let r := (reader trim b).feed u.1 (u.2 ++ data)
    r.1.noLine r.2

/-- Calls one after the other, until the upload is complete. -/
def calls (trim : Bytes → Bytes) (b : Bytes) (u : Upload × Bytes) : List Bytes → Upload × Bytes
  | [] => u
  | d :: ds => if u.1.completed then u else calls trim b (call trim b u d) ds

end Upload

/-! ## Trees that show a list of parts -/

/-- The root of the tree has the given parts as its contents, at the given nodes. -/
structure TreeShows (b : Bytes) (ids : List Nat) (t : MpTree) (parts : List Part) : Prop where
  rootParent : (t.nodes 0).parent = 0
  rootKind : (t.nodes 0).kind = .subcontent .root (setBoundary b).1 (setBoundary b).2 ids
  pos : 0 < t.next
  bound : ∀ i ∈ ids, 0 < i ∧ i < t.next
  nodup : ids.Nodup
  nodes : ids.map t.nodes = parts.map Part.node

namespace TreeShows

variable {b : Bytes} {ids : List Nat} {t : MpTree} {parts : List Part}

theorem boundaries (h : TreeShows b ids t parts) : t.boundaries 0 = setBoundary b := by
  unfold MpTree.boundaries
  rw [h.rootKind]

/-- A tree that differs only in nodes that are not shown shows the same. -/
theorem of_nodes (h : TreeShows b ids t parts) {t' : MpTree} (hnext : t.next ≤ t'.next)
    (hroot : t'.nodes 0 = t.nodes 0) (hids : ∀ i ∈ ids, t'.nodes i = t.nodes i) :
    TreeShows b ids t' parts where
  rootParent := by rw [hroot]; exact h.rootParent
  rootKind := by rw [hroot]; exact h.rootKind
  pos := Nat.lt_of_lt_of_le h.pos hnext
  bound i hi := ⟨(h.bound i hi).1, Nat.lt_of_lt_of_le (h.bound i hi).2 hnext⟩
  nodup := h.nodup
  nodes := by rw [← h.nodes]; exact List.map_congr_left hids

theorem nodes_make (t : MpTree) (n : MpNode) {i : Nat} (hi : i < t.next) :
    (t.make n).nodes i = t.nodes i :=
  Function.update_of_ne (Nat.ne_of_lt hi) _ _

theorem make (h : TreeShows b ids t parts) (n : MpNode) : TreeShows b ids (t.make n) parts :=
  h.of_nodes (Nat.le_succ _) (nodes_make t n h.pos) fun i hi => nodes_make t n (h.bound i hi).2

theorem makeUnset (h : TreeShows b ids t parts) (k : Nat) :
    TreeShows b ids (t.makeUnset k) parts := by
  have hmake := h.make { parent := k }
  exact ⟨hmake.rootParent, hmake.rootKind, hmake.pos, hmake.bound, hmake.nodup, hmake.nodes⟩

/-- A change of the current node is not seen unless it is one of the parts. -/
theorem modifyFresh (h : TreeShows b ids t parts) (f : MpNode → MpNode) (hpos : 0 < t.current)
    (hfresh : t.current ∉ ids) : TreeShows b ids (t.modifyCurrent f) parts := by
  refine h.of_nodes (Nat.le_refl _) ?_ fun i hi => ?_
  · exact Function.update_of_ne (Nat.ne_of_lt hpos) _ _
  · have hne : i ≠ t.current := by
      rintro rfl
      exact hfresh hi
    exact Function.update_of_ne hne _ _

/-- The current node becomes the last part. -/
theorem addContent (h : TreeShows b ids t parts) {c : Nat} (hpos : 0 < c) (hnext : c < t.next)
    (hfresh : c ∉ ids) {part : Part} (hnode : t.nodes c = part.node) :
    TreeShows b (ids ++ [c]) (t.addContent 0 c) (parts ++ [part]) := by
  let root : MpNode :=
    { t.nodes 0 with kind := .subcontent .root (setBoundary b).1 (setBoundary b).2 (ids ++ [c]) }
  have hadd : t.addContent 0 c = { t with nodes := Function.update t.nodes 0 root } := by
    unfold MpTree.addContent
    rw [h.rootKind]
  have hother : ∀ i, 0 < i → (t.addContent 0 c).nodes i = t.nodes i := by
    intro i hi
    rw [hadd]
    exact Function.update_of_ne (Nat.ne_of_gt hi) _ _
  have hrootNode : (t.addContent 0 c).nodes 0 = root := by
    rw [hadd]
    exact Function.update_self 0 root t.nodes
  have hnext' : (t.addContent 0 c).next = t.next := by rw [hadd]
  refine ⟨?_, ?_, ?_, ?_, ?_, ?_⟩
  · rw [hrootNode]
    exact h.rootParent
  · rw [hrootNode]
  · rw [hnext']
    exact h.pos
  · intro i hi
    rw [hnext']
    rcases List.mem_append.1 hi with hi | hi
    · exact h.bound i hi
    · rw [List.mem_singleton.1 hi]
      exact ⟨hpos, hnext⟩
  · rw [List.nodup_append]
    refine ⟨h.nodup, by simp, ?_⟩
    rintro i hi j hj rfl
    exact hfresh (List.mem_singleton.1 hj ▸ hi)
  · rw [List.map_append, List.map_append, ← h.nodes, List.map_singleton, List.map_singleton,
      hother c hpos, hnode]
    congr 1
    exact List.map_congr_left fun i hi => hother i (h.bound i hi).1

/-- A change of the last part. -/
theorem modifyLast (h : TreeShows b ids t parts) (hlast : ids.getLast? = some t.current)
    (kind : MpKind) : ∃ ps q, parts = ps ++ [q] ∧ t.currentNode = q.node ∧
      TreeShows b ids (t.modifyCurrent fun n => { n with kind := kind })
        (ps ++ [{ q with kind := kind }]) := by
  obtain ⟨is, rfl⟩ := List.getLast?_eq_some_iff.1 hlast
  have hparts : parts ≠ [] := by
    rintro rfl
    have hlen := congrArg List.length h.nodes
    simp at hlen
  obtain ⟨ps, q, rfl⟩ := (List.eq_nil_or_concat' parts).resolve_left hparts
  have hnodes := h.nodes
  rw [List.map_append, List.map_append, List.map_singleton, List.map_singleton] at hnodes
  obtain ⟨hinit, hq⟩ := List.append_inj' hnodes rfl
  have hq : t.currentNode = q.node := (List.cons.inj hq).1
  have hcur := h.bound t.current (by simp)
  have hnot : t.current ∉ is := by
    have hnodup := h.nodup
    rw [List.nodup_append] at hnodup
    exact fun hmem => hnodup.2.2 _ hmem _ (by simp) rfl
  have hother : ∀ i, i ≠ t.current →
      (t.modifyCurrent fun n => { n with kind := kind }).nodes i = t.nodes i := fun i hi =>
    Function.update_of_ne hi _ _
  have hself : (t.modifyCurrent fun n => { n with kind := kind }).nodes t.current
      = { t.currentNode with kind := kind } := Function.update_self _ _ _
  have hroot := hother 0 (Nat.ne_of_lt hcur.1)
  refine ⟨ps, q, rfl, hq, ?_, ?_, h.pos, h.bound, h.nodup, ?_⟩
  · rw [hroot]
    exact h.rootParent
  · rw [hroot]
    exact h.rootKind
  · rw [List.map_append, List.map_append, List.map_singleton, List.map_singleton, hself, hq,
      ← hinit]
    congr 1
    exact List.map_congr_left fun i hi => hother i fun he => hnot (he ▸ hi)

end TreeShows

/-! ## The parser shows an upload -/

/-- Where `_mp_current` points. Between two parts it is a node that is not in the tree; in the headers
    after a subcontent it is the subcontent itself, whose content type is still there. -/
def Cursor (ids : List Nat) (t : MpTree) (u : Upload) : Prop :=
  match u.stage with
  | .init => t.current = 0
  | .headers =>
    (t.current ∉ ids ∧ 0 < t.current ∧ t.current < t.next ∧ t.currentNode.parent = 0) ∨
      (ids.getLast? = some t.current ∧
        (mpSubType (Upload.header u.headers (bytes "Content-Type"))).isSome)
  | .content => ids.getLast? = some t.current
  | .failed => True

/-- The parser shows an upload: the same parts, and the same place in the input. -/
structure Shows (b : Bytes) (p : MpParse) (u : Upload) : Prop where
  tree : ∃ ids, TreeShows b ids p.tree u.parts ∧ (u.completed = false → Cursor ids p.tree u)
  headers : p.tree.headers = u.headers
  stage : p.stage = u.stage
  completed : p.completed = u.completed
  error : p.error = u.error

theorem shows_init (b : Bytes) : Shows b (initMultip b) .fresh where
  tree := ⟨[], ⟨rfl, rfl, Nat.one_pos, by simp, List.nodup_nil, rfl⟩, fun _ => rfl⟩
  headers := rfl
  stage := rfl
  completed := rfl
  error := rfl

section Simulation

variable {b : Bytes} {trim : Bytes → Bytes} {p : MpParse} {u : Upload}

theorem Shows.fail (h : Shows b p u) (e : MpError) : Shows b (p.fail e) (u.fail e) where
  tree := by
    obtain ⟨ids, htree, -⟩ := h.tree
    exact ⟨ids, htree, fun _ => trivial⟩
  headers := h.headers
  stage := rfl
  completed := h.completed
  error := rfl

/-- A new part begins. -/
theorem Shows.makeUnset (h : Shows b p u) :
    Shows b { p with tree := p.tree.makeUnset 0, stage := .headers } u.nextPart where
  tree := by
    obtain ⟨ids, htree, -⟩ := h.tree
    refine ⟨ids, htree.makeUnset 0, fun _ => .inl ⟨?_, htree.pos, Nat.lt_succ_self _, ?_⟩⟩
    · exact fun hmem => Nat.lt_irrefl _ (htree.bound _ hmem).2
    · rw [MpTree.currentNode_makeUnset]
  headers := rfl
  stage := rfl
  completed := h.completed
  error := h.error

theorem getFirst_set_false {m : HeaderMap} {name val key v : Bytes} (h : m.getFirst key = some v) :
    (m.set name val false).getFirst key = some v := by
  have hfirst : ∀ m : HeaderMap, m.getFirst key = (m.values key).head? := by
    intro m
    unfold HeaderMap.getFirst HeaderMap.values
    cases m.get? key <;> rfl
  rw [hfirst] at h ⊢
  rw [HeaderMap.values_set]
  split
  · rw [List.head?_append, h]
    rfl
  · exact h

/-- The first value of a header stays when more headers come. -/
theorem header_set_false {m : HeaderMap} {name val key : Bytes}
    (h : (mpSubType (Upload.header m key)).isSome) :
    (mpSubType (Upload.header (m.set name val false) key)).isSome := by
  unfold Upload.header at h ⊢
  cases hkey : m.getFirst key with
  | none =>
    rw [hkey] at h
    exact absurd h (by decide)
  | some v =>
    rw [getFirst_set_false hkey]
    rw [hkey] at h
    exact h

/-- A header line. -/
theorem Shows.headerLine (h : Shows b p u) (hopen : u.completed = false)
    (hstage : u.stage = .headers) (hdr : Bytes) :
    Shows b (mpHeaderLine p hdr) (u.headerLine hdr) := by
  unfold mpHeaderLine mpParseBoundaryHeader Upload.headerLine
  by_cases hcolon : 58 ∈ hdr
  · rw [if_pos hcolon, if_pos hcolon]
    obtain ⟨ids, htree, hcursor⟩ := h.tree
    have hcursor := hcursor hopen
    unfold Cursor at hcursor
    rw [hstage] at hcursor
    refine ⟨⟨ids, htree.of_nodes (Nat.le_refl _) rfl fun _ _ => rfl, fun _ => ?_⟩, ?_, h.stage,
      h.completed, h.error⟩
    · unfold Cursor
      simp only [hstage]
      rcases hcursor with hfresh | ⟨hlast, hsub⟩
      · exact .inl hfresh
      · exact .inr ⟨hlast, header_set_false hsub⟩
    · rw [← h.headers]
  · rw [if_neg hcolon, if_neg hcolon]
    exact h.fail _

/-- The current node, made just now, is added to the root. -/
theorem TreeShows.enter {ids : List Nat} {t : MpTree} {parts : List Part}
    (h : TreeShows b ids t parts) (hpos : 0 < t.current) (hnext : t.current < t.next)
    (hfresh : t.current ∉ ids) {part : Part} (hnode : t.currentNode = part.node) :
    TreeShows b (ids ++ [t.current]) (t.addContent t.currentNode.parent t.current)
        (parts ++ [part]) ∧
      (t.addContent t.currentNode.parent t.current).current = t.current ∧
      (t.addContent t.currentNode.parent t.current).headers = t.headers ∧
      (t.addContent t.currentNode.parent t.current).currentNode.kind = part.kind := by
  have hparent : t.currentNode.parent = 0 := by rw [hnode]; rfl
  rw [hparent]
  have hfields : (t.addContent 0 t.current).current = t.current ∧
      (t.addContent 0 t.current).headers = t.headers := by
    unfold MpTree.addContent
    split <;> exact ⟨rfl, rfl⟩
  have hkeep : (t.addContent 0 t.current).currentNode = t.currentNode := by
    unfold MpTree.currentNode
    rw [hfields.1]
    unfold MpTree.addContent
    rw [h.rootKind]
    exact Function.update_of_ne (Nat.ne_of_gt hpos) _ _
  refine ⟨h.addContent hpos hnext hfresh hnode, hfields.1, hfields.2, ?_⟩
  rw [hkeep, hnode]
  rfl

/-- The headers of a part are over: the node they announce is made. -/
theorem TreeShows.enterAnnounced (trim : Bytes → Bytes) {ids : List Nat} {t : MpTree} {parts : List Part}
    (h : TreeShows b ids t parts) (hparent : t.currentNode.parent = 0)
    (hcursor : (t.current ∉ ids ∧ 0 < t.current) ∨
      (mpSubType (t.get (bytes "Content-Type"))).isSome) :
    TreeShows b ids (enterAnnounced trim t) parts ∧
      (enterAnnounced trim t).headers = t.headers ∧
      (enterAnnounced trim t).current = t.next ∧
      (enterAnnounced trim t).next = t.next + 1 ∧
      (enterAnnounced trim t).currentNode = (Upload.announced trim b t.headers).node := by
  have hfreshNext : t.next ∉ ids := fun hmem => Nat.lt_irrefl _ (h.bound _ hmem).2
  have hget : ∀ name, t.get name = Upload.header t.headers name := fun _ => rfl
  unfold LibEvmvc.enterAnnounced Upload.announced
  simp only [hget] at hcursor ⊢
  cases hsub : mpSubType (Upload.header t.headers (bytes "Content-Type")) with
  | some ty =>
    have hbs : subBoundaries trim t (Upload.header t.headers (bytes "Content-Type"))
        = if mpBoundary trim (Upload.header t.headers (bytes "Content-Type")) = [] then setBoundary b
          else setBoundary (mpBoundary trim (Upload.header t.headers (bytes "Content-Type"))) := by
      unfold subBoundaries
      rw [hparent, h.boundaries]
    simp only [enterSubcontent, hbs]
    refine ⟨(h.make _).modifyFresh _ h.pos hfreshNext, rfl, rfl, rfl, ?_⟩
    rw [MpTree.currentNode_modifyCurrent, MpTree.currentNode_makeCopy, hparent]
    rfl
  | none =>
    have hfresh : t.current ∉ ids ∧ 0 < t.current := by
      rcases hcursor with hfresh | hsome
      · exact hfresh
      · rw [hsub] at hsome
        cases hsome
    simp only [enterContent]
    split
    · refine ⟨(h.modifyFresh _ hfresh.2 hfresh.1).make _, rfl, rfl, rfl, ?_⟩
      rw [MpTree.currentNode_makeCopy, MpTree.currentNode_modifyCurrent, hparent]
      rfl
    · refine ⟨(h.modifyFresh _ hfresh.2 hfresh.1).make _, rfl, rfl, rfl, ?_⟩
      rw [MpTree.currentNode_makeCopy, MpTree.currentNode_modifyCurrent, hparent]
      rfl

/-- Only a multipart content type announces a subcontent. -/
theorem stageOf_announced (trim : Bytes → Bytes) (b : Bytes) (hdrs : HeaderMap) :
    (stageOf (Upload.announced trim b hdrs).kind = .headers ∧
        (mpSubType (Upload.header hdrs (bytes "Content-Type"))).isSome) ∨
      stageOf (Upload.announced trim b hdrs).kind = .content := by
  unfold Upload.announced
  simp only
  split
  · next ty hty => exact .inl ⟨rfl, by rw [hty]; rfl⟩
  · refine .inr ?_
    simp only
    split <;> rfl

/-- The blank line after the headers. -/
theorem Shows.assign (h : Shows b p u) (hopen : u.completed = false) (hstage : u.stage = .headers) :
    Shows b { p with tree := (mpAssignContentType trim p.tree).1,
                     stage := (mpAssignContentType trim p.tree).2 } (u.openPart trim b) := by
  obtain ⟨ids, htree, hcursor⟩ := h.tree
  have hcursor := hcursor hopen
  unfold Cursor at hcursor
  rw [hstage] at hcursor
  have hparent : p.tree.currentNode.parent = 0 := by
    rcases hcursor with hfresh | ⟨hlast, -⟩
    · exact hfresh.2.2.2
    · obtain ⟨ps, q, -, hq, -⟩ := htree.modifyLast hlast .unset
      rw [hq]
      rfl
  have hwhere : (p.tree.current ∉ ids ∧ 0 < p.tree.current) ∨
      (mpSubType (p.tree.get (bytes "Content-Type"))).isSome := by
    rcases hcursor with hfresh | ⟨-, hsub⟩
    · exact .inl ⟨hfresh.1, hfresh.2.1⟩
    · refine .inr ?_
      unfold MpTree.get
      rw [h.headers]
      exact hsub
  obtain ⟨htree', hheaders, hcurrent, hnext, hnode⟩ :=
    htree.enterAnnounced trim hparent hwhere
  have hfresh : (enterAnnounced trim p.tree).current ∉ ids := by
    rw [hcurrent]
    exact fun hmem => Nat.lt_irrefl _ (htree.bound _ hmem).2
  have hbound : (enterAnnounced trim p.tree).current < (enterAnnounced trim p.tree).next := by
    rw [hcurrent, hnext]
    exact Nat.lt_succ_self _
  obtain ⟨hadded, hcur, hhdrs, hkind⟩ := htree'.enter (by rw [hcurrent]; exact htree.pos) hbound
    hfresh hnode
  rw [h.headers] at hadded hkind
  refine ⟨⟨_, hadded, fun _ => ?_⟩, hhdrs.trans (hheaders.trans h.headers), ?_, h.completed, h.error⟩
  · have hlast : (ids ++ [(enterAnnounced trim p.tree).current]).getLast?
        = some (mpAssignContentType trim p.tree).1.current := by
      rw [List.getLast?_concat]
      exact congrArg some hcur.symm
    unfold Cursor Upload.openPart
    rcases stageOf_announced trim b u.headers with ⟨hst, hsub⟩ | hst
    · simp only [hst]
      exact .inr ⟨hlast, hsub⟩
    · simp only [hst]
      exact hlast
  · exact congrArg stageOf hkind

theorem setBoundary_ne (b : Bytes) : (setBoundary b).1 ≠ (setBoundary b).2 := by
  intro h
  have hlen := congrArg List.length h
  simp only [setBoundary, List.length_append] at hlen
  have htwo : (bytes "--").length = 2 := rfl
  omega

theorem getLast?_map_kind {parts ps : List Part} {q : Part} (h : parts = ps ++ [q]) :
    (parts.getLast?.map Part.kind).getD .unset = q.kind := by
  rw [h, List.getLast?_concat]
  rfl

/-- In a content, the last part is the current node. -/
theorem Shows.lastKind (h : Shows b p u) (hopen : u.completed = false) (hstage : u.stage = .content) :
    p.tree.currentNode.kind = u.lastKind ∧ p.tree.currentNode.parent = 0 := by
  obtain ⟨ids, htree, hcursor⟩ := h.tree
  have hcursor := hcursor hopen
  unfold Cursor at hcursor
  rw [hstage] at hcursor
  obtain ⟨ps, q, hparts, hq, -⟩ := htree.modifyLast hcursor .unset
  unfold Upload.lastKind
  rw [getLast?_map_kind hparts, hq]
  exact ⟨rfl, rfl⟩

/-- The content of the last part changes. -/
theorem Shows.setLast (h : Shows b p u) (hopen : u.completed = false) (hstage : u.stage = .content)
    (kind : MpKind) :
    Shows b { p with tree := p.tree.modifyCurrent fun n => { n with kind := kind } }
      (u.setLast kind) := by
  obtain ⟨ids, htree, hcursor⟩ := h.tree
  have hcursor := hcursor hopen
  unfold Cursor at hcursor
  rw [hstage] at hcursor
  obtain ⟨ps, q, hparts, -, hnew⟩ := htree.modifyLast hcursor kind
  have hset : (u.setLast kind).parts = ps ++ [{ q with kind := kind }] := by
    unfold Upload.setLast
    simp [hparts]
  refine ⟨⟨ids, hset ▸ hnew, fun _ => ?_⟩, h.headers, h.stage, h.completed, h.error⟩
  unfold Cursor Upload.setLast
  simp only [hstage]
  exact hcursor

/-- A boundary line, seen from the root. -/
theorem mpParseEndOfSection_eq (h : Shows b p u) (hparent : p.tree.currentNode.parent = 0)
    (line : Bytes) :
    mpParseEndOfSection p line
      = if (setBoundary b).1 = cstr line then
          ({ p with tree := p.tree.makeUnset 0, stage := .headers }, true)
        else if (setBoundary b).2 = cstr line then
          ({ p with tree := { p.tree with current := 0, headers := .empty _ _ }, stage := .headers,
                    completed := true }, true)
        else (p, false) := by
  obtain ⟨ids, htree, -⟩ := h.tree
  have hbs := htree.boundaries
  have hbs' := (htree.makeUnset 0).boundaries
  have hne := setBoundary_ne b
  unfold mpParseEndOfSection
  by_cases hstart : (setBoundary b).1 = cstr line
  · have hend : ¬ (setBoundary b).2 = cstr line := fun he => hne (hstart.trans he.symm)
    have hnext : (p.tree.next == 0) = false := beq_false_of_ne (Nat.ne_of_gt htree.pos)
    have hcurrent : (p.tree.makeUnset 0).current = p.tree.next := rfl
    simp [hparent, hbs, hbs', hstart, hend, hcurrent, hnext]
  · by_cases hend : (setBoundary b).2 = cstr line
    · simp [hparent, hbs, hstart, hend]
    · simp [hparent, hbs, hstart, hend]

/-- The last boundary line. -/
theorem Shows.close (h : Shows b p u) :
    Shows b { p with tree := { p.tree with current := 0, headers := .empty _ _ }, stage := .headers,
                     completed := true } u.close where
  tree := by
    obtain ⟨ids, htree, -⟩ := h.tree
    exact ⟨ids, htree.of_nodes (Nat.le_refl _) rfl fun _ _ => rfl, fun hopen => absurd hopen nofun⟩
  headers := rfl
  stage := rfl
  completed := rfl
  error := h.error

/-- A line of a content: a boundary, or one more line of the last part. -/
theorem Shows.sectionLine (h : Shows b p u) (hopen : u.completed = false)
    (hstage : u.stage = .content) (line : Bytes) (kind : MpKind) :
    Shows b
      (if (mpParseEndOfSection p line).2 then (mpParseEndOfSection p line).1
        else { (mpParseEndOfSection p line).1 with
          tree := (mpParseEndOfSection p line).1.tree.modifyCurrent fun n => { n with kind := kind } })
      (if (setBoundary b).1 = cstr line then u.nextPart
        else if (setBoundary b).2 = cstr line then u.close else u.setLast kind) := by
  rw [mpParseEndOfSection_eq h (h.lastKind hopen hstage).2]
  split
  · exact h.makeUnset
  · split
    · exact h.close
    · exact h.setLast hopen hstage kind

theorem Shows.contentLine (h : Shows b p u) (hopen : u.completed = false)
    (hstage : u.stage = .content) (line : Bytes) :
    Shows b (mpContentLine p line) (u.contentLine b line) := by
  have hkind := (h.lastKind hopen hstage).1
  unfold mpContentLine Upload.contentLine
  rw [hkind]
  cases u.lastKind with
  | unset => exact h.fail _
  | form value => exact h.sectionLine hopen hstage line _
  | file filename size appendCrlf written => exact h.sectionLine hopen hstage line _
  | subcontent ty s e cs => exact h.fail _

/-- **A line does to the parser what it does to the upload it shows.** -/
theorem Shows.line (h : Shows b p u) (hopen : u.completed = false) (l : Bytes) :
    Shows b (mpLine trim p l) (u.line trim b l) := by
  obtain ⟨ids, htree, hcursor⟩ := h.tree
  have hcursor := hcursor hopen
  unfold Cursor at hcursor
  unfold mpLine Upload.line
  rw [h.stage]
  cases hstage : u.stage with
  | init =>
    rw [hstage] at hcursor
    have hroot : p.tree.currentNode = p.tree.nodes 0 := congrArg p.tree.nodes hcursor
    have hparent : p.tree.currentNode.parent = 0 := by rw [hroot]; exact htree.rootParent
    simp only [hparent, htree.boundaries]
    split
    · exact h.makeUnset
    · exact h.fail _
  | headers =>
    simp only
    split
    · exact h.assign hopen hstage
    · exact h.headerLine hopen hstage _
  | content => exact h.contentLine hopen hstage l
  | failed => exact h

theorem Shows.noLine (h : Shows b p u) (buf : Bytes) :
    Shows b (mpNoLine p buf).1 (u.noLine buf).1 ∧ (mpNoLine p buf).2 = (u.noLine buf).2 := by
  unfold mpNoLine Upload.noLine
  by_cases hidle : u.completed = true ∨ u.stage ≠ .content
  · have hidle' : p.completed = true ∨ p.stage ≠ .content := by
      rw [h.completed, h.stage]
      exact hidle
    rw [if_pos hidle, if_pos hidle']
    exact ⟨h, rfl⟩
  · have hidle' : ¬ (p.completed = true ∨ p.stage ≠ .content) := by
      rw [h.completed, h.stage]
      exact hidle
    rw [if_neg hidle, if_neg hidle']
    rw [not_or, not_not, Bool.not_eq_true] at hidle
    rw [(h.lastKind hidle.1 hidle.2).1]
    cases u.lastKind with
    | unset => exact ⟨h.fail _, rfl⟩
    | form value => exact ⟨h, rfl⟩
    | file filename size appendCrlf written =>
      simp only
      split
      · exact ⟨h.setLast hidle.1 hidle.2 _, rfl⟩
      · exact ⟨h, rfl⟩
    | subcontent ty s e cs => exact ⟨h.fail _, rfl⟩

/-- Reading the lines of a buffer, side by side. -/
theorem Shows.feed (h : Shows b p u) (trim : Bytes → Bytes) (buf : Bytes) :
    Shows b ((mpReader trim).feed p buf).1 ((Upload.reader trim b).feed u buf).1 ∧
      ((mpReader trim).feed p buf).2 = ((Upload.reader trim b).feed u buf).2 := by
  unfold LineReader.feed
  generalize (splitCrlf buf).1 = ls
  generalize (splitCrlf buf).2 = tail
  induction ls generalizing p u with
  | nil => exact ⟨h, rfl⟩
  | cons l ls ih =>
    have hhalt : (mpReader trim).halted p = (Upload.reader trim b).halted u := by
      unfold mpReader Upload.reader
      simp only [h.completed, h.stage]
    rw [LineReader.runLines, LineReader.runLines, hhalt]
    split
    · exact ⟨h, rfl⟩
    · next hgo =>
      have hopen : u.completed = false := by
        unfold Upload.reader at hgo
        simp only [Bool.or_eq_true, not_or, Bool.not_eq_true] at hgo
        exact hgo.1
      exact ih (h.line hopen l)

theorem Shows.call (h : Shows b p u) (trim : Bytes → Bytes) (buf data : Bytes) :
    Shows b (mpCall trim (p, buf) data).1 (Upload.call trim b (u, buf) data).1 ∧
      (mpCall trim (p, buf) data).2 = (Upload.call trim b (u, buf) data).2 := by
  unfold mpCall Upload.call
  simp only [h.stage]
  split
  · exact ⟨h, rfl⟩
  · obtain ⟨hfeed, hbuf⟩ := h.feed trim (buf ++ data)
    have hno := hfeed.noLine ((Upload.reader trim b).feed u (buf ++ data)).2
    unfold mpLoop
    simp only [hbuf]
    exact hno

/-- **The parser refines the reader of uploads: after any calls it shows the same parts.** -/
theorem Shows.calls (h : Shows b p u) (trim : Bytes → Bytes) (buf : Bytes) (ds : List Bytes) :
    Shows b (mpCalls trim (p, buf) ds).1 (Upload.calls trim b (u, buf) ds).1 ∧
      (mpCalls trim (p, buf) ds).2 = (Upload.calls trim b (u, buf) ds).2 := by
  induction ds generalizing p u buf with
  | nil => exact ⟨h, rfl⟩
  | cons d ds ih =>
    rw [mpCalls, Upload.calls]
    simp only [h.completed]
    split
    · exact ⟨h, rfl⟩
    · obtain ⟨hcall, hbuf⟩ := h.call trim buf d
      have hupload : Upload.call trim b (u, buf) d
          = ((Upload.call trim b (u, buf) d).1, (mpCall trim (p, buf) d).2) := by rw [hbuf]
      rw [hupload]
      exact ih hcall (mpCall trim (p, buf) d).2

/-! ## What is read off the tree -/

theorem Shows.rootContents (h : Shows b p u) : p.tree.rootContents = u.parts.map Part.node := by
  obtain ⟨ids, htree, -⟩ := h.tree
  unfold MpTree.rootContents
  rw [htree.rootKind]
  exact htree.nodes

/-- A subcontent has no contents of its own. -/
def Part.Leaf (q : Part) : Prop := ∀ ty s e cs, q.kind = .subcontent ty s e cs → cs = []

theorem loadContents_nil (t : MpTree) (fuel : Nat) : loadContents t fuel [] = ⟨[], []⟩ := by
  cases fuel with
  | zero => rfl
  | succ fuel => rfl

/-- The parameters a part adds to the request. -/
def Part.params (q : Part) : MpParams := nodeParams (fun _ => ⟨[], []⟩) q.node

/-- The parameters of a part do not depend on other nodes. -/
theorem nodeParams_part (t : MpTree) (fuel : Nat) {q : Part} (hq : q.Leaf) :
    nodeParams (loadContents t fuel) q.node = q.params := by
  obtain ⟨name, mimeType, kind⟩ := q
  cases kind with
  | subcontent ty s e cs =>
    obtain rfl : cs = [] := hq ty s e cs rfl
    exact loadContents_nil t fuel
  | unset => rfl
  | form value => rfl
  | file filename size appendCrlf written => rfl

/-- **The parameters of the request are those of the parts, in order.** -/
theorem Shows.loadMultipartParams (h : Shows b p u) (hparts : ∀ q ∈ u.parts, q.Leaf) :
    loadMultipartParams p.tree = ⟨u.parts.flatMap fun q => q.params.bodyParams,
      u.parts.flatMap fun q => q.params.files⟩ := by
  obtain ⟨ids, htree, -⟩ := h.tree
  obtain ⟨fuel, hfuel⟩ := Nat.exists_eq_add_one.2 htree.pos
  have hparams : ids.map (fun id => nodeParams (loadContents p.tree fuel) (p.tree.nodes id))
      = u.parts.map Part.params := by
    have hnodes : ids.map (fun id => nodeParams (loadContents p.tree fuel) (p.tree.nodes id))
        = (ids.map p.tree.nodes).map (nodeParams (loadContents p.tree fuel)) := by
      rw [List.map_map]
      rfl
    rw [hnodes, htree.nodes, List.map_map]
    exact List.map_congr_left fun q hq => nodeParams_part _ _ (hparts q hq)
  unfold LibEvmvc.loadMultipartParams nodeParams
  rw [htree.rootKind, hfuel]
  simp only [loadContents, hparams, List.flatMap_map]

end Simulation

end LibEvmvc
