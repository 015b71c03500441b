import LibEvmvc.Http.Response

set_option autoImplicit false

/-! # Reading a response head back

Names and values reach the wire as they are: nothing between `headers().set`, `redirect` or a cookie
and `_prepare_headers` looks at their bytes. So a client that cuts the head at its line ends finds one
line for each stored value if, and only if, no value holds a line end. -/

namespace LibEvmvc

/-- A header name without colon, CR or LF. -/
def CleanName (name : Bytes) : Prop := ∀ c ∈ name, c ≠ 58 ∧ c ≠ 13 ∧ c ≠ 10

instance (name : Bytes) : Decidable (CleanName name) :=
  List.decidableBAll (fun c => c ≠ 58 ∧ c ≠ 13 ∧ c ≠ 10) name

/-- The header names an operation brings in are clean; its values may be anything. -/
def ResOp.NamesClean : ResOp → Prop
  | .setHeader name _ _ => CleanName name
  | _ => True

/-- Every name a response holds is clean. -/
structure Response.NamesClean (r : Response) : Prop where
  headers : r.headers.Names CleanName
  cookies : r.cookies.Names CleanName

/-- The bytes `_prepare_headers` writes after the status line. -/
def headAfterStatusLine (ctx : ReplyCtx) (s : ResState) : Bytes :=
  ((prepareHeaders ctx s).1.out.drop (s.out.length + 1)).flatMap Write.bytes

section Names

variable (ctx : ReplyCtx) {r : Response}

theorem Response.NamesClean.fresh : Response.fresh.NamesClean :=
  ⟨HeaderMap.names_empty, HeaderMap.names_empty⟩

theorem Response.NamesClean.set (h : r.NamesClean) {name : Bytes} (hname : CleanName name)
    (val : Bytes) (clear : Bool) :
    ({ r with headers := r.headers.set name val clear } : Response).NamesClean :=
  ⟨HeaderMap.names_set h.headers hname val clear, h.cookies⟩

theorem Response.NamesClean.setType (h : r.NamesClean) (t enc : Bytes) :
    (r.setType ctx t enc).NamesClean :=
  ⟨HeaderMap.names_set h.headers (by decide) _ _, h.cookies⟩

theorem Response.NamesClean.beforeSend (h : r.NamesClean) (body : Bytes) :
    (r.beforeSend ctx body).NamesClean := by
  unfold Response.beforeSend
  refine Response.NamesClean.set ?_ (by decide) _ _
  split
  · exact h.setType ctx _ _
  · exact h

theorem Response.NamesClean.setHeaders (h : r.NamesClean) {nvs : List (Bytes × Bytes)}
    (hnames : ∀ nv ∈ nvs, CleanName nv.1) : (r.setHeaders nvs).NamesClean := by
  refine ⟨?_, h.cookies⟩
  unfold Response.setHeaders
  refine List.foldlRecOn (motive := HeaderMap.Names CleanName) nvs _ h.headers fun m hm nv hnv => ?_
  exact HeaderMap.names_set hm (hnames nv hnv) _ _

theorem Response.NamesClean.chunked (h : r.NamesClean) : r.chunked.NamesClean := by
  have hremoved : ({ r with headers := r.headers.remove (bytes "Content-Length") } : Response).NamesClean :=
    ⟨HeaderMap.names_remove h.headers _, h.cookies⟩
  refine hremoved.setHeaders fun nv hnv => ?_
  rw [List.mem_singleton.1 hnv]
  decide

theorem Response.NamesClean.datedFile (h : r.NamesClean) (fstat : FileStat) :
    (r.datedFile ctx fstat).NamesClean := by
  have hnames : ∀ name ∈ [bytes "Last-Modified", bytes "ETag", bytes "Cache-Control"], CleanName name := by
    decide
  refine h.setHeaders fun nv hnv => hnames nv.1 ?_
  simpa using List.mem_map_of_mem (f := Prod.fst) hnv

theorem Response.NamesClean.openedFile (h : r.NamesClean) (file : FileAt) (enc : Bytes) :
    (r.openedFile ctx file enc).NamesClean := by
  have hname : CleanName (bytes "Content-Encoding") := by decide
  have hcoded := @Response.NamesClean.setHeaders _ h
    ((fileCompression ctx file).toList.map fun c => (bytes "Content-Encoding", c)) (by
      intro nv hnv
      obtain ⟨c, -, rfl⟩ := List.mem_map.1 hnv
      exact hname)
  refine Response.NamesClean.setType ctx ?_ _ _
  split
  · exact ⟨hcoded.headers, hcoded.cookies⟩
  · exact ⟨hcoded.headers, hcoded.cookies⟩

/-- Sending a file keeps the names clean. -/
theorem sendFile_namesClean (h : r.NamesClean) (file : FileAt) (enc : Bytes)
    (hstatus : ∀ (r₁ : Response) (code : Nat), r₁.NamesClean →
      (Plan.sendStatus ctx r₁ code).response.NamesClean) :
    (Plan.sendFile ctx r file enc).response.NamesClean := by
  unfold Plan.sendFile
  split
  · exact hstatus _ _ h
  · split
    · exact hstatus _ _ h
    · next fstat _ =>
      have hdated := h.datedFile ctx fstat
      split
      · exact hstatus _ _ h
      · split
        · exact hstatus _ _ hdated
        · split
          · exact hdated
          · exact hdated.openedFile ctx file enc

/-- Operations whose names are clean keep the names of the response clean. -/
theorem ResOp.plan_namesClean (op : ResOp) (hop : op.NamesClean) (h : r.NamesClean) :
    (op.plan ctx r).response.NamesClean := by
  have hsend : ∀ (r₁ : Response) (body : Bytes), r₁.NamesClean →
      (Plan.send ctx r₁ body).response.NamesClean := fun _ body hclean => hclean.beforeSend ctx body
  have hset : ∀ (r₁ : Response) (code : Nat), r₁.NamesClean → (r₁.setStatus code).NamesClean :=
    fun _ _ h₁ => ⟨h₁.headers, h₁.cookies⟩
  have hstatus : ∀ (r₁ : Response) (code : Nat), r₁.NamesClean →
      (Plan.sendStatus ctx r₁ code).response.NamesClean := fun _ code h₁ => hsend _ _ (hset _ code h₁)
  have hutf : ∀ r₁ : Response, r₁.NamesClean → (r₁.setEncoding (bytes "utf-8")).NamesClean :=
    fun _ h₁ => ⟨h₁.headers, h₁.cookies⟩
  have herror : ∀ (code : Nat) (e : CbError), (Plan.error ctx r code e).response.NamesClean :=
    fun code e => hsend _ _ ((hutf _ (hset _ code h)).setType ctx _ _)
  have hsendError : (Plan.sendError ctx r).response.NamesClean := by
    unfold Plan.sendError
    split
    · exact h
    · exact herror _ _
  have hevent : ∀ writes, (Plan.sendEvent ctx r writes).response.NamesClean := by
    intro writes
    unfold Plan.sendEvent
    split
    · exact h
    · split
      · exact h
      · exact h.setType ctx _ _
  cases op with
  | status code => exact hset _ code h
  | encoding enc => exact ⟨h.headers, h.cookies⟩
  | type t enc => exact h.setType ctx t enc
  | setHeader name val clear => exact h.set hop val clear
  | removeHeader name => exact ⟨HeaderMap.names_remove h.headers name, h.cookies⟩
  | setCookie name val opts => exact ⟨h.headers, HeaderMap.names_set h.cookies (by decide) _ _⟩
  | setError err code => exact ⟨h.headers, h.cookies⟩
  | send body => exact hsend _ _ h
  | sendEvent event data id => exact hevent _
  | sendEventMessage message => exact hevent _
  | sendEventComment comment => exact hevent _
  | sendFile file enc => exact sendFile_namesClean ctx h file enc hstatus
  | sendStatus code => exact hstatus _ _ h
  | html body => exact hsend _ _ ((hutf _ h).setType ctx _ _)
  | redirect newLocation code =>
    simp only [ResOp.plan, Plan.redirect]
    split
    · have hname : CleanName (bytes "Location") := by decide
      exact hstatus _ code (h.set hname newLocation true)
    · exact h
  | error code e => exact herror code e
  | sendError => exact hsendError
  | finish =>
    simp only [ResOp.plan, Plan.response]
    split
    · exact h
    · exact (hutf _ h).setType ctx _ _
  | complete err =>
    cases err with
    | some e => exact herror _ _
    | none =>
      simp only [ResOp.plan, Plan.complete]
      split
      · exact h
      · split
        · exact hstatus _ 204 h
        · exact hsendError
  | throw e => exact h

/-- The head that is prepared is that of the response, also of one that is a file. -/
theorem Plan.head?_cases {plan : Plan} {r' : Response} (h : plan.head? false = some r') :
    r' = plan.response ∨ r' = plan.response.chunked := by
  cases plan with
  | edit r => cases h
  | fail r e => cases h
  | file r => exact .inr (Option.some.inj h).symm
  | _ => exact .inl (Option.some.inj h).symm

/-- What every plan of a handler keeps holds of the response its first reply starts with. -/
theorem firstHead_induction (P : Response → Prop) (ops : List (ResOp × Bool))
    (hplan : ∀ x ∈ ops, ∀ r, P r → P (x.1.plan ctx r).response) (hchunked : ∀ r, P r → P r.chunked)
    (h : P r) {r' : Response} (hfirst : firstHead ctx ops r = some r') : P r' := by
  induction ops generalizing r with
  | nil => cases hfirst
  | cons x ops ih =>
    obtain ⟨op, swallows⟩ := x
    have hop := hplan (op, swallows) (List.mem_cons_self ..) r h
    rw [firstHead] at hfirst
    split at hfirst
    · next r₁ hhead =>
      cases hfirst
      rcases Plan.head?_cases hhead with rfl | rfl
      · exact hop
      · exact hchunked _ hop
    · split at hfirst
      · cases hfirst
      · exact ih (fun x hx => hplan x (List.mem_cons_of_mem (op, swallows) hx)) hop hfirst

theorem headLines_namesClean (h : r.NamesClean) : ∀ nv ∈ headLines ctx r, CleanName nv.1 := by
  intro nv hnv
  rcases List.mem_append.1 hnv with hmem | hmem
  · refine HeaderMap.names_lines ?_ ctx.order nv hmem
    unfold withConnection
    split <;> split
    · exact HeaderMap.names_set h.headers (by decide) _ _
    · exact h.headers
    · exact HeaderMap.names_set h.headers (by decide) _ _
    · exact h.headers
  · exact HeaderMap.names_lines h.cookies ctx.order nv hmem

end Names

/-- Under a clean name a header line is one line exactly if its value holds no line end. -/
theorem noCrlf_headerText {nv : Bytes × Bytes} (hname : CleanName nv.1) :
    NoCrlf (headerText nv) ↔ NoCrlf nv.2 := by
  constructor
  · exact fun h => NoCrlf.append_right h
  · intro hval
    refine NoCrlf.append (noCrlf_of_noCr ?_) hval (Or.inl (by simp))
    intro c hc
    rcases List.mem_append.1 hc with hmem | hmem
    · exact (hname c hmem).2.1
    · rcases List.mem_pair.1 hmem with rfl | rfl <;> decide

/-- The bytes after the status line are the header lines and an empty one. -/
theorem headAfterStatusLine_eq {ctx : ReplyCtx} {s : ResState} (hs : s.res.started = false)
    (hfits : Fits ctx s.res) :
    headAfterStatusLine ctx s =
      ((headLines ctx s.res).map headerText ++ [[]]).flatMap (· ++ crlf) := by
  obtain ⟨written, hout, hnone, hall, -⟩ := prepareHeaders_spec ctx hs
  have hok := hnone.2 hfits
  rw [if_pos hok, hall hok] at hout
  rw [headAfterStatusLine, hout]
  simp [List.flatMap_map, Write.bytes]

/-- **One line for each stored value, and an empty one.** A client that cuts the head at its line ends
    reads back exactly the stored names and values if and only if no value holds a line end. -/
theorem head_lines_iff_values_clean (ctx : ReplyCtx) (ops : List (ResOp × Bool)) (r : Response)
    (hnames : ∀ x ∈ ops, x.1.NamesClean) (hfirst : firstHead ctx ops .fresh = some r)
    (hfits : Fits ctx r) :
    splitCrlf (headAfterStatusLine ctx ⟨r, [], false, false⟩)
        = ((headLines ctx r).map headerText ++ [[]], []) ↔
      ∀ nv ∈ headLines ctx r, NoCrlf nv.2 := by
  have hstarted : r.started = false :=
    firstHead_induction ctx (fun r => r.started = false) ops
      (fun x _ r hr => (x.1.plan_started ctx r).trans hr) (fun _ hr => hr) rfl hfirst
  have hclean : r.NamesClean :=
    firstHead_induction ctx Response.NamesClean ops
      (fun x hx _ hr => x.1.plan_namesClean ctx (hnames x hx) hr) (fun _ hr => hr.chunked) .fresh hfirst
  have hlines := headLines_namesClean ctx hclean
  rw [headAfterStatusLine_eq (s := ⟨r, [], false, false⟩) hstarted hfits]
  constructor
  · intro hsplit nv hnv
    -- the lines of a text hold no line end, so this one does not
    have hmem : headerText nv ∈ (headLines ctx r).map headerText ++ [[]] :=
      List.mem_append_left _ (List.mem_map_of_mem hnv)
    have hfst := congrArg Prod.fst hsplit
    simp only at hfst
    rw [← hfst] at hmem
    exact (noCrlf_headerText (hlines nv hnv)).1 (noCrlf_of_mem_splitCrlf _ _ hmem)
  · intro hvals
    have hall : ∀ l ∈ (headLines ctx r).map headerText ++ [[]], NoCrlf l := by
      intro l hl
      rcases List.mem_append.1 hl with hmem | hmem
      · obtain ⟨nv, hnv, rfl⟩ := List.mem_map.1 hmem
        exact (noCrlf_headerText (hlines nv hnv)).2 (hvals nv hnv)
      · rw [List.mem_singleton.1 hmem]
        exact noCrlf_nil
    have hcut := splitCrlf_lines hall []
    simpa [splitCrlf] using hcut

/-- What the first reply of `ops` starts with, from a fresh response. -/
def headOf (ops : List (ResOp × Bool)) : Response := (firstHead plainCtx ops .fresh).getD .fresh

/-- `headers().set("X", "a b")`, a cookie in the clear, and a redirect. -/
def cleanOps : List (ResOp × Bool) :=
  [(.setHeader (bytes "X") (bytes "a b") true, false),
    (.setCookie (bytes "c") (bytes "1") { enc := .clear }, false),
    (.redirect (bytes "/next") 302, false)]

theorem head_lines_clean_redirect :
    splitCrlf (headAfterStatusLine plainCtx ⟨headOf cleanOps, [], false, false⟩)
        = ((headLines plainCtx (headOf cleanOps)).map headerText ++ [[]], []) ∧
      (headLines plainCtx (headOf cleanOps)).length = 5 := by
  refine ⟨(head_lines_iff_values_clean plainCtx cleanOps _ ?_ rfl ?_).2 ?_, ?_⟩
  · intro x hx
    simp only [cleanOps, List.mem_cons, List.not_mem_nil, or_false] at hx
    rcases hx with rfl | rfl | rfl
    · show CleanName (bytes "X")
      decide
    · trivial
    · trivial
  · unfold Fits
    decide +kernel
  · decide +kernel
  · decide +kernel

/-- A value with a line end in it brings a header of its own: redirecting to a location taken from
    the request is enough. -/
theorem value_splits_head :
    ¬ ∀ (ctx : ReplyCtx) (ops : List (ResOp × Bool)) (r : Response),
      (∀ x ∈ ops, x.1.NamesClean) → firstHead ctx ops .fresh = some r → Fits ctx r →
      splitCrlf (headAfterStatusLine ctx ⟨r, [], false, false⟩)
        = ((headLines ctx r).map headerText ++ [[]], []) := by
  intro h
  have hsplit := h plainCtx [(.redirect (bytes "/a" ++ crlf ++ bytes "X: 1") 302, false)]
    (headOf [(.redirect (bytes "/a" ++ crlf ++ bytes "X: 1") 302, false)])
    (by simp [ResOp.NamesClean]) rfl (by unfold Fits; decide +kernel)
  exact absurd hsplit (by decide +kernel)

end LibEvmvc
