import LibEvmvc.Foundation.Bytes

set_option autoImplicit false

/-! # The buffers of a view

What a view writes goes to the buffer on top of a stack; `begin_write` puts a new one there, and
`commit_write` takes it off, has the parser of its language transform it, and adds it to the one below or,
if there is none, to what the view has written. A language that begins with `$` is the name of a section:
its text is kept under that name in the response instead.

Calls that are nested are a tree, and the view writes what the tree is rendered to (`writes_render`). -/

namespace LibEvmvc

/-! ## The calls -/

/-- `lang_parsers()`. -/
abbrev LangParsers : Type := List (Bytes × (Bytes → Bytes))

/-- `view_engine::parse_language`. -/
def parseLanguage (parsers : LangParsers) (lang s : Bytes) : Bytes :=
  match parsers.lookup lang with
  | some parser => parser s
  | none => s

/-- What `view_base` writes to, the tops of the stacks first, and the sections of its response. -/
structure WriteState where
  outBuffer : Bytes
  buffers : List Bytes
  bufferLngs : List Bytes
  sections : Bytes → Option Bytes

inductive WriteError where
  /-- the exception of `_pop_buffer` -/
  | invalidLanguage (message : Bytes)
  /-- `top` or `pop` of an empty stack -/
  | emptyStack
  deriving DecidableEq, Repr

/-- `begin_write`. -/
def beginWriteCall (lng : Bytes) (st : WriteState) : WriteState :=
  { st with buffers := [] :: st.buffers, bufferLngs := lng :: st.bufferLngs }

/-- `write_raw`. -/
def writeRawCall (d : Bytes) (st : WriteState) : WriteState × Option WriteError :=
  match st.buffers with
  | [] => (st, some .emptyStack)
  | top :: below => ({ st with buffers := (top ++ d) :: below }, none)

/-- `add_section`. -/
def addSection (name src : Bytes) (st : WriteState) : WriteState :=
  { st with sections := fun n => if n = name then some src else st.sections n }

/-- The language is the name of a section. -/
def isSectionLng (lng : Bytes) : Bool := lng.head? = some 36

def invalidLanguage (current lng : Bytes) : WriteError :=
  .invalidLanguage (bytes "Invalid language\nCurrent language is: '" ++ current ++
    bytes "', and the request_t language to pop is '" ++ lng ++ bytes "'")

/-- `commit_write`. -/
def commitWriteCall (parsers : LangParsers) (lng : Bytes) (st : WriteState) :
    WriteState × Option WriteError :=
  match st.bufferLngs with
  | [] => (st, some .emptyStack)
  | current :: lngs =>
    if current ≠ lng then (st, some (invalidLanguage current lng))
    else
      match st.buffers with
      | [] => (st, some .emptyStack)
      | top :: below =>
        let tbuf := parseLanguage parsers (if isSectionLng lng then bytes "html" else lng) top
        let st := { st with buffers := below, bufferLngs := lngs }
        if isSectionLng lng then (addSection lng tbuf st, none)
        else
          match below with
          | [] => ({ st with outBuffer := st.outBuffer ++ tbuf }, none)
          | next :: below => ({ st with buffers := (next ++ tbuf) :: below }, none)

inductive WriteCall where
  | beginWrite (lng : Bytes)
  | writeRaw (d : Bytes)
  | commitWrite (lng : Bytes)
  deriving DecidableEq, Repr

def WriteCall.exec (parsers : LangParsers) : WriteCall → WriteState → WriteState × Option WriteError
  | .beginWrite lng, st => (beginWriteCall lng st, none)
  | .writeRaw d, st => writeRawCall d st
  | .commitWrite lng, st => commitWriteCall parsers lng st

/-- The calls one after the other, up to the first one that throws. -/
def runWrites (parsers : LangParsers) : List WriteCall → WriteState → WriteState × Option WriteError
  | [], st => (st, none)
  | c :: cs, st =>
    match c.exec parsers st with
    | (st, none) => runWrites parsers cs st
    | (st, some err) => (st, some err)

/-! ## Nested calls -/

/-- A text that is written, or what is written from a `begin_write` to its `commit_write`. -/
inductive WriteItem where
  | text (d : Bytes)
  | block (lng : Bytes) (items : List WriteItem)

def WriteItem.isBlock : WriteItem → Bool
  | .text _ => false
  | .block .. => true

mutual

/-- The calls of an item. -/
def WriteItem.calls : WriteItem → List WriteCall
  | .text d => [.writeRaw d]
  | .block lng items => .beginWrite lng :: (itemsCalls items ++ [.commitWrite lng])

def itemsCalls : List WriteItem → List WriteCall
  | [] => []
  | item :: items => item.calls ++ itemsCalls items

end

mutual

/-- What an item adds to the block it is in: a section adds nothing. -/
def WriteItem.shown (parsers : LangParsers) : WriteItem → Bytes
  | .text d => d
  | .block lng items => if isSectionLng lng then [] else parseLanguage parsers lng (itemsShown parsers items)

def itemsShown (parsers : LangParsers) : List WriteItem → Bytes
  | [] => []
  | item :: items => item.shown parsers ++ itemsShown parsers items

end

mutual

/-- The sections in an item in the order in which they are committed, with their texts. -/
def WriteItem.stored (parsers : LangParsers) : WriteItem → List (Bytes × Bytes)
  | .text _ => []
  | .block lng items =>
    itemsStored parsers items ++
      if isSectionLng lng then [(lng, parseLanguage parsers (bytes "html") (itemsShown parsers items))] else []

def itemsStored (parsers : LangParsers) : List WriteItem → List (Bytes × Bytes)
  | [] => []
  | item :: items => item.stored parsers ++ itemsStored parsers items

end

/-- The state with a text added where the next one goes. -/
def WriteState.add (st : WriteState) (d : Bytes) : WriteState :=
  match st.buffers with
  | [] => { st with outBuffer := st.outBuffer ++ d }
  | top :: below => { st with buffers := (top ++ d) :: below }

/-- The sections with others added. -/
def storeSections (sections : Bytes → Option Bytes) (l : List (Bytes × Bytes)) : Bytes → Option Bytes :=
  l.foldl (fun sections s n => if n = s.1 then some s.2 else sections n) sections

def WriteState.store (st : WriteState) (l : List (Bytes × Bytes)) : WriteState :=
  { st with sections := storeSections st.sections l }

section Writes

variable {parsers : LangParsers}

theorem runWrites_append {cs cs' : List WriteCall} {st st' : WriteState}
    (h : runWrites parsers cs st = (st', none)) :
    runWrites parsers (cs ++ cs') st = runWrites parsers cs' st' := by
  induction cs generalizing st with
  | nil =>
    cases h
    rfl
  | cons c cs ih =>
    rw [runWrites] at h
    rw [List.cons_append, runWrites]
    split at h
    · exact ih h
    · cases h

/-! ## States -/

theorem storeSections_append (sections : Bytes → Option Bytes) (l l' : List (Bytes × Bytes)) :
    storeSections sections (l ++ l') = storeSections (storeSections sections l) l' := List.foldl_append ..

/-- The last one of a name counts. -/
theorem storeSections_apply (sections : Bytes → Option Bytes) (l : List (Bytes × Bytes)) (name : Bytes) :
    storeSections sections l name = (l.reverse.lookup name).or (sections name) := by
  induction l using List.reverseRecOn with
  | nil => rfl
  | append_singleton l s ih =>
    obtain ⟨n, src⟩ := s
    rw [storeSections_append, List.reverse_append, List.reverse_singleton, List.singleton_append,
      List.lookup_cons]
    show (if name = n then some src else storeSections sections l name) = _
    by_cases hname : name = n
    · rw [if_pos hname, hname, beq_self_eq_true]
      rfl
    · rw [if_neg hname, beq_false_of_ne hname, ih]

/-- The text of an item is added where the next one goes, be it behind others or not. -/
theorem WriteState.add_append (st : WriteState) (a b : Bytes) : (st.add a).add b = st.add (a ++ b) := by
  obtain ⟨out, buffers, lngs, sections⟩ := st
  cases buffers with
  | nil => simp only [WriteState.add, List.append_assoc]
  | cons top below => simp only [WriteState.add, List.append_assoc]

theorem WriteState.add_nil (st : WriteState) : st.add [] = st := by
  obtain ⟨out, buffers, lngs, sections⟩ := st
  cases buffers with
  | nil => simp only [WriteState.add, List.append_nil]
  | cons top below => simp only [WriteState.add, List.append_nil]

theorem WriteState.add_ne (st : WriteState) (h : st.buffers ≠ []) (d : Bytes) : (st.add d).buffers ≠ [] := by
  obtain ⟨out, buffers, lngs, sections⟩ := st
  cases buffers with
  | nil => exact h
  | cons top below => exact List.cons_ne_nil _ _

theorem WriteState.add_frame (st : WriteState) (d : Bytes) :
    (st.add d).bufferLngs = st.bufferLngs ∧ (st.add d).sections = st.sections := by
  obtain ⟨out, buffers, lngs, sections⟩ := st
  cases buffers with
  | nil => exact ⟨rfl, rfl⟩
  | cons top below => exact ⟨rfl, rfl⟩

theorem WriteState.store_add (st : WriteState) (l : List (Bytes × Bytes)) (d : Bytes) :
    (st.store l).add d = (st.add d).store l := by
  obtain ⟨out, buffers, lngs, sections⟩ := st
  cases buffers with
  | nil => rfl
  | cons top below => rfl

theorem WriteState.store_append (st : WriteState) (l l' : List (Bytes × Bytes)) :
    (st.store l).store l' = st.store (l ++ l') := by
  simp only [WriteState.store, storeSections_append]

/-! ## Blocks -/

/-- The `commit_write` of a block: a section is kept, and the text of another block is added. -/
theorem commitWrite_block (lng d : Bytes) (l : List (Bytes × Bytes)) (st : WriteState) :
    commitWriteCall parsers lng (((beginWriteCall lng st).add d).store l) =
      (if isSectionLng lng then st.store (l ++ [(lng, parseLanguage parsers (bytes "html") d)])
        else (st.add (parseLanguage parsers lng d)).store l, none) := by
  obtain ⟨out, buffers, lngs, sections⟩ := st
  have htop : [] ++ d = d := List.nil_append d
  simp only [commitWriteCall, beginWriteCall, WriteState.add, WriteState.store, htop, ne_eq, not_true,
    if_false]
  cases hsec : isSectionLng lng with
  | true =>
    simp only [if_true, addSection, storeSections_append]
    rfl
  | false =>
    simp only [Bool.false_eq_true, if_false]
    cases buffers with
    | nil => rfl
    | cons top below => rfl

mutual

theorem runWrites_item (item : WriteItem) (st : WriteState) (h : st.buffers ≠ [] ∨ item.isBlock = true) :
    runWrites parsers item.calls st = ((st.add (item.shown parsers)).store (item.stored parsers), none) := by
  match item with
  | .text d =>
    obtain ⟨out, buffers, lngs, sections⟩ := st
    cases buffers with
    | nil => exact absurd rfl (h.resolve_right (by simp [WriteItem.isBlock]))
    | cons top below => rfl
  | .block lng items =>
    have hitems := runWrites_items items (beginWriteCall lng st) (.inl (by simp [beginWriteCall]))
    have hcommit := @commitWrite_block parsers lng (itemsShown parsers items) (itemsStored parsers items) st
    rw [WriteItem.calls, runWrites]
    simp only [WriteCall.exec]
    rw [runWrites_append hitems, runWrites]
    simp only [WriteCall.exec, hcommit, runWrites, WriteItem.shown, WriteItem.stored]
    cases hsec : isSectionLng lng with
    | true => simp only [if_true, WriteState.add_nil]
    | false => simp only [Bool.false_eq_true, if_false, List.append_nil]

theorem runWrites_items (items : List WriteItem) (st : WriteState)
    (h : st.buffers ≠ [] ∨ items.all WriteItem.isBlock = true) :
    runWrites parsers (itemsCalls items) st
      = ((st.add (itemsShown parsers items)).store (itemsStored parsers items), none) := by
  match items with
  | [] =>
    rw [itemsShown, WriteState.add_nil]
    rfl
  | item :: items =>
    have hfirst : st.buffers ≠ [] ∨ item.isBlock = true := h.imp_right fun hall => by
      rw [List.all_cons, Bool.and_eq_true] at hall
      exact hall.1
    have hrest : ((st.add (item.shown parsers)).store (item.stored parsers)).buffers ≠ [] ∨
        items.all WriteItem.isBlock = true := by
      refine h.imp (fun hne => (st.add_ne hne _)) fun hall => ?_
      rw [List.all_cons, Bool.and_eq_true] at hall
      exact hall.2
    rw [itemsCalls, runWrites_append (runWrites_item item st hfirst), runWrites_items items _ hrest,
      WriteState.store_add, WriteState.add_append, WriteState.store_append, itemsShown, itemsStored]

end

/-- **Nested calls write what their tree is rendered to, keep its sections, and leave the stacks as they
were; a call for another language than the last one throws and changes nothing.** -/
theorem writes_render (parsers : LangParsers) (items : List WriteItem) (st : WriteState)
    (hitems : st.buffers ≠ [] ∨ items.all WriteItem.isBlock = true) :
    (∃ st', runWrites parsers (itemsCalls items) st = (st', none) ∧
      (st.buffers = [] → st'.buffers = [] ∧ st'.outBuffer = st.outBuffer ++ itemsShown parsers items) ∧
      (∀ top below, st.buffers = top :: below →
        st'.buffers = (top ++ itemsShown parsers items) :: below ∧ st'.outBuffer = st.outBuffer) ∧
      st'.bufferLngs = st.bufferLngs ∧
      ∀ name, st'.sections name
        = ((itemsStored parsers items).reverse.lookup name).or (st.sections name)) ∧
    ∀ current lngs lng, st.bufferLngs = current :: lngs → lng ≠ current →
      commitWriteCall parsers lng st = (st, some (invalidLanguage current lng)) := by
  refine ⟨⟨_, runWrites_items items st hitems, ?_, ?_, ?_, fun name => ?_⟩, ?_⟩
  · intro hnil
    simp only [WriteState.store, WriteState.add, hnil, and_self]
  · intro top below hcons
    simp only [WriteState.store, WriteState.add, hcons, and_self]
  · exact (st.add_frame _).1
  · rw [← (st.add_frame (itemsShown parsers items)).2]
    exact storeSections_apply _ _ name
  · intro current lngs lng hcurrent hne
    simp only [commitWriteCall, hcurrent]
    exact if_pos (Ne.symm hne)

end Writes

/-- The state of a new view. -/
def newWriteState : WriteState := ⟨[], [], [], fun _ => none⟩

/-- A parser for the language `md`. -/
def mdParsers : LangParsers := [(bytes "md", fun s => bytes "<div>" ++ s ++ bytes "</div>")]

/-- Markdown and a section in a block of the page. -/
def nestedItems : List WriteItem :=
  [.block (bytes "html") [.text (bytes "a"), .block (bytes "$s") [.text (bytes "b")],
    .block (bytes "md") [.text (bytes "c")]]]

theorem writes_render_nested :
    ∃ st', runWrites mdParsers (itemsCalls nestedItems) newWriteState = (st', none) ∧
      st'.buffers = [] ∧ st'.outBuffer = bytes "a<div>c</div>" ∧
      st'.sections (bytes "$s") = some (bytes "b") := by
  have hitems : newWriteState.buffers ≠ [] ∨ nestedItems.all WriteItem.isBlock = true := .inr rfl
  obtain ⟨⟨st', hrun, hempty, -, -, hsections⟩, -⟩ := writes_render mdParsers nestedItems newWriteState hitems
  obtain ⟨hbuffers, hout⟩ := hempty rfl
  refine ⟨st', hrun, hbuffers, hout.trans ?_, (hsections _).trans ?_⟩
  · decide
  · decide

end LibEvmvc
