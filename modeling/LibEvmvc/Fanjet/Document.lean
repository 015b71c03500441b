import LibEvmvc.Fanjet.Tokenizer
import Mathlib.Data.List.Forall2

set_option autoImplicit false

/-! # Documents and their names

`generate_doc` gives a template its namespace, its path and its name, checks them with `validate_vname`,
and makes of them the name of the class and of the files that are generated. `norm_vname` replaces what
is not allowed there: a `/` becomes a `_` in the name of a class, and a `-` in that of a file.

A `_` may be part of a path or a name, a `-` may not. So the names of the files are those of one document
only, and the names of the classes are not: `a/b_c` and `a_b/c` are both `a_b_c`
(`docNames_distinct_iff`). -/

namespace LibEvmvc

namespace Fanjet

/-! ## Names -/

/-- What a name can begin with. -/
def isVnameStart (c : UInt8) : Bool := (65 ≤ c && c ≤ 90) || (97 ≤ c && c ≤ 122) || c == 95

/-- `ast::norm_vname`. -/
def normVname (replacingVal allowed : Bytes) : Bytes → Bytes
  | [] => []
  | c :: cs =>
    (if isVnameStart c then [c] else replacingVal) ++
      cs.flatMap fun c => if isAlphanum c || allowed.contains c then [c] else replacingVal

/-- `ast::validate_vname`: nothing if it returns true, and else the text of `err`. -/
def validateVname (acceptEmpty : Bool) (allowed : Bytes) : Bytes → Option Bytes
  | [] => if acceptEmpty then none else some []
  | c :: cs =>
    if !isVnameStart c then some (bytes "Variable must always start with one of 'AZ_az'")
    else if cs.all fun c => isAlphanum c || allowed.contains c then none
    else some (bytes "Variable must only contains the following chars: 'AZ_az09" ++ allowed)

inductive DocType where
  | layout
  | partialView
  | helper
  | body
  deriving DecidableEq, Repr

inductive InheritsAccess where
  | pub
  | pro
  | pri
  deriving DecidableEq, Repr

/-- `inherits_item_t`. -/
structure InheritsItem where
  access : InheritsAccess
  aliasName : Bytes
  path : Bytes
  nsclsName : Bytes
  deriving DecidableEq, Repr

/-- `document_t`, without its tree and the sources that are made of it. -/
structure Document where
  dirname : Bytes
  filename : Bytes
  type : DocType
  ns : Bytes
  path : Bytes
  name : Bytes
  absPath : Bytes
  clsName : Bytes
  nsclsName : Bytes
  selfName : Bytes
  cbName : Bytes
  layout : Bytes
  hFilename : Bytes
  iFilename : Bytes
  cFilename : Bytes
  inheritsItems : List InheritsItem
  deriving DecidableEq, Repr

/-- The texts of the directives of a template, empty for those it does not have. -/
structure DocDirectives where
  ns : Bytes
  path : Bytes
  name : Bytes
  layout : Bytes
  inheritsItems : List InheritsItem

/-- The path without the `/` that stands for the root. -/
def docDir (path : Bytes) : Bytes := if path = bytes "/" then [] else path

/-- `boost::starts_with(path, dir) || boost::contains(path, "/" + dir)`. -/
def inDir (dir path : Bytes) : Bool :=
  dir.isPrefixOf path || (List.range path.length).any fun i => (bytes "/" ++ dir).isPrefixOf (path.drop i)

/-- `document_t::type`, from the path. -/
def docTypeOf (path : Bytes) : DocType :=
  if inDir (bytes "layouts/") path then .layout
  else if inDir (bytes "partials/") path then .partialView
  else if inDir (bytes "helpers/") path then .helper
  else .body

/-- The names that are made of those of the document. -/
def docNamed (filename dirname : Bytes) (ns path name : Bytes) (d : DocDirectives) : Document :=
  let absPath := ns ++ bytes "::" ++ docDir path ++ name
  let clsName := normVname (bytes "_") [] (path ++ name)
  let nvname := normVname (bytes "-") [] absPath
  { dirname, filename, type := docTypeOf path, ns, path, name, absPath, clsName,
    nsclsName := ns ++ bytes "::" ++ clsName
    selfName := bytes "_" ++ clsName ++ bytes "__self_"
    cbName := bytes "_" ++ clsName ++ bytes "__cb_"
    layout := d.layout
    hFilename := nvname ++ bytes ".h"
    iFilename := nvname ++ bytes "-inc.h"
    cFilename := nvname ++ bytes ".cpp"
    inheritsItems := d.inheritsItems }

/-- `parser::generate_doc`, from the texts of the directives on. That an empty path has no last character
    is not looked at: it is taken for one that does not end with a `/`. -/
def generateDoc (filename dirname ns viewPath : Bytes) (d : DocDirectives) : Except Bytes Document :=
  let ns := if d.ns = [] then ns else d.ns
  let path := if d.path = [] then (viewPath.reverse.dropWhile (· ≠ 47)).reverse else d.path
  let path := if path.getLast? = some 47 then path else path ++ bytes "/"
  let name := if d.name = [] then (viewPath.reverse.takeWhile (· ≠ 47)).reverse else d.name
  match validateVname false (bytes ":") ns with
  | some err => .error (bytes "Invalid namespace value '" ++ ns ++ bytes "'\n" ++ err)
  | none =>
    match if path = bytes "/" then none else validateVname false (bytes "/") path with
    | some err => .error (bytes "Invalid path value '" ++ path ++ bytes "'\n" ++ err)
    | none =>
      match validateVname false [] name with
      | some err => .error (bytes "Invalid name value '" ++ name ++ bytes "'\n" ++ err)
      | none => .ok (docNamed filename dirname ns path name d)

/-- The document is one that `generate_doc` returns. -/
def Document.Accepted (doc : Document) : Prop :=
  ∃ filename dirname ns viewPath d, generateDoc filename dirname ns viewPath d = .ok doc

/-! ## What is accepted -/

/-- A namespace, a path or a name as `validate_vname` accepts it. -/
def Vname (allowed s : Bytes) : Prop :=
  ∃ c cs, s = c :: cs ∧ isVnameStart c = true ∧ ∀ d ∈ cs, isAlphanum d = true ∨ d ∈ allowed

theorem validateVname_iff {allowed s : Bytes} : validateVname false allowed s = none ↔ Vname allowed s := by
  cases s with
  | nil =>
    refine ⟨fun h => (by cases h), ?_⟩
    rintro ⟨c, cs, h, -⟩
    cases h
  | cons c cs =>
    have hall : (cs.all fun c => isAlphanum c || allowed.contains c) = true
        ↔ ∀ d ∈ cs, isAlphanum d = true ∨ d ∈ allowed := by
      simp only [List.all_eq_true, Bool.or_eq_true, List.contains_iff_mem]
    rw [validateVname]
    by_cases hstart : isVnameStart c = true
    · rw [hstart]
      by_cases hcs : (cs.all fun c => isAlphanum c || allowed.contains c) = true
      · rw [if_pos hcs]
        exact ⟨fun _ => ⟨c, cs, rfl, hstart, hall.1 hcs⟩, fun _ => rfl⟩
      · rw [if_neg hcs]
        refine ⟨fun h => (by cases h), ?_⟩
        rintro ⟨c', cs', heq, -, hcs'⟩
        cases heq
        exact absurd (hall.2 hcs') hcs
    · rw [Bool.not_eq_true] at hstart
      rw [hstart]
      refine ⟨fun h => (by cases h), ?_⟩
      rintro ⟨c', cs', heq, hstart', -⟩
      cases heq
      rw [hstart] at hstart'
      cases hstart'

theorem isAlphanum_of_start {c : UInt8} (h : isVnameStart c = true) : isAlphanum c = true := by
  unfold isVnameStart at h
  unfold isAlphanum
  simp only [Bool.or_eq_true] at h ⊢
  rcases h with (h | h) | h
  · exact .inl (.inl (.inl h))
  · exact .inl (.inl (.inr h))
  · exact .inr h

/-- What is known of a document that is accepted. -/
structure Document.Named (doc : Document) : Prop where
  ns : Vname (bytes ":") doc.ns
  path : doc.path = bytes "/" ∨ Vname (bytes "/") doc.path
  slash : doc.path.getLast? = some 47
  name : Vname [] doc.name
  clsName : doc.clsName = normVname (bytes "_") [] (doc.path ++ doc.name)
  nsclsName : doc.nsclsName = doc.ns ++ bytes "::" ++ doc.clsName
  absPath : doc.absPath = doc.ns ++ bytes "::" ++ docDir doc.path ++ doc.name
  hFilename : doc.hFilename = normVname (bytes "-") [] doc.absPath ++ bytes ".h"
  iFilename : doc.iFilename = normVname (bytes "-") [] doc.absPath ++ bytes "-inc.h"
  selfName : doc.selfName = bytes "_" ++ doc.clsName ++ bytes "__self_"
  cbName : doc.cbName = bytes "_" ++ doc.clsName ++ bytes "__cb_"

theorem Document.Accepted.named {doc : Document} (h : doc.Accepted) : doc.Named := by
  obtain ⟨filename, dirname, ns, viewPath, d, h⟩ := h
  unfold generateDoc at h
  simp only at h
  generalize (if d.ns = [] then ns else d.ns) = ns' at h
  generalize (if d.path = [] then (viewPath.reverse.dropWhile (· ≠ 47)).reverse else d.path) = path at h
  generalize hname : (if d.name = [] then (viewPath.reverse.takeWhile (· ≠ 47)).reverse else d.name)
    = name at h
  have hlast : (if path.getLast? = some 47 then path else path ++ bytes "/").getLast? = some 47 := by
    split
    · assumption
    · exact List.getLast?_concat
  generalize (if path.getLast? = some 47 then path else path ++ bytes "/") = path at h hlast
  cases hns : validateVname false (bytes ":") ns' with
  | some err =>
    rw [hns] at h
    cases h
  | none =>
    rw [hns] at h
    cases hpath : if path = bytes "/" then none else validateVname false (bytes "/") path with
    | some err =>
      rw [hpath] at h
      cases h
    | none =>
      rw [hpath] at h
      cases hname : validateVname false [] name with
      | some err =>
        rw [hname] at h
        cases h
      | none =>
        rw [hname] at h
        cases Except.ok.inj h
        refine ⟨validateVname_iff.1 hns, ?_, hlast, validateVname_iff.1 hname, rfl, rfl, rfl, rfl, rfl, rfl, rfl⟩
        split at hpath
        · next hroot => exact .inl hroot
        · exact .inr (validateVname_iff.1 hpath)

/-! ## The names as maps of characters -/

/-- A character of a name that is made, where `r` replaces what is not allowed. -/
def keepChar (r c : UInt8) : UInt8 := if isAlphanum c then c else r

theorem normVname_eq_map (r : UInt8) {s : Bytes}
    (hhead : ∀ c, s.head? = some c → isAlphanum c = true → isVnameStart c = true) :
    normVname [r] [] s = s.map (keepChar r) := by
  cases s with
  | nil => rfl
  | cons c cs =>
    have hflat : (cs.flatMap fun c => if isAlphanum c || ([] : Bytes).contains c then [c] else [r])
        = cs.map (keepChar r) := by
      induction cs with
      | nil => rfl
      | cons d cs ih =>
        rw [List.flatMap_cons, List.map_cons, ih (fun c hc => hhead c hc), keepChar]
        cases isAlphanum d
        · rfl
        · rfl
    have hfirst : (if isVnameStart c then [c] else [r]) = [keepChar r c] := by
      unfold keepChar
      by_cases hstart : isVnameStart c = true
      · rw [if_pos hstart, if_pos (isAlphanum_of_start hstart)]
      · rw [if_neg hstart, if_neg fun halnum => hstart (hhead c rfl halnum)]
    rw [normVname, hflat, hfirst]
    rfl

/-- A letter, a digit, a `_` or a `/`. -/
def IsPathChar (c : UInt8) : Prop := isAlphanum c = true ∨ c = 47

theorem Vname.pathChar {s : Bytes} (h : Vname (bytes "/") s) : ∀ c ∈ s, IsPathChar c := by
  obtain ⟨c, cs, rfl, hc, hcs⟩ := h
  have hslash : bytes "/" = [47] := by decide
  rw [List.forall_mem_cons]
  refine ⟨.inl (isAlphanum_of_start hc), fun d hd => ?_⟩
  rw [hslash] at hcs
  exact (hcs d hd).imp_right List.mem_singleton.1

theorem Vname.alphanum {s : Bytes} (h : Vname [] s) : ∀ c ∈ s, isAlphanum c = true := by
  obtain ⟨c, cs, rfl, hc, hcs⟩ := h
  rw [List.forall_mem_cons]
  exact ⟨isAlphanum_of_start hc, fun d hd => (hcs d hd).resolve_right List.not_mem_nil⟩

theorem isVname_of_head {allowed s t : Bytes} (h : Vname allowed s) :
    ∀ c, (s ++ t).head? = some c → isAlphanum c = true → isVnameStart c = true := by
  obtain ⟨d, ds, rfl, hd, -⟩ := h
  intro c hc _
  cases hc
  exact hd

/-- Where the last separator is tells what goes up to it from what is behind it. -/
theorem lastSep_injective {sep : UInt8} {dir dir' name name' : Bytes}
    (hdir : dir = [] ∨ dir.getLast? = some sep) (hdir' : dir' = [] ∨ dir'.getLast? = some sep)
    (hname : sep ∉ name) (hname' : sep ∉ name') (h : dir ++ name = dir' ++ name') :
    dir = dir' ∧ name = name' := by
  have htake {dir name : Bytes} (hdir : dir = [] ∨ dir.getLast? = some sep) (hname : sep ∉ name) :
      (dir ++ name).reverse.takeWhile (· ≠ sep) = name.reverse := by
    have hall : ∀ c ∈ name.reverse, decide (c ≠ sep) = true := by
      intro c hc
      rw [decide_eq_true_iff]
      rintro rfl
      exact hname (List.mem_reverse.1 hc)
    rw [List.reverse_append, List.takeWhile_append_of_pos hall]
    rcases hdir with rfl | hslash
    · exact List.append_nil _
    · obtain ⟨path, rfl⟩ := List.getLast?_eq_some_iff.1 hslash
      have hstop : (path ++ [sep]).reverse.takeWhile (· ≠ sep) = [] := by simp
      rw [hstop, List.append_nil]
  have hnames : name = name' := by
    rw [← List.reverse_inj, ← htake hdir hname, ← htake hdir' hname', h]
  rw [hnames] at h
  exact ⟨List.append_cancel_right h, hnames⟩

/-- The path of a document that is registered, and its name. -/
def Document.full (doc : Document) : Bytes := docDir doc.path ++ doc.name

section Named

variable {doc doc' : Document}

theorem Document.Named.pathChar (h : doc.Named) : ∀ c ∈ doc.path ++ doc.name, IsPathChar c := by
  rw [List.forall_mem_append]
  refine ⟨?_, fun c hc => .inl (h.name.alphanum c hc)⟩
  rcases h.path with hroot | hpath
  · have hslash : bytes "/" = [47] := by decide
    rw [hroot, hslash]
    exact fun c hc => .inr (List.mem_singleton.1 hc)
  · exact hpath.pathChar

theorem Document.Named.fullChar (h : doc.Named) : ∀ c ∈ doc.full, IsPathChar c := by
  intro c hc
  refine h.pathChar c ?_
  rw [Document.full, docDir] at hc
  split at hc
  · exact List.mem_append_right _ hc
  · exact hc

theorem Document.Named.clsName_eq (h : doc.Named) :
    doc.clsName = (doc.path ++ doc.name).map (keepChar 95) := by
  have hlow : bytes "_" = [95] := by decide
  rw [h.clsName, hlow]
  refine normVname_eq_map 95 ?_
  rcases h.path with hroot | hpath
  · rw [hroot]
    intro c hc halnum
    cases hc
    exact absurd halnum (by decide)
  · exact isVname_of_head hpath

/-- The name of the files without what follows it. -/
theorem Document.Named.nvname_eq (h : doc.Named) :
    normVname (bytes "-") [] doc.absPath
      = (doc.ns ++ bytes "::").map (keepChar 45) ++ doc.full.map (keepChar 45) := by
  have hdash : bytes "-" = [45] := by decide
  have habs : doc.absPath = doc.ns ++ (bytes "::" ++ doc.full) := by
    rw [h.absPath, Document.full, List.append_assoc, List.append_assoc]
  rw [hdash, habs, normVname_eq_map 45 (isVname_of_head h.ns), ← List.append_assoc, List.map_append]

/-- In the name of a file a `-` can be read as a `/`. -/
theorem keepChar_back {s : Bytes} (hs : ∀ c ∈ s, IsPathChar c) :
    (s.map (keepChar 45)).map (fun c => if c = 45 then 47 else c) = s := by
  rw [List.map_map]
  refine (List.map_congr_left fun c hc => ?_).trans (List.map_id s)
  rcases hs c hc with halnum | rfl
  · have hne : c ≠ 45 := by
      rintro rfl
      exact absurd halnum (by decide)
    show (if keepChar 45 c = 45 then 47 else keepChar 45 c) = c
    rw [keepChar, if_pos halnum, if_neg hne]
  · decide

theorem keepChar_injective {s t : Bytes} (hs : ∀ c ∈ s, IsPathChar c) (ht : ∀ c ∈ t, IsPathChar c)
    (h : s.map (keepChar 45) = t.map (keepChar 45)) : s = t := by
  rw [← keepChar_back hs, h, keepChar_back ht]

theorem Document.Named.name_noSlash (h : doc.Named) : 47 ∉ doc.name :=
  fun hmem => absurd (h.name.alphanum 47 hmem) (by decide)

theorem Document.Named.docDir_slash (h : doc.Named) :
    docDir doc.path = [] ∨ (docDir doc.path).getLast? = some 47 := by
  unfold docDir
  split
  · exact .inl rfl
  · exact .inr h.slash

theorem Document.Named.path_eq (h : doc.Named) :
    doc.path = if docDir doc.path = [] then bytes "/" else docDir doc.path := by
  unfold docDir
  split
  · assumption
  · rw [if_neg]
    intro hnil
    have hslash := h.slash
    rw [hnil] at hslash
    cases hslash

theorem full_injective (h : doc.Named) (h' : doc'.Named) (heq : doc.full = doc'.full) :
    (doc.path, doc.name) = (doc'.path, doc'.name) := by
  obtain ⟨hdir, hname⟩ :=
    lastSep_injective h.docDir_slash h'.docDir_slash h.name_noSlash h'.name_noSlash heq
  rw [h.path_eq, h'.path_eq, hdir, hname]

end Named

/-! ## Which names are distinct -/

/-- The key words of the language. -/
def cppKeywords : List Bytes :=
  ["alignas", "alignof", "and", "and_eq", "asm", "auto", "bitand", "bitor", "bool", "break", "case",
    "catch", "char", "char16_t", "char32_t", "class", "compl", "const", "constexpr", "const_cast",
    "continue", "decltype", "default", "delete", "do", "double", "dynamic_cast", "else", "enum",
    "explicit", "export", "extern", "false", "float", "for", "friend", "goto", "if", "inline", "int",
    "long", "mutable", "namespace", "new", "noexcept", "not", "not_eq", "nullptr", "operator", "or",
    "or_eq", "private", "protected", "public", "register", "reinterpret_cast", "return", "short",
    "signed", "sizeof", "static", "static_assert", "static_cast", "struct", "switch", "template", "this",
    "thread_local", "throw", "true", "try", "typedef", "typeid", "typename", "union", "unsigned", "using",
    "virtual", "void", "volatile", "wchar_t", "while", "xor", "xor_eq"].map bytes

/-- The text is a name the language allows: of letters, digits and `_`, and not a key word. -/
def IsCppIdentifier (s : Bytes) : Prop := Vname [] s ∧ s ∉ cppKeywords

/-- The texts differ at most in that one of them has a `/` where the other one has a `_`. -/
def SameUpToSlash (s t : Bytes) : Prop :=
  List.Forall₂ (fun c d => c = d ∨ (c = 47 ∧ d = 95) ∨ (c = 95 ∧ d = 47)) s t

theorem keepChar_eq_iff {c d : UInt8} (hc : IsPathChar c) (hd : IsPathChar d) :
    keepChar 95 c = keepChar 95 d ↔ c = d ∨ (c = 47 ∧ d = 95) ∨ (c = 95 ∧ d = 47) := by
  have hslash : keepChar 95 47 = 95 := by decide
  have hne {c : UInt8} (hc : isAlphanum c = true) : c ≠ 47 := by
    rintro rfl
    exact absurd hc (by decide)
  rcases hc with hc | rfl
  · rcases hd with hd | rfl
    · rw [keepChar, keepChar, if_pos hc, if_pos hd]
      simp [hne hc, hne hd]
    · rw [hslash, keepChar, if_pos hc]
      simp [hne hc]
  · rcases hd with hd | rfl
    · rw [hslash, keepChar, if_pos hd]
      simp [(hne hd).symm, eq_comm]
    · simp

theorem sameUpToSlash_iff {s t : Bytes} (hs : ∀ c ∈ s, IsPathChar c) (ht : ∀ c ∈ t, IsPathChar c) :
    s.map (keepChar 95) = t.map (keepChar 95) ↔ SameUpToSlash s t := by
  unfold SameUpToSlash
  induction s generalizing t with
  | nil => cases t <;> simp
  | cons c s ih =>
    cases t with
    | nil => simp
    | cons d t =>
      rw [List.forall_mem_cons] at hs ht
      rw [List.map_cons, List.map_cons, List.cons.injEq, List.forall₂_cons, keepChar_eq_iff hs.1 ht.1,
        ih hs.2 ht.2]

theorem cppKeywords_alphanum : ∀ kw ∈ cppKeywords, ∀ c ∈ kw, isAlphanum c = true := by
  have hall : (cppKeywords.all fun kw => kw.all isAlphanum) = true := by decide
  exact fun kw hkw => List.all_eq_true.1 (List.all_eq_true.1 hall kw hkw)

theorem Document.Named.clsName_vname {doc : Document} (h : doc.Named) : Vname [] doc.clsName := by
  have hkeep {c : UInt8} (hc : IsPathChar c) : isAlphanum (keepChar 95 c) = true := by
    unfold keepChar
    split
    · assumption
    · decide
  have hchars := h.pathChar
  rw [h.clsName_eq]
  rcases h.path with hroot | ⟨c, cs, hcs, hstart, -⟩
  · have hslash : bytes "/" = [47] := by decide
    rw [hroot, hslash] at hchars ⊢
    refine ⟨95, doc.name.map (keepChar 95), rfl, by decide, ?_⟩
    intro d hd
    obtain ⟨e, he, rfl⟩ := List.mem_map.1 hd
    exact .inl (hkeep (hchars e (List.mem_append_right _ he)))
  · rw [hcs, List.cons_append, List.forall_mem_cons] at hchars
    rw [hcs]
    refine ⟨c, (cs ++ doc.name).map (keepChar 95), ?_, hstart, ?_⟩
    · rw [List.cons_append, List.map_cons, keepChar, if_pos (isAlphanum_of_start hstart)]
    · intro d hd
      obtain ⟨e, he, rfl⟩ := List.mem_map.1 hd
      exact .inl (hkeep (hchars.2 e he))

/-- A class has the name of a key word exactly if its path and name are one up to `/`. -/
theorem Document.Named.clsName_keyword_iff {doc : Document} (h : doc.Named) :
    doc.clsName ∈ cppKeywords ↔ ∃ kw ∈ cppKeywords, SameUpToSlash (doc.path ++ doc.name) kw := by
  have hsame {kw : Bytes} (hkw : kw ∈ cppKeywords) :
      doc.clsName = kw ↔ SameUpToSlash (doc.path ++ doc.name) kw := by
    have halnum := cppKeywords_alphanum kw hkw
    have hid : kw.map (keepChar 95) = kw :=
      (List.map_congr_left fun c hc => if_pos (halnum c hc)).trans (List.map_id kw)
    rw [← sameUpToSlash_iff h.pathChar fun c hc => .inl (halnum c hc), h.clsName_eq, hid]
  constructor
  · exact fun hmem => ⟨_, hmem, (hsame hmem).1 rfl⟩
  · rintro ⟨kw, hkw, heq⟩
    rw [(hsame hkw).2 heq]
    exact hkw

/-- **The files of two documents are named apart; their classes are named apart, and by names the language
allows, exactly if paths and names are not the same up to a `/` in place of a `_`, and are not so a key
word. The header of one document is the include of another one exactly if it is the `inc` below it.** -/
theorem docNames_distinct_iff {doc doc' : Document} (h : doc.Accepted) (h' : doc'.Accepted)
    (hns : doc.ns = doc'.ns) (hne : (doc.path, doc.name) ≠ (doc'.path, doc'.name)) :
    ((doc.clsName ≠ doc'.clsName ∧ doc.hFilename ≠ doc'.hFilename ∧ doc.iFilename ≠ doc'.iFilename ∧
        IsCppIdentifier doc.clsName ∧ IsCppIdentifier doc'.clsName) ↔
      ¬ SameUpToSlash (doc.path ++ doc.name) (doc'.path ++ doc'.name) ∧
        ∀ kw ∈ cppKeywords, ¬ SameUpToSlash (doc.path ++ doc.name) kw ∧
          ¬ SameUpToSlash (doc'.path ++ doc'.name) kw) ∧
    (doc.hFilename = doc'.iFilename ↔ doc.full = doc'.full ++ bytes "/inc") := by
  have hnamed := h.named
  have hnamed' := h'.named
  have hfull : doc.full ≠ doc'.full := fun heq => hne (full_injective hnamed hnamed' heq)
  have hnv : normVname (bytes "-") [] doc.absPath ≠ normVname (bytes "-") [] doc'.absPath := by
    rw [hnamed.nvname_eq, hnamed'.nvname_eq, hns]
    intro heq
    exact hfull (keepChar_injective hnamed.fullChar hnamed'.fullChar (List.append_cancel_left heq))
  have hcls : doc.clsName ≠ doc'.clsName ↔
      ¬ SameUpToSlash (doc.path ++ doc.name) (doc'.path ++ doc'.name) := by
    rw [hnamed.clsName_eq, hnamed'.clsName_eq, Ne, sameUpToSlash_iff hnamed.pathChar hnamed'.pathChar]
  have hident {doc : Document} (h : doc.Named) : IsCppIdentifier doc.clsName ↔
      ∀ kw ∈ cppKeywords, ¬ SameUpToSlash (doc.path ++ doc.name) kw := by
    unfold IsCppIdentifier
    rw [h.clsName_keyword_iff, and_iff_right h.clsName_vname]
    push Not
    rfl
  constructor
  · rw [hcls, hident hnamed, hident hnamed', ← forall₂_and]
    constructor
    · exact fun hall => ⟨hall.1, hall.2.2.2⟩
    · refine fun hall => ⟨hall.1, ?_, ?_, hall.2⟩
      · rw [hnamed.hFilename, hnamed'.hFilename]
        exact fun heq => hnv (List.append_cancel_right heq)
      · rw [hnamed.iFilename, hnamed'.iFilename]
        exact fun heq => hnv (List.append_cancel_right heq)
  · have hinc : bytes "-inc.h" = (bytes "/inc").map (keepChar 45) ++ bytes ".h" := by decide
    have hincChar : ∀ c ∈ doc'.full ++ bytes "/inc", IsPathChar c := by
      rw [List.forall_mem_append]
      refine ⟨hnamed'.fullChar, ?_⟩
      unfold IsPathChar
      exact forall_mem_of_all (by decide)
    rw [hnamed.hFilename, hnamed'.iFilename, hinc, ← List.append_assoc, List.append_left_inj,
      hnamed.nvname_eq, hnamed'.nvname_eq, hns, List.append_assoc, List.append_right_inj,
      ← List.map_append]
    exact ⟨fun heq => keepChar_injective hnamed.fullChar hincChar heq, fun heq => by rw [heq]⟩

/-- The document of a template without directives. -/
def sampleDoc (path name : String) : Document :=
  docNamed (bytes "/views.fan") (bytes "/") (bytes "app") (bytes path) (bytes name) ⟨[], [], [], [], []⟩

theorem sampleDoc_accepted {path name : String}
    (h : generateDoc (bytes "/views.fan") (bytes "/") (bytes "app") (bytes path ++ bytes name)
      ⟨[], [], [], [], []⟩ = .ok (sampleDoc path name)) : (sampleDoc path name).Accepted :=
  ⟨_, _, _, _, _, h⟩

/-- `a/b` and `c/d`, whose names are apart. -/
theorem docNames_distinct_sample :
    ((sampleDoc "a/" "b").clsName ≠ (sampleDoc "c/" "d").clsName ∧
        (sampleDoc "a/" "b").hFilename ≠ (sampleDoc "c/" "d").hFilename ∧
        (sampleDoc "a/" "b").iFilename ≠ (sampleDoc "c/" "d").iFilename ∧
        IsCppIdentifier (sampleDoc "a/" "b").clsName ∧ IsCppIdentifier (sampleDoc "c/" "d").clsName ↔
      ¬ SameUpToSlash (bytes "a/" ++ bytes "b") (bytes "c/" ++ bytes "d") ∧
        ∀ kw ∈ cppKeywords, ¬ SameUpToSlash (bytes "a/" ++ bytes "b") kw ∧
          ¬ SameUpToSlash (bytes "c/" ++ bytes "d") kw) ∧
    ((sampleDoc "a/" "b").hFilename = (sampleDoc "c/" "d").iFilename ↔
      (sampleDoc "a/" "b").full = (sampleDoc "c/" "d").full ++ bytes "/inc") :=
  docNames_distinct_iff (sampleDoc_accepted (by decide)) (sampleDoc_accepted (by decide)) rfl
    (by decide)

/-- `a/b_c` and `a_b/c` have one class. -/
theorem docNames_collide :
    ¬ ∀ doc doc' : Document, doc.Accepted → doc'.Accepted → doc.ns = doc'.ns →
      (doc.path, doc.name) ≠ (doc'.path, doc'.name) →
      doc.clsName ≠ doc'.clsName ∧ doc.hFilename ≠ doc'.hFilename ∧ doc.iFilename ≠ doc'.iFilename ∧
        IsCppIdentifier doc.clsName ∧ IsCppIdentifier doc'.clsName := by
  intro hall
  have hdistinct := hall (sampleDoc "a/" "b_c") (sampleDoc "a_b/" "c")
    (sampleDoc_accepted (by decide)) (sampleDoc_accepted (by decide)) rfl
    (by decide)
  exact hdistinct.1 (by decide)

end Fanjet

end LibEvmvc
