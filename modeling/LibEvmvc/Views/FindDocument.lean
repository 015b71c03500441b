import LibEvmvc.Fanjet.Document
import LibEvmvc.Views.Lookup
import Mathlib.Data.List.Pairwise

set_option autoImplicit false

/-! # The two ways a reference is looked up

The precompiler looks a reference up among the documents (`ast::find`), the running program among the
views that the generated code has registered (`find_generator`). Both go through the directories of the
reference from the longest one on. But they do not read the reference alike, nor the root:

* for the precompiler the root is the path `/`, which is a level of its own in a reference from the root
  and no level of any other one; for the engine it is the empty path, the last level of all;
* a reference that begins with a `/` is put behind the path of the document by the precompiler, which
  tests the last character in place of the first.

Below the root both find the nearest document of the reference as they read it. `SameNearest` says when
this makes no difference. -/

namespace LibEvmvc

namespace Fanjet

/-! ## Looking among the documents -/

/-- `ast::find`. -/
def astFind (docs : List Document) (doc : Document) (path : Bytes) : Except ViewErr Document :=
  let missing : ViewErr := bytes "No view matching path: '" ++ path ++ bytes "'"
  if path = [] then .error (bytes "path is empty!")
  else
    let p := if path.getLast? = some 47 then path.drop 1 else doc.path ++ path
    let parts := p.splitOn 47
    let name := parts.getLastD []
    let ds := docs.filter fun d => d.name = name
    if ds = [] then .error missing
    else
      let found := (List.range parts.length).reverse.findSome? fun i =>
        let rp := (parts.take i).flatMap fun part => part ++ bytes "/"
        ds.findSome? fun d =>
          if d.path = rp ∨ d.path = rp ++ bytes "partials/" ∨ d.path = rp ++ bytes "layouts/"
              ∨ d.path = rp ++ bytes "helpers/" then
            some d
          else none
      match found with
      | some d => .ok d
      | none => .error missing

/-! ## Registering the documents -/

/-- The class that is generated for a document; `render` is what its template does. -/
def docClass (render : Document → List ViewOp) (doc : Document) : ViewClass :=
  { path := docDir doc.path, absPath := doc.absPath, layout := doc.layout, render := render doc }

/-- `register_engine`, as `generate_code` writes it: helpers are not registered. -/
def registerDocs (render : Document → List ViewOp) (e : ViewEngine) :
    List Document → Except ViewErr ViewEngine
  | [] => .ok e
  | doc :: docs =>
    if doc.type = .helper then registerDocs render e docs
    else do
      let e ← e.registerViewGenerator (docDir doc.path ++ doc.name) (docClass render doc)
      registerDocs render e docs

/-- The path the engine is asked for: a reference is relative to the document's directory, or to the
    root if it begins with a `/`. -/
def resolveRef (doc : Document) (ref : Bytes) : Bytes :=
  if ref.head? = some 47 then ref.drop 1 else docDir doc.path ++ ref

/-! ## The nearest document -/

/-- The document has the name and is in the directory, or in the `partials`, `layouts` or `helpers` of
    it. -/
def Candidate (name rp : Bytes) (doc : Document) : Prop :=
  doc.name = name ∧ ∃ kind ∈ viewKinds, docDir doc.path = rp ++ kind

instance (name : Bytes) : DecidableRel (Candidate name) := fun _ _ => instDecidableAnd

/-- The document is in the `partials`, `layouts` or `helpers` of the root. -/
def InTop (doc : Document) : Prop :=
  doc.path ∈ [bytes "partials/", bytes "layouts/", bytes "helpers/"]

/-- The nearest document of a reference below the root. -/
def nearest (docs : List Document) (path : Bytes) : Option Document :=
  searchTiers (Candidate (viewName path)) id docs (belowDirs path)

/-- Of the two readings of the reference, the one of the precompiler first, both have the same nearest
    document, or only one has a document, and this is seen from the root too; or none has one, and the
    precompiler sees the root, or there is nothing to see. -/
def SameNearest (docs : List Document) (doc : Document) (ref : Bytes) : Prop :=
  match nearest docs (doc.path ++ ref), nearest docs (resolveRef doc ref) with
  | some d, some d' => d = d'
  | some d, none => InTop d
  | none, some d => InTop d
  | none, none =>
    doc.path = bytes "/" ∨ ∀ d ∈ docs, ¬ (d.path = bytes "/" ∧ d.name = viewName ref)

/-- At each level of the path there is at most one candidate. -/
def OneCandidate (docs : List Document) (path : Bytes) : Prop :=
  ∀ rp ∈ viewDirs path, ∀ d ∈ docs, ∀ d' ∈ docs,
    Candidate (viewName path) rp d → Candidate (viewName path) rp d' → d = d'

/-! ## The engine -/

section Engine

variable {render : Document → List ViewOp} {docs : List Document}

/-- What a document is registered with. -/
def docEntry (render : Document → List ViewOp) (doc : Document) : Bytes × ViewClass :=
  (doc.full, docClass render doc)

variable (render) in
/-- Documents that differ in path or name are all registered. -/
theorem registerDocs_ok (e : ViewEngine) (hnamed : ∀ d ∈ docs, d.Named)
    (hdistinct : docs.Pairwise fun d d' => (d.path, d.name) ≠ (d'.path, d'.name))
    (hhelper : ∀ d ∈ docs, d.type ≠ .helper) (hnew : ∀ d ∈ docs, ∀ v ∈ e.views, v.1 ≠ d.full) :
    registerDocs render e docs = .ok { e with views := e.views ++ docs.map (docEntry render) } := by
  induction docs generalizing e with
  | nil =>
    rw [List.map_nil, List.append_nil]
    rfl
  | cons d docs ih =>
    rw [List.forall_mem_cons] at hnamed hhelper hnew
    rw [List.pairwise_cons] at hdistinct
    have hreg : e.registerViewGenerator (docDir d.path ++ d.name) (docClass render d)
        = .ok { e with views := e.views ++ [docEntry render d] } := by
      unfold ViewEngine.registerViewGenerator
      rw [if_neg]
      · rfl
      · simp only [List.any_eq_true, decide_eq_true_eq, not_exists, not_and]
        exact hnew.1
    rw [registerDocs, if_neg hhelper.1, hreg]
    refine (ih { e with views := e.views ++ [docEntry render d] } hnamed.2 hdistinct.2 hhelper.2 ?_).trans ?_
    · intro d' hd' v hv
      rcases List.mem_append.1 hv with hold | hd
      · exact hnew.2 d' hd' v hold
      · rw [List.mem_singleton.1 hd]
        exact fun heq => hdistinct.1 d' hd' (full_injective hnamed.1 (hnamed.2 d' hd') heq)
    · simp only [List.append_assoc, List.map_cons, List.singleton_append]

theorem viewKinds_last {kind : Bytes} (h : kind ∈ viewKinds) : kind = [] ∨ kind.getLast? = some 47 := by
  revert kind
  decide

/-- A directory and the kind of directory in it. -/
theorem append_kind_last {rp kind : Bytes} (hrp : rp = [] ∨ rp.getLast? = some 47)
    (hkind : kind ∈ viewKinds) : rp ++ kind = [] ∨ (rp ++ kind).getLast? = some 47 := by
  rcases viewKinds_last hkind with rfl | hlast
  · rw [List.append_nil]
    exact hrp
  · have hne : kind ≠ [] := by
      rintro rfl
      cases hlast
    rw [List.getLast?_append_of_ne_nil _ hne]
    exact .inr hlast

theorem isAt_docEntry {name rp : Bytes} {d : Document} (hd : d.Named) (hname : 47 ∉ name)
    (hrp : rp = [] ∨ rp.getLast? = some 47) :
    IsAt name rp (docEntry render d) ↔ Candidate name rp d := by
  unfold IsAt namesAt Candidate
  rw [List.mem_map]
  constructor
  · rintro ⟨kind, hkind, heq⟩
    obtain ⟨hdir, hname'⟩ :=
      lastSep_injective hd.docDir_slash (append_kind_last hrp hkind) hd.name_noSlash hname heq.symm
    exact ⟨hname', kind, hkind, hdir⟩
  · rintro ⟨hname', kind, hkind, hdir⟩
    refine ⟨kind, hkind, ?_⟩
    show rp ++ kind ++ name = docDir d.path ++ d.name
    rw [hdir, hname']

theorem docClass_injective {d d' : Document} (hd : d.Named) (hd' : d'.Named)
    (h : docClass render d = docClass render d') : (d.path, d.name) = (d'.path, d'.name) := by
  have habs : d.absPath = d'.absPath := congrArg ViewClass.absPath h
  have hcolon {d : Document} (hd : d.Named) : 58 ∉ d.full := by
    intro hmem
    rcases hd.fullChar 58 hmem with halnum | hslash
    · exact absurd halnum (by decide)
    · cases hslash
  have hns {d : Document} : (d.ns ++ bytes "::").getLast? = some 58 := by
    have hsep : bytes "::" = [58, 58] := by decide
    rw [hsep, List.getLast?_append_of_ne_nil _ (List.cons_ne_nil _ _)]
    rfl
  rw [hd.absPath, hd'.absPath, List.append_assoc, List.append_assoc (d'.ns ++ bytes "::")] at habs
  exact full_injective hd hd' (lastSep_injective (.inr hns) (.inr hns) (hcolon hd) (hcolon hd') habs).2

/-- What the engine finds is the document its search finds. -/
theorem findGenerator_docs {e : ViewEngine} {path : Bytes} {d : Document} (hnamed : ∀ d ∈ docs, d.Named)
    (hdistinct : docs.Pairwise fun d d' => (d.path, d.name) ≠ (d'.path, d'.name))
    (hviews : e.views.Perm (docs.map (docEntry render))) (hone : OneCandidate docs path) (hd : d ∈ docs) :
    e.findGenerator path = .ok (some (docClass render d)) ↔
      searchTiers (Candidate (viewName path)) id docs (viewDirs path) = some d := by
  have hat (rp : Bytes) (hrp : rp ∈ viewDirs path) (d : Document) (hd : d ∈ docs) :
      IsAt (viewName path) rp (docEntry render d) ↔ Candidate (viewName path) rp d :=
    isAt_docEntry (hnamed d hd) (viewName_noSlash path) (viewDirs_last hrp)
  have hsearch : searchTiers (IsAt (viewName path)) Prod.snd e.views (viewDirs path)
      = (searchTiers (Candidate (viewName path)) id docs (viewDirs path)).map (docClass render) := by
    have hmap : searchTiers (IsAt (viewName path)) Prod.snd (docs.map (docEntry render)) (viewDirs path)
        = (searchTiers (Candidate (viewName path)) id docs (viewDirs path)).map (docClass render) :=
      searchTiers_map hat fun _ => rfl
    rw [← hmap, searchTiers_perm hviews]
    intro rp hrp v hv v' hv' hp hp'
    obtain ⟨d, hd, rfl⟩ := List.mem_map.1 hv
    obtain ⟨d', hd', rfl⟩ := List.mem_map.1 hv'
    rw [hone rp hrp d hd d' hd' ((hat rp hrp d hd).1 hp) ((hat rp hrp d' hd').1 hp')]
  by_cases hpath : path = []
  · -- no document is without a name
    have hnone : searchTiers (Candidate (viewName path)) id docs (viewDirs path) = none := by
      rw [searchTiers_eq_none]
      rintro rp - d hd ⟨hname, -⟩
      obtain ⟨c, cs, hcs, -⟩ := (hnamed d hd).name
      rw [hpath, hcs] at hname
      cases hname
    rw [hnone, ViewEngine.findGenerator, if_pos hpath]
    exact ⟨fun h => (by cases h), fun h => (by cases h)⟩
  · rw [findGenerator_eq e hpath, hsearch]
    constructor
    · intro h
      obtain ⟨d', hd', heq⟩ := Option.map_eq_some_iff.1 (Except.ok.inj h)
      obtain ⟨-, -, a, ha, -, rfl⟩ := searchTiers_some hd'
      have hsame := docClass_injective (hnamed a ha) (hnamed d hd) heq
      have had : a = d := by
        by_contra hne
        have hsymm : Std.Symm fun d d' : Document => (d.path, d.name) ≠ (d'.path, d'.name) :=
          ⟨fun _ _ h => h.symm⟩
        exact hdistinct.forall ha hd hne hsame
      rw [hd', ← had]
      rfl
    · intro h
      rw [h]
      rfl

end Engine

/-! ## The precompiler -/

/-- The document has the name, and its path is the directory or one of the three in it. -/
def PathCandidate (name rp : Bytes) (doc : Document) : Prop :=
  doc.name = name ∧ ∃ kind ∈ viewKinds, doc.path = rp ++ kind

instance (name : Bytes) : DecidableRel (PathCandidate name) := fun _ _ => instDecidableAnd

section Precompiler

variable {docs : List Document}

theorem viewName_trailing {ref : Bytes} (h : ref.getLast? = some 47) :
    viewName ref = [] ∧ viewName (ref.drop 1) = [] := by
  obtain ⟨pre, rfl⟩ := List.getLast?_eq_some_iff.1 h
  refine ⟨viewName_slash pre [], ?_⟩
  cases pre with
  | nil => rfl
  | cons c pre => exact viewName_slash pre []

theorem searchTiers_noName {p : Bytes → Bytes → Document → Prop} [∀ name, DecidableRel (p name)]
    (hp : ∀ name rp d, p name rp d → d.name = name) (hnamed : ∀ d ∈ docs, d.Named) (dirs : List Bytes) :
    searchTiers (p []) id docs dirs = none := by
  rw [searchTiers_eq_none]
  intro rp _ d hd hcand
  obtain ⟨c, cs, hcs, -⟩ := (hnamed d hd).name
  rw [hp [] rp d hcand] at hcs
  cases hcs

/-- What the search among the documents of the name finds. -/
theorem findSome?_named (name : Bytes) (rp : Bytes) :
    ((docs.filter fun d => d.name = name).findSome? fun d =>
      if d.path = rp ∨ d.path = rp ++ bytes "partials/" ∨ d.path = rp ++ bytes "layouts/"
          ∨ d.path = rp ++ bytes "helpers/" then
        some d
      else none) = docs.findSome? fun d => if PathCandidate name rp d then some (id d) else none := by
  have hkind (d : Document) : (∃ kind ∈ viewKinds, d.path = rp ++ kind) ↔
      d.path = rp ∨ d.path = rp ++ bytes "partials/" ∨ d.path = rp ++ bytes "layouts/"
        ∨ d.path = rp ++ bytes "helpers/" := by
    simp [viewKinds]
  induction docs with
  | nil => rfl
  | cons d docs ih =>
    rw [List.findSome?_cons, List.filter_cons]
    by_cases hname : d.name = name
    · rw [if_pos (by simpa using hname), List.findSome?_cons, ih]
      by_cases hdir : d.path = rp ∨ d.path = rp ++ bytes "partials/" ∨ d.path = rp ++ bytes "layouts/"
          ∨ d.path = rp ++ bytes "helpers/"
      · rw [if_pos hdir, if_pos ⟨hname, (hkind d).2 hdir⟩]
        rfl
      · rw [if_neg hdir, if_neg fun hcand => hdir ((hkind d).1 hcand.2)]
    · rw [if_neg (by simpa using hname), ih, if_neg fun hcand => hname hcand.1]

/-- The last part of a reference is that of the path it is put behind. -/
theorem viewName_behind {path : Bytes} (hslash : path.getLast? = some 47) (ref : Bytes) :
    viewName (path ++ ref) = viewName ref := by
  obtain ⟨pre, rfl⟩ := List.getLast?_eq_some_iff.1 hslash
  rw [List.append_assoc]
  exact viewName_slash pre ref

/-- What the precompiler finds is the document its search finds, behind the path of the document. -/
theorem astFind_docs {doc d : Document} {ref : Bytes} (hnamed : ∀ d ∈ docs, d.Named) (hdoc : doc.Named) :
    astFind docs doc ref = .ok d ↔
      searchTiers (PathCandidate (viewName ref)) id docs (viewDirs (doc.path ++ ref)) = some d := by
  have hnoName (hname : viewName ref = []) :
      searchTiers (PathCandidate (viewName ref)) id docs (viewDirs (doc.path ++ ref)) = none := by
    rw [hname]
    exact searchTiers_noName (fun _ _ _ hcand => hcand.1) hnamed _
  unfold astFind
  by_cases href : ref = []
  · rw [if_pos href, hnoName (by rw [href]; rfl)]
    exact ⟨fun h => (by cases h), fun h => (by cases h)⟩
  · rw [if_neg href]
    by_cases hlast : ref.getLast? = some 47
    · obtain ⟨hname, hdrop⟩ := viewName_trailing hlast
      have hds : (docs.filter fun d => d.name = viewName (ref.drop 1)) = [] := by
        rw [hdrop, List.filter_eq_nil_iff]
        intro d hd
        obtain ⟨c, cs, hcs, -⟩ := (hnamed d hd).name
        simp [hcs]
      unfold viewName at hds
      simp only [if_pos hlast, hds, if_pos]
      rw [hnoName hname]
      exact ⟨fun h => (by cases h), fun h => (by cases h)⟩
    · have hsearch : (List.range ((doc.path ++ ref).splitOn 47).length).reverse.findSome? (fun i =>
          (docs.filter fun d => d.name = ((doc.path ++ ref).splitOn 47).getLastD []).findSome? fun d =>
            if d.path = (((doc.path ++ ref).splitOn 47).take i).flatMap (fun part => part ++ bytes "/")
                ∨ d.path = (((doc.path ++ ref).splitOn 47).take i).flatMap (fun part => part ++ bytes "/")
                  ++ bytes "partials/"
                ∨ d.path = (((doc.path ++ ref).splitOn 47).take i).flatMap (fun part => part ++ bytes "/")
                  ++ bytes "layouts/"
                ∨ d.path = (((doc.path ++ ref).splitOn 47).take i).flatMap (fun part => part ++ bytes "/")
                  ++ bytes "helpers/" then
              some d
            else none)
          = searchTiers (PathCandidate (viewName ref)) id docs (viewDirs (doc.path ++ ref)) := by
        rw [← viewName_behind hdoc.slash ref]
        unfold searchTiers viewDirs viewName
        rw [List.findSome?_map]
        exact congrArg (List.findSome? · _) (funext fun i => findSome?_named _ _)
      simp only [if_neg hlast]
      rw [hsearch]
      by_cases hds : (docs.filter fun d => d.name = ((doc.path ++ ref).splitOn 47).getLastD []) = []
      · have hnone : searchTiers (PathCandidate (viewName ref)) id docs (viewDirs (doc.path ++ ref)) = none := by
          rw [searchTiers_eq_none]
          rintro rp - d hd ⟨hname, -⟩
          rw [← viewName_behind hdoc.slash ref] at hname
          have hmem := List.filter_eq_nil_iff.1 hds d hd
          exact hmem (decide_eq_true hname)
        rw [if_pos hds, hnone]
        exact ⟨fun h => (by cases h), fun h => (by cases h)⟩
      · rw [if_neg hds]
        cases searchTiers (PathCandidate (viewName ref)) id docs (viewDirs (doc.path ++ ref)) with
        | none => exact ⟨fun h => (by cases h), fun h => (by cases h)⟩
        | some d' => exact ⟨fun h => congrArg some (Except.ok.inj h), fun h => congrArg Except.ok (Option.some.inj h)⟩

/-! ## The two readings -/

/-- A path of a document is the root, or it does not begin with a `/`. -/
theorem Document.Named.path_head {d : Document} (h : d.Named) (hroot : d.path ≠ bytes "/") :
    ∃ c cs, d.path = c :: cs ∧ c ≠ 47 := by
  obtain ⟨c, cs, hcs, hstart, -⟩ := h.path.resolve_left hroot
  refine ⟨c, cs, hcs, ?_⟩
  rintro rfl
  exact absurd hstart (by decide)

/-- Below the root the two ways to compare agree. -/
theorem pathCandidate_below {name rp : Bytes} {d : Document} {c : UInt8} {cs : Bytes} (hrp : rp = c :: cs)
    (hc : c ≠ 47) : PathCandidate name rp d ↔ Candidate name rp d := by
  have hkind (kind : Bytes) : d.path = rp ++ kind ↔ docDir d.path = rp ++ kind := by
    unfold docDir
    split
    · next hroot =>
      have hslash : bytes "/" = [47] := by decide
      rw [hroot, hslash, hrp]
      constructor
      · intro heq
        exact absurd (List.cons.inj heq).1.symm hc
      · intro heq
        cases heq
    · rfl
  unfold PathCandidate Candidate
  simp only [hkind]

/-- A candidate at a level other than the root is not in the root. -/
theorem Candidate.not_root {name rp : Bytes} {d : Document} (h : Candidate name rp d) (hrp : rp ≠ []) :
    d.path ≠ bytes "/" := by
  obtain ⟨-, kind, -, hdir⟩ := h
  intro hroot
  rw [docDir, if_pos hroot] at hdir
  exact hrp (List.append_eq_nil_iff.1 hdir.symm).1

theorem belowDirs_ne {path rp : Bytes} (h : rp ∈ belowDirs path) : rp ≠ [] := by
  rcases path_cases path with hnone | ⟨part, rest, hpart, rfl⟩
  · rw [belowDirs, viewDirs_of_noSlash hnone] at h
    cases h
  · rw [belowDirs_slash hpart] at h
    obtain ⟨rp, -, rfl⟩ := List.mem_map.1 h
    have hslash : bytes "/" = [47] := by decide
    simp [hslash]

theorem nearest_some {path : Bytes} {d : Document} (h : nearest docs path = some d) :
    d ∈ docs ∧ d.name = viewName path ∧ d.path ≠ bytes "/" := by
  obtain ⟨rp, hrp, d', hd', hcand, rfl⟩ := searchTiers_some h
  exact ⟨hd', hcand.1, hcand.not_root (belowDirs_ne hrp)⟩

/-- The documents of the name in the `partials`, `layouts` or `helpers` of the root. -/
def topDoc (docs : List Document) (name : Bytes) : Option Document :=
  searchTiers (PathCandidate name) id docs [[]]

/-- The document of the name in the root. -/
def rootDoc (docs : List Document) (name : Bytes) : Option Document :=
  searchTiers (PathCandidate name) id docs [bytes "/"]

theorem pathCandidate_top {name : Bytes} {d : Document} (hd : d.Named) :
    PathCandidate name [] d ↔ d.name = name ∧ InTop d := by
  have hne : d.path ≠ [] := by
    intro hnil
    have hslash := hd.slash
    rw [hnil] at hslash
    cases hslash
  unfold PathCandidate InTop
  simp [viewKinds, hne]

theorem pathCandidate_root {name : Bytes} {d : Document} (hd : d.Named) :
    PathCandidate name (bytes "/") d ↔ d.name = name ∧ d.path = bytes "/" := by
  have hslash : bytes "/" = [47] := by decide
  unfold PathCandidate
  refine and_congr_right fun _ => ⟨?_, fun hroot => ⟨[], by decide, by rw [hroot]; rfl⟩⟩
  rintro ⟨kind, -, hpath⟩
  by_contra hroot
  obtain ⟨c, cs, hcs, hc⟩ := hd.path_head hroot
  rw [hcs, hslash] at hpath
  exact hc (List.cons.inj hpath).1

/-- From a document below the root the precompiler sees what is below the root, and what is in the
    `partials`, `layouts` or `helpers` of the root. -/
theorem astSearch_below {doc : Document} (hdoc : doc.Named) (hroot : doc.path ≠ bytes "/") (ref : Bytes) :
    searchTiers (PathCandidate (viewName ref)) id docs (viewDirs (doc.path ++ ref))
      = (nearest docs (doc.path ++ ref)).or (topDoc docs (viewName ref)) := by
  rw [viewDirs_eq, searchTiers_append, nearest, viewName_behind hdoc.slash]
  refine congrArg (Option.or · _) (searchTiers_congr fun rp hrp d _ => ?_)
  obtain ⟨c, cs, hcs, hc⟩ := hdoc.path_head hroot
  rcases path_cases (doc.path ++ ref) with hnone | ⟨part, rest, hpart, heq⟩
  · rw [belowDirs, viewDirs_of_noSlash hnone] at hrp
    cases hrp
  · rw [heq, belowDirs_slash hpart] at hrp
    obtain ⟨rp, -, rfl⟩ := List.mem_map.1 hrp
    rw [hcs] at heq
    cases part with
    | nil => exact absurd (List.cons.inj heq).1 hc
    | cons b part =>
      cases (List.cons.inj heq).1
      exact pathCandidate_below rfl hc

/-- From a document in the root the precompiler sees what is in the root, and in the `partials`, `layouts`
    or `helpers` of it. -/
theorem astSearch_root {doc : Document} (hnamed : ∀ d ∈ docs, d.Named) (hroot : doc.path = bytes "/")
    (ref : Bytes) :
    searchTiers (PathCandidate (viewName ref)) id docs (viewDirs (doc.path ++ ref))
        = (rootDoc docs (viewName ref)).or (topDoc docs (viewName ref)) ∧
      nearest docs (doc.path ++ ref) = none := by
  have hslash : bytes "/" = [47] := by decide
  have hpath : doc.path ++ ref = [] ++ 47 :: ref := by rw [hroot, hslash]; rfl
  have hdirs : belowDirs (doc.path ++ ref) = (belowDirs ref).map (bytes "/" ++ ·) ++ [bytes "/"] := by
    rw [hpath, belowDirs_slash List.not_mem_nil, viewDirs_eq ref, List.map_append]
    rfl
  -- no path of a document begins with a `/` and goes on
  have hlevel {d : Document} (hd : d ∈ docs) {rp kind : Bytes} (hrp : rp ≠ []) :
      d.path ≠ bytes "/" ++ rp ++ kind := by
    intro heq
    by_cases hdroot : d.path = bytes "/"
    · rw [hdroot, List.append_assoc, List.self_eq_append_right] at heq
      exact hrp (List.append_eq_nil_iff.1 heq).1
    · obtain ⟨c, cs, hcs, hc⟩ := (hnamed d hd).path_head hdroot
      rw [hcs, hslash] at heq
      exact hc (List.cons.inj heq).1
  constructor
  · rw [viewDirs_eq, hdirs, List.append_assoc, searchTiers_append, searchTiers_append]
    have hnone : searchTiers (PathCandidate (viewName ref)) id docs
        ((belowDirs ref).map (bytes "/" ++ ·)) = none := by
      rw [searchTiers_eq_none]
      rintro _ hrp d hd ⟨-, kind, -, hkind⟩
      obtain ⟨rp, hbelow, rfl⟩ := List.mem_map.1 hrp
      exact hlevel hd (belowDirs_ne hbelow) hkind
    rw [hnone]
    rfl
  · rw [nearest, searchTiers_eq_none, hdirs]
    rintro rp hrp d hd ⟨-, kind, -, hkind⟩
    have hne : docDir d.path ≠ bytes "/" ++ kind := by
      unfold docDir
      split
      · simp [hslash]
      · next hdroot =>
        obtain ⟨c, cs, hcs, hc⟩ := (hnamed d hd).path_head hdroot
        rw [hcs, hslash]
        exact fun heq => hc (List.cons.inj heq).1
    rcases List.mem_append.1 hrp with hbelow | hlast
    · obtain ⟨rp, hrp', rfl⟩ := List.mem_map.1 hbelow
      unfold docDir at hkind
      split at hkind
      · rw [hslash] at hkind
        cases hkind
      · exact hlevel hd (belowDirs_ne hrp') hkind
    · rw [List.mem_singleton.1 hlast] at hkind
      exact hne hkind

/-- From the empty directory the engine sees the root and the three directories in it. -/
theorem candidate_empty {name : Bytes} {d : Document} (hd : d.Named) :
    Candidate name [] d ↔ d.name = name ∧ (d.path = bytes "/" ∨ InTop d) := by
  unfold Candidate
  refine and_congr_right fun hname => ?_
  by_cases hroot : d.path = bytes "/"
  · rw [docDir, if_pos hroot]
    exact ⟨fun _ => .inl hroot, fun _ => ⟨[], by decide, rfl⟩⟩
  · rw [docDir, if_neg hroot, or_iff_right hroot, ← and_iff_right (a := d.name = name) (b := InTop d) hname,
      ← pathCandidate_top hd, PathCandidate, and_iff_right hname]

/-- What is seen from the root, if there is one document at most. -/
theorem emptySearch (hnamed : ∀ d ∈ docs, d.Named) {name : Bytes}
    (hone : ∀ d ∈ docs, ∀ d' ∈ docs, Candidate name [] d → Candidate name [] d' → d = d') :
    searchTiers (Candidate name) id docs [[]] = (rootDoc docs name).or (topDoc docs name) := by
  cases hroot : rootDoc docs name with
  | some d =>
    obtain ⟨rp, hrp, d', hd', hcand, rfl⟩ := searchTiers_some hroot
    rw [List.mem_singleton.1 hrp, pathCandidate_root (hnamed d' hd')] at hcand
    have hat : Candidate name [] d' := (candidate_empty (hnamed d' hd')).2 ⟨hcand.1, .inl hcand.2⟩
    exact searchTiers_single hd' hat fun b hb hpb => hone b hb d' hd' hpb hat
  | none =>
    have hnot := searchTiers_eq_none.1 hroot
    simp only [List.mem_singleton, forall_eq] at hnot
    refine searchTiers_congr fun rp hrp d hd => ?_
    rw [List.mem_singleton.1 hrp, candidate_empty (hnamed d hd), pathCandidate_top (hnamed d hd)]
    refine and_congr_right fun hname => or_iff_right fun hdroot => ?_
    exact hnot d hd ((pathCandidate_root (hnamed d hd)).2 ⟨hname, hdroot⟩)

/-- A document in the root's `partials`, `layouts` or `helpers` is what is seen from the root, if that is
    one document at most. -/
theorem topDoc_of_inTop (hnamed : ∀ d ∈ docs, d.Named) {name : Bytes}
    (hone : ∀ d ∈ docs, ∀ d' ∈ docs, Candidate name [] d → Candidate name [] d' → d = d') {d : Document}
    (hd : d ∈ docs) (hname : d.name = name) (htop : InTop d) :
    topDoc docs name = some d ∧ rootDoc docs name = none := by
  have hat : Candidate name [] d := (candidate_empty (hnamed d hd)).2 ⟨hname, .inr htop⟩
  constructor
  · refine searchTiers_single hd ((pathCandidate_top (hnamed d hd)).2 ⟨hname, htop⟩) fun b hb hpb => ?_
    obtain ⟨hbname, hbtop⟩ := (pathCandidate_top (hnamed b hb)).1 hpb
    exact hone b hb d hd ((candidate_empty (hnamed b hb)).2 ⟨hbname, .inr hbtop⟩) hat
  · rw [rootDoc, searchTiers_eq_none]
    rintro rp hrp b hb hpb
    rw [List.mem_singleton.1 hrp, pathCandidate_root (hnamed b hb)] at hpb
    have hbd := hone b hb d hd ((candidate_empty (hnamed b hb)).2 ⟨hpb.1, .inl hpb.2⟩) hat
    rw [← hbd] at htop
    unfold InTop at htop
    rw [hpb.2] at htop
    exact absurd htop (by decide)

theorem topDoc_some (hnamed : ∀ d ∈ docs, d.Named) {name : Bytes} {d : Document}
    (h : topDoc docs name = some d) : d ∈ docs ∧ d.name = name ∧ InTop d := by
  obtain ⟨rp, hrp, d', hd', hcand, rfl⟩ := searchTiers_some h
  rw [List.mem_singleton.1 hrp, pathCandidate_top (hnamed d' hd')] at hcand
  exact ⟨hd', hcand.1, hcand.2⟩

theorem rootDoc_some (hnamed : ∀ d ∈ docs, d.Named) {name : Bytes} {d : Document}
    (h : rootDoc docs name = some d) : d ∈ docs ∧ d.name = name ∧ d.path = bytes "/" := by
  obtain ⟨rp, hrp, d', hd', hcand, rfl⟩ := searchTiers_some h
  rw [List.mem_singleton.1 hrp, pathCandidate_root (hnamed d' hd')] at hcand
  exact ⟨hd', hcand.1, hcand.2⟩

/-- The reference has the same last part for the engine. -/
theorem viewName_resolveRef {doc : Document} (hdoc : doc.Named) (ref : Bytes) :
    viewName (resolveRef doc ref) = viewName ref := by
  unfold resolveRef
  split
  · next hhead =>
    cases ref with
    | nil => cases hhead
    | cons c ref =>
      cases hhead
      exact (viewName_slash [] ref).symm
  · rcases hdoc.docDir_slash with hnil | hslash
    · rw [hnil]
      rfl
    · exact viewName_behind hslash ref

/-- The document nearest to one of the readings, if only one has a nearest document, is what the other
    search finds exactly if it is seen from the root. -/
theorem some_eq_seen {name : Bytes} (hnamed : ∀ d ∈ docs, d.Named)
    (hone : ∀ d ∈ docs, ∀ d' ∈ docs, Candidate name [] d → Candidate name [] d' → d = d') {d : Document}
    (hd : d ∈ docs) (hname : d.name = name) (hroot : d.path ≠ bytes "/") :
    (some d = (rootDoc docs name).or (topDoc docs name) ↔ InTop d) ∧
      (some d = topDoc docs name ↔ InTop d) := by
  have hseen (htop : InTop d) := topDoc_of_inTop hnamed hone hd hname htop
  refine ⟨⟨fun heq => ?_, fun htop => ?_⟩, fun heq => (topDoc_some hnamed heq.symm).2.2, fun htop => ?_⟩
  · cases hrootDoc : rootDoc docs name with
    | some d' =>
      rw [hrootDoc] at heq
      cases heq
      exact absurd (rootDoc_some hnamed hrootDoc).2.2 hroot
    | none =>
      rw [hrootDoc] at heq
      exact (topDoc_some hnamed heq.symm).2.2
  · rw [(hseen htop).2, (hseen htop).1]
    rfl
  · rw [(hseen htop).1]

end Precompiler

/-! ## Results -/

/-- **The precompiler and the engine find the same document exactly if the nearest documents of their
readings of the reference are the same, or are seen from the root where only one has any, and if nothing
is to be seen in the root where none has.** -/
theorem finds_agree_iff (render : Document → List ViewOp) (ns : Bytes) {docs : List Document}
    {doc : Document} {ref : Bytes} (hdocs : ∀ d ∈ docs, d.Accepted) (hdoc : doc.Accepted)
    (hdistinct : docs.Pairwise fun d d' => (d.path, d.name) ≠ (d'.path, d'.name))
    (hhelper : ∀ d ∈ docs, d.type ≠ .helper) (hone : OneCandidate docs (resolveRef doc ref)) :
    ∃ e₀, registerDocs render ⟨ns, []⟩ docs = .ok e₀ ∧
      ∀ e : ViewEngine, e.views.Perm e₀.views →
        ((∀ d ∈ docs, astFind docs doc ref = .ok d ↔
            e.findGenerator (resolveRef doc ref) = .ok (some (docClass render d))) ↔
          SameNearest docs doc ref) := by
  have hnamed : ∀ d ∈ docs, d.Named := fun d hd => (hdocs d hd).named
  have hreg := registerDocs_ok render ⟨ns, []⟩ hnamed hdistinct hhelper (by simp)
  refine ⟨_, hreg, fun e hviews => ?_⟩
  have hname := viewName_resolveRef hdoc.named ref
  have honeRoot : ∀ d ∈ docs, ∀ d' ∈ docs, Candidate (viewName ref) [] d →
      Candidate (viewName ref) [] d' → d = d' := by
    intro d hd d' hd' hcand hcand'
    rw [← hname] at hcand hcand'
    exact hone [] (by rw [viewDirs_eq]; simp) d hd d' hd' hcand hcand'
  -- both searches as options
  have hengine : searchTiers (Candidate (viewName (resolveRef doc ref))) id docs
      (viewDirs (resolveRef doc ref)) = (nearest docs (resolveRef doc ref)).or
        ((rootDoc docs (viewName ref)).or (topDoc docs (viewName ref))) := by
    rw [viewDirs_eq, searchTiers_append, nearest, hname, emptySearch hnamed honeRoot]
  have hagree : (∀ d ∈ docs, astFind docs doc ref = .ok d ↔
      e.findGenerator (resolveRef doc ref) = .ok (some (docClass render d))) ↔
      searchTiers (PathCandidate (viewName ref)) id docs (viewDirs (doc.path ++ ref))
        = (nearest docs (resolveRef doc ref)).or
          ((rootDoc docs (viewName ref)).or (topDoc docs (viewName ref))) := by
    rw [← hengine]
    constructor
    · intro hall
      have hmem {p : Bytes → Document → Prop} [DecidableRel p] {dirs : List Bytes}
          {d : Document} (h : searchTiers p id docs dirs = some d) : d ∈ docs := by
        obtain ⟨-, -, d', hd', -, rfl⟩ := searchTiers_some h
        exact hd'
      refine Option.ext fun d => ⟨fun h => ?_, fun h => ?_⟩
      · have hd := hmem h
        exact (findGenerator_docs hnamed hdistinct hviews hone hd).1
          ((hall d hd).1 ((astFind_docs hnamed hdoc.named).2 h))
      · have hd := hmem h
        exact (astFind_docs hnamed hdoc.named).1
          ((hall d hd).2 ((findGenerator_docs hnamed hdistinct hviews hone hd).2 h))
    · intro heq d hd
      rw [astFind_docs hnamed hdoc.named, findGenerator_docs hnamed hdistinct hviews hone hd, heq]
  rw [hagree]
  unfold SameNearest
  have hseen {path : Bytes} (hpath : viewName path = viewName ref) {d : Document}
      (hd : nearest docs path = some d) :=
    some_eq_seen hnamed honeRoot (nearest_some hd).1 ((nearest_some hd).2.1.trans hpath) (nearest_some hd).2.2
  by_cases hroot : doc.path = bytes "/"
  · obtain ⟨hsearch, hnear⟩ := astSearch_root hnamed hroot ref
    rw [hsearch, hnear]
    cases hrun : nearest docs (resolveRef doc ref) with
    | none => exact ⟨fun _ => .inl hroot, fun _ => rfl⟩
    | some d => exact eq_comm.trans (hseen hname hrun).1
  · rw [astSearch_below hdoc.named hroot]
    cases hnear : nearest docs (doc.path ++ ref) with
    | some d =>
      cases hrun : nearest docs (resolveRef doc ref) with
      | some d' => exact Option.some_inj
      | none => exact (hseen (viewName_behind hdoc.named.slash ref) hnear).1
    | none =>
      cases hrun : nearest docs (resolveRef doc ref) with
      | some d => exact eq_comm.trans (hseen hname hrun).2
      | none =>
        show topDoc docs (viewName ref) = (rootDoc docs (viewName ref)).or (topDoc docs (viewName ref)) ↔ _
        rw [or_iff_right hroot]
        cases hrootDoc : rootDoc docs (viewName ref) with
        | some d =>
          obtain ⟨hd, hdname, hdpath⟩ := rootDoc_some hnamed hrootDoc
          refine ⟨fun heq => ?_, fun hall => absurd ⟨hdpath, hdname⟩ (hall d hd)⟩
          have htop := (topDoc_some hnamed heq).2.2
          unfold InTop at htop
          rw [hdpath] at htop
          exact absurd htop (by decide)
        | none =>
          refine ⟨fun _ d hd hat => ?_, fun _ => rfl⟩
          have hnot := searchTiers_eq_none.1 hrootDoc _ List.mem_cons_self d hd
          exact hnot ((pathCandidate_root (hnamed d hd)).2 ⟨hat.2, hat.1⟩)

theorem oneCandidate_single (d : Document) (path : Bytes) : OneCandidate [d] path := by
  intro rp _ a ha b hb _ _
  rw [List.mem_singleton.1 ha, List.mem_singleton.1 hb]

/-- A view in `a/`, a partial beside it, and a view with the name of the partial in the root. -/
def nearDocs : List Document := [sampleDoc "a/" "b", sampleDoc "a/partials/" "c", sampleDoc "/" "c"]

/-- `c` from `a/b` is the partial for both. -/
theorem finds_agree_sample :
    (∃ e₀, registerDocs (fun _ => []) ⟨bytes "app", []⟩ nearDocs = .ok e₀ ∧
      ∀ e : ViewEngine, e.views.Perm e₀.views →
        ((∀ d ∈ nearDocs, astFind nearDocs (sampleDoc "a/" "b") (bytes "c") = .ok d ↔
            e.findGenerator (resolveRef (sampleDoc "a/" "b") (bytes "c"))
              = .ok (some (docClass (fun _ => []) d))) ↔
          SameNearest nearDocs (sampleDoc "a/" "b") (bytes "c"))) ∧
    astFind nearDocs (sampleDoc "a/" "b") (bytes "c") = .ok (sampleDoc "a/partials/" "c") := by
  have haccepted : (sampleDoc "a/" "b").Accepted := sampleDoc_accepted (by decide +kernel)
  have hdocs : ∀ d ∈ nearDocs, d.Accepted := by
    intro d hd
    simp only [nearDocs, List.mem_cons, List.not_mem_nil, or_false] at hd
    rcases hd with rfl | rfl | rfl
    · exact haccepted
    · exact sampleDoc_accepted (by decide +kernel)
    · exact sampleDoc_accepted (by decide +kernel)
  have hone : OneCandidate nearDocs (resolveRef (sampleDoc "a/" "b") (bytes "c")) := by
    unfold OneCandidate
    decide +kernel
  exact ⟨finds_agree_iff _ _ hdocs haccepted (by decide +kernel) (by decide +kernel) hone, by decide +kernel⟩

/-- A view in the root is not found by the precompiler from a document below the root. -/
theorem finds_disagree :
    ¬ ∀ (render : Document → List ViewOp) (ns : Bytes) (docs : List Document) (doc : Document) (ref : Bytes),
      (∀ d ∈ docs, d.Accepted) → doc.Accepted →
      (docs.Pairwise fun d d' => (d.path, d.name) ≠ (d'.path, d'.name)) → (∀ d ∈ docs, d.type ≠ .helper) →
      OneCandidate docs (resolveRef doc ref) →
      ∃ e₀, registerDocs render ⟨ns, []⟩ docs = .ok e₀ ∧
        ∀ e : ViewEngine, e.views.Perm e₀.views →
          ∀ d ∈ docs, astFind docs doc ref = .ok d ↔
            e.findGenerator (resolveRef doc ref) = .ok (some (docClass render d)) := by
  intro hall
  obtain ⟨e₀, hreg, hagree⟩ := hall (fun _ => []) (bytes "app") [sampleDoc "/" "x"] (sampleDoc "a/" "b")
    (bytes "x") (by
      intro d hd
      rw [List.mem_singleton.1 hd]
      exact sampleDoc_accepted (by decide +kernel))
    (sampleDoc_accepted (by decide +kernel)) (List.pairwise_singleton _ _) (by
      intro d hd
      rw [List.mem_singleton.1 hd]
      decide +kernel) (oneCandidate_single _ _)
  have he₀ : e₀ = ⟨bytes "app", [(bytes "x", docClass (fun _ => []) (sampleDoc "/" "x"))]⟩ := by
    refine Except.ok.inj (hreg.symm.trans ?_)
    decide +kernel
  have hfound : e₀.findGenerator (resolveRef (sampleDoc "a/" "b") (bytes "x"))
      = .ok (some (docClass (fun _ => []) (sampleDoc "/" "x"))) := by
    rw [he₀]
    decide +kernel
  have hmissing : ¬ astFind [sampleDoc "/" "x"] (sampleDoc "a/" "b") (bytes "x") = .ok (sampleDoc "/" "x") := by
    decide +kernel
  exact hmissing ((hagree e₀ (List.Perm.refl _) _ List.mem_cons_self).2 hfound)

end Fanjet

end LibEvmvc
