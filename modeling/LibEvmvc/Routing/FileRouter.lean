import LibEvmvc.Routing.Dispatch

set_option autoImplicit false

/-! # Files below a directory

A `file_router` appends what is left of the URL to its directory, makes the path canonical and serves
the file there, if there is one. Nothing compares the canonical path with the directory, so `..` in
the URL leads out of it, as far up as one likes.

What is left of a URL can climb some steps up and then go down some names (`climb`); it stays in the
directory exactly if it goes down the same names again that it went up. -/

namespace LibEvmvc

/-- The components of the directory a `file_router` serves. -/
def servedDir (base : Bytes) : List Bytes := resolveDots [] (components base)

/-- The rest of a URL does not climb out of a directory, or comes back to it by its own name. -/
def StaysIn (dir : List Bytes) (rest : Bytes) : Prop :=
  dir.drop (dir.length - (climb (components (cstr rest))).1) <+: (climb (components (cstr rest))).2

instance (dir : List Bytes) (rest : Bytes) : Decidable (StaysIn dir rest) :=
  inferInstanceAs (Decidable (_ <+: _))

section FileRouter

variable {env : DispatchEnv} {heap : List RouterT}

/-- A URL that comes to a `file_router` is looked up there, whatever its first character is. -/
theorem Follows.resolveUrl_file {collapse : Bytes → Bytes} (hl : Linked heap)
    (hnorm : NormalPaths collapse heap) {root i : Nat} {r : RouterT} (hr : heap[root]? = some r)
    (hroot : r.path = bytes "/") {url rest base : Bytes} (hurl : url ≠ [])
    (h : Follows env heap root (url.drop 1) i rest) (hfile : env.basePath i = some base)
    (method : Bytes) {fuel : Nat} (hfuel : url.length + 2 ≤ fuel) :
    env.resolveUrl heap fuel root method url = .ok (env.fileResult i base rest) := by
  have hone : r.path.length = 1 := by
    rw [hroot]
    rfl
  have hlen : r.path.length ≤ url.length := by
    rw [hone]
    exact List.length_pos_iff.2 hurl
  obtain ⟨fuel, rfl⟩ : ∃ k, fuel = k + 1 := ⟨fuel - 1, by omega⟩
  cases h with
  | file _ => rw [DispatchEnv.resolveUrl_file hr hfile hlen, hone]
  | own hplain _ =>
    rw [hplain] at hfile
    cases hfile
  | @child _ c _ _ _ rc hplain hbest hnext =>
    have hcut := List.take_append_drop rc.path.length (url.drop 1)
    rw [← List.prefix_iff_eq_take.1 hbest.fits.1] at hcut
    obtain ⟨ri, hri⟩ := hnext.router hbest.child.1
    rw [DispatchEnv.resolveUrl_child hl hr hplain hlen (by rw [hone]; exact hbest), hone, ← hcut,
      hnext.resolveUrl hl hnorm hbest.child.1 hri method
        (by simp only [List.length_drop]; omega), DispatchEnv.answer, hfile]

/-- The file that is served, seen from the directory. -/
theorem resolveDots_appendPath (base rest : Bytes) :
    resolveDots [] (components (appendPath base (cstr rest)))
      = resolveDots (servedDir base) (components (cstr rest)) := by
  rw [components_appendPath, resolveDots_append]
  rfl

/-- **What is served for a URL lies in the directory exactly if there is nothing to be served, or the
    rest of the URL does not climb out of the directory.** -/
theorem served_inside_iff (env : DispatchEnv) {collapse : Bytes → Bytes} {heap : List RouterT}
    (hb : Built collapse heap) {root i : Nat} {r : RouterT} (hr : heap[root]? = some r)
    (hroot : r.path = bytes "/") {url rest base : Bytes} (hurl : url ≠ [])
    (hto : Follows env heap root (url.drop 1) i rest) (hfile : env.basePath i = some base)
    (method : Bytes) {fuel : Nat} (hfuel : url.length + 2 ≤ fuel) :
    (∀ j filePath localUrl, env.resolveUrl heap fuel root method url
        = .ok (some (.file j filePath localUrl)) → servedDir base <+: filePath) ↔
      env.pathExists (appendPath base (cstr rest)) = false ∨ StaysIn (servedDir base) rest := by
  obtain ⟨hl, hnorm⟩ := hb.linked
  rw [hto.resolveUrl_file hl hnorm hr hroot hurl hfile method hfuel, StaysIn,
    ← isPrefix_resolveDots, ← resolveDots_appendPath]
  unfold DispatchEnv.fileResult DispatchEnv.canonical
  cases hexists : env.pathExists (appendPath base (cstr rest)) with
  | false => simp
  | true =>
    constructor
    · intro h
      exact .inr (h i _ rest rfl)
    · rintro (hno | hin) j filePath localUrl hres
      · cases hno
      · cases hres
        exact hin

end FileRouter

/-- The root, and a router at `html/` to be registered under it. -/
def fileRouters : List RouterT := [rootRouter, plainRouter (bytes "html/") (by decide)]

/-- The second router serves the files of `/srv/html`, and every file exists. -/
def fileDispatch : DispatchEnv :=
  { plainDispatch with
    basePath := fun i => if i = 1 then some (bytes "/srv/html") else none
    pathExists := fun _ => true }

theorem built_fileRouters : Built id (registerStep .merge fileRouters ⟨0, 1⟩) := by
  refine ⟨.merge, fileRouters, [⟨0, 1⟩], ?_, ?_, ⟨?_, trivial⟩, rfl⟩
  · intro r hr
    simp only [fileRouters, List.mem_cons, List.not_mem_nil, or_false] at hr
    rcases hr with rfl | rfl <;> exact ⟨rfl, rfl, rfl⟩
  · intro i r hr
    have hmem := List.mem_of_getElem? hr
    simp only [fileRouters, List.mem_cons, List.not_mem_nil, or_false] at hmem
    rcases hmem with rfl | rfl
    · exact ⟨bytes "", rfl⟩
    · exact ⟨bytes "/html", rfl⟩
  · rintro r c other hr hc - hget
    cases hr
    cases hget

/-- A URL below `/html/` comes to the second router. -/
theorem follows_fileRouters (rest : Bytes) (hne : rest ≠ []) :
    Follows fileDispatch (registerStep .merge fileRouters ⟨0, 1⟩) 0 (bytes "html/" ++ rest) 1 rest := by
  have hlen : 0 < rest.length := List.length_pos_iff.2 hne
  have hbest : BestChild (registerStep .merge fileRouters ⟨0, 1⟩) 0 (bytes "html/" ++ rest) 1
      { plainRouter (bytes "html/") (by decide) with parent := some 0 } := by
    refine ⟨⟨rfl, rfl⟩, ⟨List.prefix_append _ _, ?_⟩, ?_⟩
    · show (bytes "html/").length < _
      rw [List.length_append]
      omega
    · rintro c' rc' ⟨hrc, hparent⟩ -
      match c' with
      | 0 =>
        cases hrc
        cases hparent
      | 1 =>
        cases hrc
        exact Nat.le_refl _
      | n + 2 => cases hrc
  refine .child rfl hbest ?_
  show Follows _ _ 1 ((bytes "html/" ++ rest).drop (bytes "html/").length) 1 rest
  rw [List.drop_left]
  exact .file rfl

/-- `/html/a/../b` is served from the directory. -/
theorem served_inside_sample :
    StaysIn (servedDir (bytes "/srv/html")) (bytes "a/../b") ∧
    ∀ j filePath localUrl,
      fileDispatch.resolveUrl (registerStep .merge fileRouters ⟨0, 1⟩) 16 0 (bytes "GET")
        (bytes "/html/a/../b") = .ok (some (.file j filePath localUrl)) →
      servedDir (bytes "/srv/html") <+: filePath := by
  have hstays : StaysIn (servedDir (bytes "/srv/html")) (bytes "a/../b") := by decide
  have hto : Follows fileDispatch (registerStep .merge fileRouters ⟨0, 1⟩) 0
      ((bytes "/html/a/../b").drop 1) 1 (bytes "a/../b") :=
    follows_fileRouters (bytes "a/../b") (by decide)
  exact ⟨hstays, (served_inside_iff fileDispatch built_fileRouters rfl rfl (by decide) hto rfl
    (bytes "GET") (by decide)).2 (.inr hstays)⟩

/-- `/html/../passwd` is `/srv/passwd`. -/
theorem dotdot_escapes :
    ¬ ∀ (env : DispatchEnv) (collapse : Bytes → Bytes) (heap : List RouterT) (root i : Nat)
      (r : RouterT) (url rest base method : Bytes) (fuel : Nat), Built collapse heap →
      heap[root]? = some r → r.path = bytes "/" → url ≠ [] →
      Follows env heap root (url.drop 1) i rest → env.basePath i = some base →
      url.length + 2 ≤ fuel →
      ∀ j filePath localUrl, env.resolveUrl heap fuel root method url
        = .ok (some (.file j filePath localUrl)) → servedDir base <+: filePath := by
  intro hall
  have hto : Follows fileDispatch (registerStep .merge fileRouters ⟨0, 1⟩) 0
      ((bytes "/html/../passwd").drop 1) 1 (bytes "../passwd") :=
    follows_fileRouters (bytes "../passwd") (by decide)
  obtain ⟨hl, hnorm⟩ := built_fileRouters.linked
  have hres := hto.resolveUrl_file hl hnorm rfl rfl (by decide) rfl (bytes "GET")
    (Nat.le_refl 17)
  have hin := hall fileDispatch id _ 0 1 _ (bytes "/html/../passwd") (bytes "../passwd")
    (bytes "/srv/html") (bytes "GET") 17 built_fileRouters rfl rfl (by decide) hto rfl
    (Nat.le_refl 17) 1 [bytes "srv", bytes "passwd"] (bytes "../passwd") hres
  revert hin
  decide

end LibEvmvc
