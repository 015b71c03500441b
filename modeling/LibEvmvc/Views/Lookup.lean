import LibEvmvc.Foundation.Search
import LibEvmvc.Views.Partials

set_option autoImplicit false

/-! # The order in which views are looked for

`find_generator` says it looks for a view in the directory of the path and then in those above it, and
in each of them in the directory itself, in `partials`, in `layouts` and in `helpers`. The directories
are an outer loop. But the loop in it is one over all views that are registered, which compares each with
the four names: of two views in one directory the one is found that comes first in the map. -/

namespace LibEvmvc

/-! ## The places that are searched -/

/-- The last part of a path. -/
def viewName (path : Bytes) : Bytes := (path.splitOn 47).getLastD []

/-- The directories of a path, from the longest to the empty one. -/
def viewDirs (path : Bytes) : List Bytes :=
  let parts := path.splitOn 47
  (List.range parts.length).reverse.map fun i => (parts.take i).flatMap fun part => part ++ bytes "/"

/-- The kinds of directories a view can be in. -/
def viewKinds : List Bytes := [[], bytes "partials/", bytes "layouts/", bytes "helpers/"]

/-- The names of a view at one level, in the order they are meant to be looked for. -/
def namesAt (name rp : Bytes) : List Bytes := viewKinds.map fun kind => rp ++ kind ++ name

/-- The first view that exists, in the order of the directories and then of the kinds. -/
def firstView (views : List (Bytes × ViewClass)) (path : Bytes) : Option ViewClass :=
  (viewDirs path).findSome? fun rp => (namesAt (viewName path) rp).findSome? fun key => views.lookup key

/-- The view is one of those the directory is searched for. -/
def IsAt (name rp : Bytes) (v : Bytes × ViewClass) : Prop := v.1 ∈ namesAt name rp

instance (name : Bytes) : DecidableRel (IsAt name) := fun _ _ => List.instDecidableMemOfLawfulBEq _ _

/-- In the first directory of the path that has such a view, all such views are made by the same
    generator. -/
def ViewEngine.OneKind (e : ViewEngine) (path : Bytes) : Prop :=
  OneInFirst (IsAt (viewName path)) Prod.snd e.views (viewDirs path)

/-- `register_view_generator`. -/
def ViewEngine.registerViewGenerator (e : ViewEngine) (viewPath : Bytes) (vg : ViewClass) :
    Except ViewErr ViewEngine :=
  if e.views.any fun v => v.1 = viewPath then
    .error (bytes "Engine 'fanjet' view '" ++ e.ns ++ bytes "::" ++ viewPath ++
      bytes "' is already registered!")
  else .ok { e with views := e.views ++ [(viewPath, vg)] }

/-! ## The parts of a path -/

theorem viewName_slash (dir rest : Bytes) : viewName (dir ++ 47 :: rest) = viewName rest := by
  unfold viewName
  rw [List.splitOn_append_cons_self]
  rw [List.getLastD_eq_getLast?, List.getLastD_eq_getLast?,
    List.getLast?_append_of_ne_nil _ (List.splitOn_ne_nil 47 rest)]

theorem viewName_of_noSlash {name : Bytes} (h : 47 ∉ name) : viewName name = name := by
  unfold viewName
  rw [List.splitOn_eq_singleton h]
  rfl

theorem viewDirs_of_noSlash {name : Bytes} (h : 47 ∉ name) : viewDirs name = [[]] := by
  unfold viewDirs
  rw [List.splitOn_eq_singleton h]
  rfl

theorem viewDirs_slash {part : Bytes} (h : 47 ∉ part) (rest : Bytes) :
    viewDirs (part ++ 47 :: rest) = (viewDirs rest).map (part ++ bytes "/" ++ ·) ++ [[]] := by
  unfold viewDirs
  rw [List.splitOn_append_cons_self_of_not_mem h]
  simp only [List.length_cons, List.range_succ_eq_map, List.reverse_cons, List.map_append, List.map_map,
    List.map_reverse, List.map_cons, List.map_nil, List.take_zero, List.flatMap_nil]
  rfl

/-- The directories of a path but the empty one, which is the last. -/
def belowDirs (path : Bytes) : List Bytes := (viewDirs path).dropLast

/-- A path has no `/`, or a first part. -/
theorem path_cases (path : Bytes) :
    47 ∉ path ∨ ∃ part rest, 47 ∉ part ∧ path = part ++ 47 :: rest := by
  by_cases h : 47 ∈ path
  · obtain ⟨part, rest, rfl, hpart⟩ := List.eq_append_cons_of_mem h
    exact .inr ⟨part, rest, hpart, rfl⟩
  · exact .inl h

theorem viewDirs_eq (path : Bytes) : viewDirs path = belowDirs path ++ [[]] := by
  unfold belowDirs
  rcases path_cases path with h | ⟨part, rest, hpart, rfl⟩
  · rw [viewDirs_of_noSlash h]
    rfl
  · rw [viewDirs_slash hpart, List.dropLast_concat]

theorem belowDirs_slash {part : Bytes} (h : 47 ∉ part) (rest : Bytes) :
    belowDirs (part ++ 47 :: rest) = (viewDirs rest).map (part ++ bytes "/" ++ ·) := by
  rw [belowDirs, viewDirs_slash h, List.dropLast_concat]

theorem viewName_noSlash (path : Bytes) : 47 ∉ viewName path := by
  induction hn : path.length using Nat.strong_induction_on generalizing path with
  | _ n ih =>
    rcases path_cases path with h | ⟨part, rest, -, rfl⟩
    · rw [viewName_of_noSlash h]
      exact h
    · rw [viewName_slash]
      refine ih rest.length ?_ rest rfl
      rw [← hn, List.length_append, List.length_cons]
      omega

/-- A directory is the empty one, or it ends with a `/`. -/
theorem viewDirs_last {path rp : Bytes} (h : rp ∈ viewDirs path) : rp = [] ∨ rp.getLast? = some 47 := by
  obtain ⟨i, -, rfl⟩ := List.mem_map.1 h
  rcases List.eq_nil_or_concat ((path.splitOn 47).take i) with hnil | ⟨parts, part, hparts⟩
  · rw [hnil]
    exact .inl rfl
  · have hslash : bytes "/" = [47] := by decide
    rw [hparts, List.concat_eq_append, List.flatMap_append, List.flatMap_cons, List.flatMap_nil, hslash,
      List.append_nil, ← List.append_assoc]
    exact .inr List.getLast?_concat

/-! ## What is found -/

theorem isAt_iff {name rp : Bytes} {v : Bytes × ViewClass} :
    IsAt name rp v ↔ v.1 = rp ++ name ∨ v.1 = rp ++ bytes "partials/" ++ name
      ∨ v.1 = rp ++ bytes "layouts/" ++ name ∨ v.1 = rp ++ bytes "helpers/" ++ name := by
  simp only [IsAt, namesAt, viewKinds, List.map_cons, List.map_nil, List.mem_cons, List.not_mem_nil,
    or_false, List.append_nil]

/-- `find_generator` searches the directories as tiers. -/
theorem findGenerator_eq (e : ViewEngine) {path : Bytes} (hpath : path ≠ []) :
    e.findGenerator path
      = .ok (searchTiers (IsAt (viewName path)) Prod.snd e.views (viewDirs path)) := by
  unfold ViewEngine.findGenerator searchTiers viewDirs viewName
  rw [if_neg hpath, List.findSome?_map]
  have htest (name rp : Bytes) (v : Bytes × ViewClass) :
      (if v.1 = rp ++ name ∨ v.1 = rp ++ bytes "partials/" ++ name
          ∨ v.1 = rp ++ bytes "layouts/" ++ name ∨ v.1 = rp ++ bytes "helpers/" ++ name
        then some v.2 else none) = if IsAt name rp v then some v.2 else none :=
    if_congr isAt_iff.symm rfl rfl
  simp only [Function.comp_def, htest]

theorem viewLookup_eq_none {views : List (Bytes × ViewClass)} {key : Bytes} :
    views.lookup key = none ↔ ∀ v ∈ views, v.1 ≠ key := by
  rw [List.lookup_eq_none_iff]
  refine forall₂_congr fun v _ => ?_
  rw [bne_iff_ne, ne_comm]

theorem mem_of_lookup {views : List (Bytes × ViewClass)} {key : Bytes} {cls : ViewClass}
    (h : views.lookup key = some cls) : (key, cls) ∈ views := by
  obtain ⟨l, r, rfl, -⟩ := List.lookup_eq_some_iff.1 h
  simp

theorem namesAt_none {views : List (Bytes × ViewClass)} {name rp : Bytes} :
    ((namesAt name rp).findSome? fun key => views.lookup key) = none ↔ ∀ v ∈ views, ¬ IsAt name rp v := by
  rw [List.findSome?_eq_none_iff]
  constructor
  · exact fun h v hv hat => viewLookup_eq_none.1 (h v.1 hat) v hv rfl
  · intro h key hkey
    rw [viewLookup_eq_none]
    rintro v hv rfl
    exact h v hv hkey

theorem namesAt_some {views : List (Bytes × ViewClass)} {name rp : Bytes} {cls : ViewClass}
    (h : ((namesAt name rp).findSome? fun key => views.lookup key) = some cls) :
    ∃ v ∈ views, IsAt name rp v ∧ v.2 = cls := by
  obtain ⟨key, hkey, hlookup⟩ := List.exists_of_findSome?_eq_some h
  exact ⟨(key, cls), mem_of_lookup hlookup, hkey, rfl⟩

/-- **In whatever order the map hands out the views, the first view in the order of the directories and
the kinds is found, exactly if no directory decides between views of two kinds.** -/
theorem findGenerator_order_iff (e : ViewEngine) {path : Bytes} (hpath : path ≠ []) :
    (∀ views : List (Bytes × ViewClass), views.Perm e.views →
      ({ e with views } : ViewEngine).findGenerator path = .ok (firstView e.views path))
    ↔ e.OneKind path := by
  unfold ViewEngine.OneKind firstView
  rw [← searchTiers_perm_iff (viewDirs path) (fun _ => namesAt_none) (fun _ _ => namesAt_some)]
  refine forall₂_congr fun views _ => ?_
  rw [findGenerator_eq _ hpath]
  exact ⟨fun h => Except.ok.inj h, fun h => congrArg Except.ok h⟩

/-- A view of the given name. -/
def plainView (name : String) : ViewClass := ⟨[], bytes name, [], []⟩

/-- The view `a` and the partial `a`. -/
def twoKinds : ViewEngine :=
  ⟨bytes "ns", [(bytes "partials/a", plainView "partials/a"), (bytes "a", plainView "a")]⟩

/-- A partial in the directory `b`, and a view above it. -/
def twoDirs : ViewEngine :=
  ⟨bytes "ns", [(bytes "a", plainView "a"), (bytes "b/partials/a", plainView "b/partials/a")]⟩

/-- Each directory has one view, so the one of the directory is found before the one above it. -/
theorem findGenerator_order_one :
    (∀ views : List (Bytes × ViewClass), views.Perm twoDirs.views →
      ({ twoDirs with views } : ViewEngine).findGenerator (bytes "b/a")
        = .ok (firstView twoDirs.views (bytes "b/a"))) ∧
    firstView twoDirs.views (bytes "b/a") = some (plainView "b/partials/a") := by
  have hone : twoDirs.OneKind (bytes "b/a") := by
    have hsame : ∀ rp ∈ viewDirs (bytes "b/a"), ∀ v ∈ twoDirs.views, ∀ w ∈ twoDirs.views,
        IsAt (viewName (bytes "b/a")) rp v → IsAt (viewName (bytes "b/a")) rp w → v.2 = w.2 := by
      decide +kernel
    intro above rp below hdirs _ v hv w hw
    exact hsame rp (by rw [hdirs]; simp) v hv w hw
  exact ⟨(findGenerator_order_iff twoDirs (by decide)).2 hone, by decide +kernel⟩

/-- With the partial first in the map, it is found in place of the view. -/
theorem findGenerator_misordered :
    ¬ ∀ views : List (Bytes × ViewClass), views.Perm twoKinds.views →
      ({ twoKinds with views } : ViewEngine).findGenerator (bytes "a")
        = .ok (firstView twoKinds.views (bytes "a")) := by
  intro hall
  have hfound : twoKinds.findGenerator (bytes "a") = .ok (some (plainView "partials/a")) := by
    decide +kernel
  have hfirst : firstView twoKinds.views (bytes "a") = some (plainView "a") := by decide +kernel
  have heq := hall twoKinds.views (List.Perm.refl _)
  rw [hfirst] at heq
  cases hfound.symm.trans heq

end LibEvmvc
