import LibEvmvc.Foundation.Chains
import LibEvmvc.Views.Partials
import Mathlib.Data.List.Chain

set_option autoImplicit false

/-! # The layouts of a view

`render_view` follows the layouts from the view it is asked for: each layout is looked for by its name,
next to the requested path first, and is given the view before it as its body. Nothing gets smaller on
the way, and what was found is never looked at again: the loop ends exactly if no layout that it comes
to leads back to itself. -/

namespace LibEvmvc

/-! ## The loop -/

/-- A view that was made, and its `_body`. -/
inductive ViewInst where
  | mk (view : View) (body : Option ViewInst)

def ViewInst.view : ViewInst → View
  | .mk view _ => view

def ViewInst.body : ViewInst → Option ViewInst
  | .mk _ body => body

/-- The loop of `render_view`: `views` are those it has, and `tv` is the last one it has found. -/
def layoutLoop (env : ViewEnv) (e : ViewEngine) (path : Bytes) :
    Nat → List ViewInst → ViewInst → Option (Except ViewErr (List ViewInst))
  | 0, _, _ => none
  | fuel + 1, views, tv =>
    if tv.view.cls.layout = [] then some (.ok views)
    else
      match findLayout env e path tv.view.cls.layout with
      | .error err => some (.error err)
      | .ok none => some (.ok views)
      | .ok (some v) =>
        let tv := ViewInst.mk v views.getLast?
        layoutLoop env e path fuel (views ++ [tv]) tv

/-- `fanjet::view_engine::render_view` up to the rendering: the views, or nothing if there is no view
    at the path and the callback is told so. -/
def ViewEngine.viewChain (env : ViewEnv) (fuel : Nat) (e : ViewEngine) (path : Bytes) :
    Option (Except ViewErr (Option (List ViewInst))) :=
  match e.findGenerator path with
  | .error err => some (.error err)
  | .ok none => some (.ok none)
  | .ok (some cls) =>
    let v := ViewInst.mk ⟨e, cls⟩ none
    (layoutLoop env e path fuel [v] v).map fun r => r.map some

/-- The view has the one before it as its body. -/
def ViewInst.Encloses (before v : ViewInst) : Prop := v.body = some before

/-- A view's layout, for the requested path. -/
def LayoutOf (env : ViewEnv) (e : ViewEngine) (path : Bytes) (v w : View) : Prop :=
  v.cls.layout ≠ [] ∧ findLayout env e path v.cls.layout = .ok (some w)

section Loop

variable {env : ViewEnv} {e : ViewEngine} {path : Bytes}

variable (env e path) in
/-- The views are those of `layouts`. -/
theorem layoutLoop_views (fuel : Nat) (views : List ViewInst) (tv : ViewInst) :
    (layoutLoop env e path fuel views tv).map (fun r => r.map (List.map ViewInst.view))
      = (layouts env e path fuel tv.view).map fun r => r.map (views.map ViewInst.view ++ ·) := by
  induction fuel generalizing views tv with
  | zero => rfl
  | succ fuel ih =>
    rw [layoutLoop, layouts]
    split
    · simp [Except.map]
    · cases findLayout env e path tv.view.cls.layout with
      | error err => rfl
      | ok found =>
        cases found with
        | none => simp [Except.map]
        | some v =>
          dsimp only
          rw [ih, Option.map_map]
          refine congrArg (Option.map · _) (funext fun r => ?_)
          cases r with
          | error err => rfl
          | ok vs => simp [Except.map, ViewInst.view]

theorem layoutLoop_isSome (fuel : Nat) (views : List ViewInst) (tv : ViewInst) :
    (∃ r, layoutLoop env e path fuel views tv = some r) ↔ ∃ r, layouts env e path fuel tv.view = some r := by
  have hviews := congrArg Option.isSome (layoutLoop_views env e path fuel views tv)
  rw [Option.isSome_map, Option.isSome_map] at hviews
  rw [← Option.isSome_iff_exists, ← Option.isSome_iff_exists, hviews]

/-- Every view but the first has the one before it as its body. -/
theorem layoutLoop_encloses (fuel : Nat) {views vs : List ViewInst} {tv : ViewInst}
    (hviews : views.IsChain ViewInst.Encloses)
    (h : layoutLoop env e path fuel views tv = some (.ok vs)) : vs.IsChain ViewInst.Encloses := by
  induction fuel generalizing views tv with
  | zero => cases h
  | succ fuel ih =>
    rw [layoutLoop] at h
    split at h
    · cases h
      exact hviews
    · cases hfind : findLayout env e path tv.view.cls.layout with
      | error err =>
        rw [hfind] at h
        cases h
      | ok found =>
        rw [hfind] at h
        cases found with
        | none =>
          cases h
          exact hviews
        | some v =>
          refine ih ?_ h
          rw [List.isChain_append]
          refine ⟨hviews, List.isChain_singleton _, ?_⟩
          intro before hbefore w hw
          cases hw
          exact Option.mem_def.1 hbefore

/-- The loop ends from the views from which all chains of layouts do. -/
theorem layouts_ends_iff (tv : View) :
    (∃ fuel r, layouts env e path fuel tv = some r) ↔ Halts (LayoutOf env e path) tv := by
  constructor
  · rintro ⟨fuel, r, hr⟩
    induction fuel generalizing tv r with
    | zero => cases hr
    | succ fuel ih =>
      refine halts_of_step fun w hw => ?_
      rw [layouts, if_neg hw.1, hw.2] at hr
      obtain ⟨r', hr', -⟩ := Option.map_eq_some_iff.1 hr
      exact ih w r' hr'
  · intro h
    induction h with
    | intro tv _ ih =>
      by_cases hlayout : tv.cls.layout = []
      · exact ⟨1, _, by rw [layouts, if_pos hlayout]⟩
      · cases hfind : findLayout env e path tv.cls.layout with
        | error err => exact ⟨1, _, by rw [layouts, if_neg hlayout, hfind]⟩
        | ok found =>
          cases found with
          | none => exact ⟨1, _, by rw [layouts, if_neg hlayout, hfind]⟩
          | some w =>
            obtain ⟨fuel, r, hr⟩ := ih w ⟨hlayout, hfind⟩
            exact ⟨fuel + 1, _, by rw [layouts, if_neg hlayout, hfind]; dsimp only; rw [hr]; rfl⟩

end Loop

/-! ## There are finitely many views -/

/-- The views that are registered in one of the engines. -/
def registeredViews (engines : List ViewEngine) : List View :=
  engines.flatMap fun e => e.views.map fun v => ⟨e, v.2⟩

theorem findGenerator_mem {e : ViewEngine} {path : Bytes} {cls : ViewClass}
    (h : e.findGenerator path = .ok (some cls)) : ∃ v ∈ e.views, v.2 = cls := by
  unfold ViewEngine.findGenerator at h
  split at h
  · cases h
  · obtain ⟨i, -, hi⟩ := List.exists_of_findSome?_eq_some (Except.ok.inj h)
    obtain ⟨v, hv, hval⟩ := List.exists_of_findSome?_eq_some hi
    split at hval
    · exact ⟨v, hv, Option.some.inj hval⟩
    · cases hval

theorem getView_mem {e : ViewEngine} {path : Bytes} {v : View} (h : e.getView path = .ok (some v)) :
    v ∈ registeredViews [e] := by
  unfold ViewEngine.getView at h
  cases hgen : e.findGenerator path with
  | error err =>
    rw [hgen] at h
    cases h
  | ok found =>
    rw [hgen] at h
    obtain ⟨cls, hcls, rfl⟩ := Option.map_eq_some_iff.1 (Except.ok.inj h)
    obtain ⟨w, hw, rfl⟩ := findGenerator_mem (hgen.trans (congrArg Except.ok hcls))
    simp only [registeredViews, List.flatMap_cons, List.flatMap_nil, List.append_nil]
    exact List.mem_map.2 ⟨w, hw, rfl⟩

theorem findEngine_mem {engines : List (Bytes × ViewEngine)} {ns vpath : Bytes} {e : ViewEngine}
    (h : findEngine engines ns vpath = .ok (some e)) : e ∈ engines.map Prod.snd := by
  unfold findEngine at h
  split at h
  · obtain ⟨l, r, rfl, -⟩ := List.lookup_eq_some_iff.1 (Except.ok.inj h)
    simp
  · induction engines with
    | nil => cases h
    | cons e' engines ih =>
      rw [List.foldr_cons] at h
      cases hgen : e'.2.findGenerator vpath with
      | error err =>
        rw [hgen] at h
        cases h
      | ok found =>
        rw [hgen] at h
        cases found with
        | none => exact List.mem_cons_of_mem _ (ih h)
        | some cls =>
          cases Option.some.inj (Except.ok.inj h)
          exact List.mem_cons_self

theorem registeredViews_subset {engines : List ViewEngine} {e : ViewEngine} (he : e ∈ engines) {v : View}
    (h : v ∈ registeredViews [e]) : v ∈ registeredViews engines := by
  simp only [registeredViews, List.flatMap_cons, List.flatMap_nil, List.append_nil] at h
  exact List.mem_flatMap.2 ⟨e, he, h⟩

/-- A layout that is found is registered in one of the engines. -/
theorem findLayout_mem {env : ViewEnv} {e : ViewEngine} {path s : Bytes} {v : View}
    (h : findLayout env e path s = .ok (some v)) :
    v ∈ registeredViews (e :: env.engines.map Prod.snd) := by
  unfold findLayout at h
  cases hns : rfindNs s with
  | none =>
    rw [hns] at h
    have hself {w : View} (hw : w ∈ registeredViews [e]) :
        w ∈ registeredViews (e :: env.engines.map Prod.snd) :=
      registeredViews_subset List.mem_cons_self hw
    dsimp only at h
    generalize hrel : e.getView _ = rel at h
    cases rel with
    | error err => cases h
    | ok found =>
      cases found with
      | none => exact hself (getView_mem h)
      | some w =>
        cases Option.some.inj (Except.ok.inj h)
        exact hself (getView_mem hrel)
  | some p =>
    rw [hns] at h
    dsimp only at h
    unfold viewEngineGet at h
    dsimp only at h
    generalize hengine : findEngine env.engines _ _ = engine at h
    cases engine with
    | error err => cases h
    | ok found =>
      cases found with
      | none => cases h
      | some e' =>
        exact registeredViews_subset (List.mem_cons_of_mem _ (findEngine_mem hengine)) (getView_mem h)

theorem layoutOf_finite (env : ViewEnv) (e : ViewEngine) (path : Bytes) (v : View) :
    {w | Relation.ReflTransGen (LayoutOf env e path) v w}.Finite := by
  refine (List.finite_toSet (v :: registeredViews (e :: env.engines.map Prod.snd))).subset ?_
  intro w hw
  rcases hw.cases_tail with rfl | ⟨u, -, hlayout⟩
  · exact List.mem_cons_self
  · exact List.mem_cons_of_mem _ (findLayout_mem hlayout.2)

/-! ## Results -/

/-- The views of `viewChain` are those of `locate`. -/
theorem viewChain_views (env : ViewEnv) (fuel : Nat) (e : ViewEngine) (path : Bytes) {vs : List View} :
    e.locate env fuel path = some (.views vs) ↔
      ∃ views, e.viewChain env fuel path = some (.ok (some views)) ∧ views.map ViewInst.view = vs := by
  unfold ViewEngine.locate ViewEngine.viewChain
  cases e.findGenerator path with
  | error err => simp
  | ok found =>
    cases found with
    | none => simp
    | some cls =>
      have hviews := layoutLoop_views env e path fuel [.mk ⟨e, cls⟩ none]
        (.mk ⟨e, cls⟩ none)
      generalize hloop : layoutLoop env e path fuel [.mk ⟨e, cls⟩ none] (.mk ⟨e, cls⟩ none) = loop at hviews
      have hview : (ViewInst.mk ⟨e, cls⟩ none).view = ⟨e, cls⟩ := rfl
      rw [hview] at hviews
      dsimp only
      rw [hloop]
      generalize layouts env e path fuel ⟨e, cls⟩ = all at hviews ⊢
      cases loop with
      | none =>
        cases all with
        | none => simp
        | some r => cases hviews
      | some loop =>
        cases all with
        | none => cases hviews
        | some r =>
          have hmap := Option.some.inj hviews
          cases r with
          | error err =>
            cases loop with
            | error err' => simp [Except.map]
            | ok views => cases hmap
          | ok ws =>
            cases loop with
            | error err' => cases hmap
            | ok views =>
              have hws : views.map ViewInst.view = ⟨e, cls⟩ :: ws := Except.ok.inj hmap
              simp [Except.map, hws]

/-- **The loop over the layouts of a view comes to an end, with each view as the body of the next, exactly
if no layout that is reached from the view leads back to itself.** -/
theorem viewChain_ends_iff (env : ViewEnv) (e : ViewEngine) (path : Bytes) :
    (∃ fuel r, e.viewChain env fuel path = some r ∧
      ∀ views, r = .ok (some views) → views.IsChain ViewInst.Encloses) ↔
    ∀ cls, e.findGenerator path = .ok (some cls) → Acyclic (LayoutOf env e path) ⟨e, cls⟩ := by
  unfold ViewEngine.viewChain
  cases e.findGenerator path with
  | error err =>
    refine ⟨fun _ cls h => ?_, fun _ => ⟨0, _, rfl, fun views h => ?_⟩⟩
    · cases h
    · cases h
  | ok found =>
    cases found with
    | none =>
      refine ⟨fun _ cls h => ?_, fun _ => ⟨0, _, rfl, fun views h => ?_⟩⟩
      · cases h
      · cases h
    | some cls =>
      have hends := halts_iff_acyclic (layoutOf_finite env e path ⟨e, cls⟩)
      dsimp only
      constructor
      · rintro ⟨fuel, r, hr, -⟩ cls' hcls'
        cases hcls'
        obtain ⟨loop, hloop, -⟩ := Option.map_eq_some_iff.1 hr
        rw [← hends, ← layouts_ends_iff]
        exact ⟨fuel, (layoutLoop_isSome fuel _ _).1 ⟨loop, hloop⟩⟩
      · intro hacyclic
        obtain ⟨fuel, hlayouts⟩ := (layouts_ends_iff _).2 (hends.2 (hacyclic cls rfl))
        obtain ⟨loop, hloop⟩ := (layoutLoop_isSome fuel [.mk ⟨e, cls⟩ none] (.mk ⟨e, cls⟩ none)).2 hlayouts
        refine ⟨fuel, _, by rw [hloop]; rfl, ?_⟩
        intro views hviews
        cases loop with
        | error err => cases hviews
        | ok vs =>
          cases hviews
          exact layoutLoop_encloses fuel (List.isChain_singleton _) hloop

/-- An engine with one view, which is its own layout. -/
def ownLayout : ViewEngine := ⟨bytes "ns", [(bytes "a", ⟨[], bytes "a", bytes "a", []⟩)]⟩

/-- From a view that is its own layout the loop does not come to an end. -/
theorem viewChain_endless :
    ¬ ∃ fuel r, ownLayout.viewChain ⟨[], id, firstError⟩ fuel (bytes "a") = some r ∧
      ∀ views, r = .ok (some views) → views.IsChain ViewInst.Encloses := by
  rintro ⟨fuel, r, hr, -⟩
  let a : View := ⟨ownLayout, ⟨[], bytes "a", bytes "a", []⟩⟩
  have hgen : ownLayout.findGenerator (bytes "a") = .ok (some a.cls) := by decide +kernel
  have hlayout : LayoutOf ⟨[], id, firstError⟩ ownLayout (bytes "a") a a :=
    ⟨by decide, by decide +kernel⟩
  unfold ViewEngine.viewChain at hr
  rw [hgen] at hr
  obtain ⟨loop, hloop, -⟩ := Option.map_eq_some_iff.1 hr
  have hends := (layouts_ends_iff a).1 ⟨fuel, (layoutLoop_isSome fuel _ _).1 ⟨loop, hloop⟩⟩
  exact hends.not_cyclic (Relation.TransGen.single hlayout)

end LibEvmvc
