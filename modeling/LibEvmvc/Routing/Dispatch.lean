import LibEvmvc.Foundation.FsPath
import LibEvmvc.Http.Headers
import LibEvmvc.Routing.Registry

set_option autoImplicit false

/-! # Dispatching a URL over a tree of routers

`resolve_url` hands what is left of the URL on to the first listed child whose path is a proper prefix
of it. The list has the longest paths first, so that is the child with the longest such path
(`Linked.childPath_best`), and a URL comes to the router one gets to by always following that child
(`Follows`). There the routes of the router are asked, and nobody else's.

The remainder is never empty below the root: the path of a child has to be a *proper* prefix. So the
index of a router, which stands in for an empty remainder, is asked for at the root alone.

A `file_router` overrides `resolve_url`: it looks the rest of the URL up in its directory. -/

namespace LibEvmvc

/-- `router_t::_norm_path`; `collapse` is `md::replace_substring(p, "//", "")`. If it leaves nothing,
    the code reads the last character of an empty text. -/
def normPath (collapse : Bytes → Bytes) (path : Bytes) : Option Bytes :=
  if path = [] ∨ path = bytes "/" then some (bytes "/")
  else
    let p := collapse path
    let p := if p.head? = some 47 then p.drop 1 else p
    match p.getLast? with
    | none => none
    | some c => some (if c = 47 then p else p ++ [47])

/-- What the routers are asked with: how routes match, the order of their map, the directories of
    those that are a `file_router`, and the files there are. -/
structure DispatchEnv where
  accepts : Bytes → Bytes → Bool
  order : IterOrder Bytes RouteNode
  basePath : Nat → Option Bytes
  pathExists : Bytes → Bool

/-- The result of `resolve_url`: a route, or a `file_route_result`. -/
inductive Dispatched where
  | route (res : Resolved)
  | file (router : Nat) (filePath : List Bytes) (localUrl : Bytes)
  deriving DecidableEq, Repr

namespace DispatchEnv

variable (env : DispatchEnv)

/-- `bfs::canonical` where there are no symbolic links. -/
def canonical (p : Bytes) : Option (List Bytes) :=
  if env.pathExists p then some (resolveDots [] (components p)) else none

/-- What `file_router::resolve_url` makes of the URL behind its own path. -/
def fileResult (i : Nat) (base localUrl : Bytes) : Option Dispatched :=
  (env.canonical (appendPath base (cstr localUrl))).map fun filePath => .file i filePath localUrl

/-- `resolve_url`, of a `router_t` or of a `file_router`. -/
def resolveUrl (heap : List RouterT) : Nat → Nat → Bytes → Bytes →
    Except ResolveFault (Option Dispatched)
  | 0, _, _, _ => .error .outOfFuel
  | fuel + 1, i, method, url =>
    match heap[i]? with
    | none => .error .missingRouter
    | some r =>
      if url.length < r.path.length then .error .outOfRange
      else
        match env.basePath i with
        | some base => .ok (env.fileResult i base (url.drop r.path.length))
        | none =>
          match r.childPath (url.drop r.path.length) with
          | some rp =>
            match r.routers.get? rp with
            | none => .error .missingRouter
            | some child => resolveUrl heap fuel child method (url.drop r.path.length)
          | none =>
            match r.findRoute env.accepts env.order method (r.routeUrl url) with
            | some e => .ok (some (.route { router := i, method := method, path := e.1, route := e.2 }))
            | none =>
              if method ≠ methodAll then resolveUrl heap fuel i methodAll url else .ok none

/-- Without a `file_router` it is the `resolve_url` of `router_t`. -/
theorem resolveUrl_plain (hplain : ∀ i, env.basePath i = none) (heap : List RouterT) (fuel i : Nat)
    (method url : Bytes) :
    env.resolveUrl heap fuel i method url
      = (LibEvmvc.resolveUrl env.accepts env.order heap fuel i method url).map
          (Option.map Dispatched.route) := by
  induction fuel generalizing i method url with
  | zero => rfl
  | succ fuel ih =>
    simp only [resolveUrl, LibEvmvc.resolveUrl, hplain, ih]
    cases heap[i]? with
    | none => rfl
    | some r =>
      by_cases hlen : url.length < r.path.length
      · simp only [hlen, if_true]
        rfl
      · simp only [hlen, if_false]
        cases r.childPath (url.drop r.path.length) with
        | some rp => cases hget : r.routers.get? rp with
          | none => simp only [hget]; rfl
          | some child => simp only [hget]
        | none => cases r.findRoute env.accepts env.order method (r.routeUrl url) with
          | some e => rfl
          | none =>
            simp only
            split <;> rfl

end DispatchEnv

/-! ## The child that is followed -/

/-- `c` is a child of `i`. -/
def IsChild (heap : List RouterT) (i c : Nat) (rc : RouterT) : Prop :=
  heap[c]? = some rc ∧ rc.parent = some i

/-- A prefix, but not all of it. -/
def ProperPrefix (p rest : Bytes) : Prop := p <+: rest ∧ p.length < rest.length

/-- The child of `i` with the longest path that is a proper prefix of `rest`. -/
structure BestChild (heap : List RouterT) (i : Nat) (rest : Bytes) (c : Nat) (rc : RouterT) :
    Prop where
  child : IsChild heap i c rc
  fits : ProperPrefix rc.path rest
  longest : ∀ c' rc', IsChild heap i c' rc' → ProperPrefix rc'.path rest →
    rc'.path.length ≤ rc.path.length

instance (p rest : Bytes) : Decidable (ProperPrefix p rest) :=
  inferInstanceAs (Decidable (p <+: rest ∧ p.length < rest.length))

section Children

variable {heap : List RouterT} {i : Nat} {r : RouterT} {rest : Bytes}

theorem childPath_eq_find? (r : RouterT) (rest : Bytes) :
    r.childPath rest = r.routerPaths.find? fun rp => decide (ProperPrefix rp rest) := by
  have hpred : (fun rp : Bytes => decide (rp.length < rest.length) && rp.isPrefixOf rest)
      = fun rp => decide (ProperPrefix rp rest) := by
    funext rp
    rw [Bool.eq_iff_iff, Bool.and_eq_true, decide_eq_true_eq, decide_eq_true_eq,
      List.isPrefixOf_iff_prefix]
    exact and_comm
  unfold RouterT.childPath
  split
  · rw [hpred]
  · next hempty =>
    symm
    rw [List.find?_eq_none]
    intro rp _ hrp
    have hlt := (of_decide_eq_true hrp).2
    omega

/-- The children are listed and stored under their paths. -/
theorem Linked.get?_child (hl : Linked heap) (hr : heap[i]? = some r) {c : Nat} {rc : RouterT}
    (hc : IsChild heap i c rc) : r.routers.get? rc.path = some c ∧ rc.path ∈ r.routerPaths := by
  obtain ⟨-, r', hr', hget⟩ := hl.parent c rc i hc.1 hc.2
  rw [hr] at hr'
  cases hr'
  exact ⟨hget, hl.filed i r rc.path c hr hget⟩

/-- The first listed path that is a proper prefix is the longest one of a child. -/
theorem Linked.childPath_some (hl : Linked heap) (hr : heap[i]? = some r) {rp : Bytes}
    (h : r.childPath rest = some rp) :
    ∃ c rc, BestChild heap i rest c rc ∧ rc.path = rp ∧ r.routers.get? rp = some c := by
  rw [childPath_eq_find?] at h
  obtain ⟨hfits, before, after, hsplit, hbefore⟩ := List.find?_eq_some_iff_append.1 h
  have hlisted : rp ∈ r.routerPaths := by
    rw [hsplit]
    simp
  obtain ⟨c, hget⟩ := Option.isSome_iff_exists.1 (hl.listed i r hr rp hlisted)
  obtain ⟨rc, hrc, hparent, rfl⟩ := hl.child i r rp c hr hget
  refine ⟨c, rc, ⟨⟨hrc, hparent⟩, of_decide_eq_true hfits, ?_⟩, rfl, hget⟩
  intro c' rc' hc' hfits'
  have hmem := (hl.get?_child hr hc').2
  have hsorted := hl.sorted i r hr
  rw [hsplit] at hmem hsorted
  rw [List.pairwise_append, List.pairwise_cons] at hsorted
  rcases List.mem_append.1 hmem with hb | ha
  · have hno := hbefore rc'.path hb
    simp [hfits'] at hno
  · rcases List.mem_cons.1 ha with heq | hafter
    · rw [heq]
    · exact hsorted.2.1.1 rc'.path hafter

theorem Linked.childPath_none (hl : Linked heap) (hr : heap[i]? = some r)
    (h : r.childPath rest = none) {c : Nat} {rc : RouterT} (hc : IsChild heap i c rc) :
    ¬ ProperPrefix rc.path rest := by
  rw [childPath_eq_find?, List.find?_eq_none] at h
  intro hfits
  exact h rc.path (hl.get?_child hr hc).2 (decide_eq_true hfits)

/-- There is one child at most that can be followed. -/
theorem Linked.bestChild_unique (hl : Linked heap) (hr : heap[i]? = some r) {c c' : Nat}
    {rc rc' : RouterT} (h : BestChild heap i rest c rc) (h' : BestChild heap i rest c' rc') :
    c = c' ∧ rc = rc' := by
  have hlen : rc.path.length = rc'.path.length :=
    Nat.le_antisymm (h'.longest c rc h.child h.fits) (h.longest c' rc' h'.child h'.fits)
  have hpath : rc.path = rc'.path := by
    rw [List.prefix_iff_eq_take.1 h.fits.1, List.prefix_iff_eq_take.1 h'.fits.1, hlen]
  have hget := (hl.get?_child hr h.child).1
  rw [hpath, (hl.get?_child hr h'.child).1] at hget
  cases hget
  have hsame := h.child.1
  rw [h'.child.1] at hsame
  exact ⟨rfl, (Option.some.inj hsame).symm⟩

theorem Linked.childPath_best (hl : Linked heap) (hr : heap[i]? = some r) {c : Nat} {rc : RouterT}
    (h : BestChild heap i rest c rc) :
    r.childPath rest = some rc.path ∧ r.routers.get? rc.path = some c := by
  cases hpath : r.childPath rest with
  | none => exact absurd h.fits (hl.childPath_none hr hpath h.child)
  | some rp =>
    obtain ⟨c', rc', hbest, rfl, hget⟩ := hl.childPath_some hr hpath
    obtain ⟨rfl, rfl⟩ := hl.bestChild_unique hr h hbest
    exact ⟨rfl, hget⟩

end Children

/-! ## Where a URL comes to -/

/-- From the router `i`, with `rest` left of the URL, to the router `j`, with `rest'` left: the child
    with the longest path is followed until there is none, or a `file_router` is met. -/
inductive Follows (env : DispatchEnv) (heap : List RouterT) : Nat → Bytes → Nat → Bytes → Prop where
  | file {i : Nat} {rest base : Bytes} (hfile : env.basePath i = some base) :
      Follows env heap i rest i rest
  | own {i : Nat} {rest : Bytes} (hplain : env.basePath i = none)
      (hno : ∀ c rc, IsChild heap i c rc → ¬ ProperPrefix rc.path rest) : Follows env heap i rest i rest
  | child {i c j : Nat} {rest rest' : Bytes} {rc : RouterT} (hplain : env.basePath i = none)
      (hbest : BestChild heap i rest c rc)
      (hnext : Follows env heap c (rest.drop rc.path.length) j rest') :
      Follows env heap i rest j rest'

/-- What a router answers for the routes of its own, for `localUrl`: a route for the method, or one
    for all methods. -/
def DispatchEnv.ownRoute (env : DispatchEnv) (j : Nat) (r : RouterT) (method localUrl : Bytes) :
    Option Dispatched :=
  match r.findRoute env.accepts env.order method localUrl with
  | some e => some (.route { router := j, method := method, path := e.1, route := e.2 })
  | none => (r.findRoute env.accepts env.order methodAll localUrl).map fun e =>
      .route { router := j, method := methodAll, path := e.1, route := e.2 }

/-- The URL the routes of a router are matched against: what is left with a `/` before it, or the
    index of the router if nothing is left. -/
def RouterT.localUrl (r : RouterT) (rest : Bytes) : Bytes :=
  if rest = [] then r.routerIndex else 47 :: rest

/-- What the router a URL comes to answers. -/
def DispatchEnv.answer (env : DispatchEnv) (j : Nat) (r : RouterT) (method rest : Bytes) :
    Option Dispatched :=
  match env.basePath j with
  | some base => env.fileResult j base rest
  | none => env.ownRoute j r method (r.localUrl rest)

section Follow

variable {env : DispatchEnv} {heap : List RouterT}

theorem Follows.router {i j : Nat} {rest rest' : Bytes} (h : Follows env heap i rest j rest')
    {r : RouterT} (hr : heap[i]? = some r) : ∃ r', heap[j]? = some r' := by
  induction h generalizing r with
  | file _ => exact ⟨r, hr⟩
  | own _ _ => exact ⟨r, hr⟩
  | child _ hbest _ ih => exact ih hbest.child.1

/-- Every URL comes to some router. -/
theorem Linked.follows (hl : Linked heap) {i : Nat} {r : RouterT} (hr : heap[i]? = some r)
    (rest : Bytes) : ∃ j rest', Follows env heap i rest j rest' := by
  -- the path of a child is not empty, so what is left gets shorter
  induction hn : rest.length using Nat.strong_induction_on generalizing i r rest with
  | _ n ih =>
    cases hfile : env.basePath i with
    | some base => exact ⟨i, rest, .file hfile⟩
    | none => cases hpath : r.childPath rest with
      | none => exact ⟨i, rest, .own hfile fun c rc hc => hl.childPath_none hr hpath hc⟩
      | some rp =>
        obtain ⟨c, rc, hbest, rfl, -⟩ := hl.childPath_some hr hpath
        have hpos : 0 < rc.path.length := List.length_pos_iff.2 rc.path_ne
        have hlt := hbest.fits.2
        obtain ⟨j, rest', hnext⟩ := ih (rest.drop rc.path.length).length
          (by rw [List.length_drop]; omega) hbest.child.1 (rest.drop rc.path.length) rfl
        exact ⟨j, rest', .child hfile hbest hnext⟩

/-- A path in its normal form ends in `/`. -/
theorem normPath_getLast {collapse : Bytes → Bytes} {raw p : Bytes}
    (h : normPath collapse raw = some p) : p.getLast? = some 47 := by
  unfold normPath at h
  split at h
  · cases h
    decide
  · simp only at h
    split at h
    · cases h
    · next c hc =>
      cases h
      split
      · next heq =>
        rw [hc, heq]
      · simp

/-- The routes of a router are matched against what is left, with the `/` its path ends in. -/
theorem routeUrl_append {r : RouterT} (hlast : r.path.getLast? = some 47) (rest : Bytes) :
    r.routeUrl (r.path ++ rest) = r.localUrl rest := by
  obtain ⟨pre, hpre⟩ := List.getLast?_eq_some_iff.1 hlast
  have hdrop : (r.path ++ rest).drop (r.path.length - 1) = 47 :: rest := by
    rw [hpre, List.length_append, List.length_singleton, Nat.add_sub_cancel, List.append_assoc,
      List.drop_left]
    rfl
  unfold RouterT.routeUrl RouterT.localUrl
  simp only [hdrop, List.length_cons, Nat.add_eq_right, List.length_eq_zero_iff]

theorem DispatchEnv.resolveUrl_noChild {fuel i : Nat} {r : RouterT} {method url : Bytes} (hr : heap[i]? = some r)
    (hplain : env.basePath i = none) (hlen : r.path.length ≤ url.length)
    (hno : r.childPath (url.drop r.path.length) = none) :
    env.resolveUrl heap (fuel + 2) i method url
      = .ok (env.ownRoute i r method (r.routeUrl url)) := by
  have hnot : ¬ url.length < r.path.length := by omega
  have hstep : ∀ fuel method, env.resolveUrl heap (fuel + 1) i method url =
      match r.findRoute env.accepts env.order method (r.routeUrl url) with
      | some e => .ok (some (.route { router := i, method := method, path := e.1, route := e.2 }))
      | none =>
        if method ≠ methodAll then env.resolveUrl heap fuel i methodAll url else .ok none := by
    intro fuel method
    simp only [DispatchEnv.resolveUrl, hr, hnot, if_false, hplain, hno]
  rw [hstep]
  unfold DispatchEnv.ownRoute
  cases hfind : r.findRoute env.accepts env.order method (r.routeUrl url) with
  | some e => rfl
  | none =>
    simp only
    by_cases hall : method = methodAll
    · subst hall
      simp only [hfind, ne_eq, not_true_eq_false, if_false, Option.map_none]
    · rw [if_pos hall, hstep]
      cases r.findRoute env.accepts env.order methodAll (r.routeUrl url) with
      | some e => rfl
      | none => simp

/-- A router hands the URL on to the child that is followed. -/
theorem DispatchEnv.resolveUrl_child (hl : Linked heap) {fuel i c : Nat} {r rc : RouterT} {method url : Bytes}
    (hr : heap[i]? = some r) (hplain : env.basePath i = none) (hlen : r.path.length ≤ url.length)
    (hbest : BestChild heap i (url.drop r.path.length) c rc) :
    env.resolveUrl heap (fuel + 1) i method url
      = env.resolveUrl heap fuel c method (url.drop r.path.length) := by
  have hnot : ¬ url.length < r.path.length := by omega
  obtain ⟨hpath, hget⟩ := hl.childPath_best hr hbest
  simp only [DispatchEnv.resolveUrl, hr, hnot, if_false, hplain, hpath, hget]

theorem DispatchEnv.resolveUrl_file {fuel i : Nat} {r : RouterT} {method url base : Bytes}
    (hr : heap[i]? = some r) (hfile : env.basePath i = some base)
    (hlen : r.path.length ≤ url.length) :
    env.resolveUrl heap (fuel + 1) i method url
      = .ok (env.fileResult i base (url.drop r.path.length)) := by
  have hnot : ¬ url.length < r.path.length := by omega
  simp only [DispatchEnv.resolveUrl, hr, hnot, if_false, hfile]

/-- The routers have paths in their normal form. -/
def NormalPaths (collapse : Bytes → Bytes) (heap : List RouterT) : Prop :=
  ∀ (i : Nat) (r : RouterT), heap[i]? = some r → ∃ raw, normPath collapse raw = some r.path

/-- **A URL is answered by the router it comes to.** -/
theorem Follows.resolveUrl {collapse : Bytes → Bytes} (hl : Linked heap)
    (hnorm : NormalPaths collapse heap) {i j : Nat} {rest rest' : Bytes}
    (h : Follows env heap i rest j rest') {r r' : RouterT} (hr : heap[i]? = some r)
    (hr' : heap[j]? = some r') (method : Bytes) {fuel : Nat} (hfuel : rest.length + 2 ≤ fuel) :
    env.resolveUrl heap fuel i method (r.path ++ rest) = .ok (env.answer j r' method rest') := by
  induction h generalizing r fuel with
  | @file i rest base hfile =>
    obtain ⟨fuel, rfl⟩ : ∃ k, fuel = k + 1 := ⟨fuel - 1, by omega⟩
    rw [DispatchEnv.resolveUrl_file hr hfile (by simp), List.drop_left, DispatchEnv.answer, hfile]
  | @own i rest hplain hno =>
    have hsame : r' = r := Option.some.inj (hr'.symm.trans hr)
    obtain ⟨fuel, rfl⟩ : ∃ k, fuel = k + 2 := ⟨fuel - 2, by omega⟩
    have hnone : r.childPath ((r.path ++ rest).drop r.path.length) = none := by
      rw [List.drop_left]
      cases hpath : r.childPath rest with
      | none => rfl
      | some rp =>
        obtain ⟨c, rc, hbest, -, -⟩ := hl.childPath_some hr hpath
        exact absurd hbest.fits (hno c rc hbest.child)
    obtain ⟨raw, hraw⟩ := hnorm i r hr
    rw [DispatchEnv.resolveUrl_noChild hr hplain (by simp) hnone, routeUrl_append (normPath_getLast hraw),
      DispatchEnv.answer, hplain, hsame]
  | @child i c j rest rest' rc hplain hbest hnext ih =>
    obtain ⟨fuel, rfl⟩ : ∃ k, fuel = k + 1 := ⟨fuel - 1, by omega⟩
    have hpos : 0 < rc.path.length := List.length_pos_iff.2 rc.path_ne
    have hlt := hbest.fits.2
    have hcut : rest = rc.path ++ rest.drop rc.path.length := by
      have htake := List.take_append_drop rc.path.length rest
      rwa [← List.prefix_iff_eq_take.1 hbest.fits.1, eq_comm] at htake
    rw [DispatchEnv.resolveUrl_child hl hr hplain (by simp) (by rw [List.drop_left]; exact hbest),
      List.drop_left]
    conv_lhs => rw [hcut]
    exact ih hbest.child.1 hr' (by rw [List.length_drop]; omega)

end Follow

/-! ## Trees put together by registering -/

/-- Routers that calls of `register_router` have put together, with no two of one path under one
    parent. -/
def Built (collapse : Bytes → Bytes) (heap : List RouterT) : Prop :=
  ∃ (ps : PathSort) (heap₀ : List RouterT) (calls : List RegisterCall),
    Unregistered heap₀ ∧ NormalPaths collapse heap₀ ∧
      EachStep (registerStep ps) NoNamesake heap₀ calls ∧ heap = calls.foldl (registerStep ps) heap₀

theorem NormalPaths.registerStep {collapse : Bytes → Bytes} {heap : List RouterT}
    (h : NormalPaths collapse heap) (ps : PathSort) (call : RegisterCall) :
    NormalPaths collapse (registerStep ps heap call) := by
  rcases registerStep_cases ps heap call with ⟨hsame, -⟩ | ⟨r, c, -, -, -, hget⟩
  · rw [hsame]
    exact h
  · intro j x hx
    rw [hget] at hx
    obtain ⟨rj, hrj, rfl⟩ := Option.map_eq_some_iff.1 hx
    rw [after_path]
    exact h j rj hrj

theorem Built.linked {collapse : Bytes → Bytes} {heap : List RouterT} (h : Built collapse heap) :
    Linked heap ∧ NormalPaths collapse heap := by
  obtain ⟨ps, heap₀, calls, hun, hnorm, hsteps, rfl⟩ := h
  refine hsteps.invariant (J := fun heap => Linked heap ∧ NormalPaths collapse heap) ?_
    ⟨linked_of_unregistered hun, hnorm⟩
  rintro heap call ⟨hl, hn⟩ hname
  exact ⟨hl.registerStep hname, hn.registerStep ps call⟩

/-- **`resolve_url` on the root always comes to its end, and answers with what the router answers
    that one gets to by following the longest paths**: a route of its own for the method, or else for
    all methods, that matches what is left of the URL, or its index if nothing is left. -/
theorem resolveUrl_follows (env : DispatchEnv) {collapse : Bytes → Bytes} {heap : List RouterT}
    (hb : Built collapse heap) {root : Nat} {r : RouterT} (hr : heap[root]? = some r)
    (hroot : r.path = bytes "/") (method u : Bytes) :
    (∃ j rest r', Follows env heap root u j rest ∧ heap[j]? = some r') ∧
    ∀ j rest r', Follows env heap root u j rest → heap[j]? = some r' →
      ∀ fuel, u.length + 2 ≤ fuel →
        env.resolveUrl heap fuel root method (47 :: u) = .ok (env.answer j r' method rest) := by
  obtain ⟨hl, hnorm⟩ := hb.linked
  constructor
  · have hsome : ∃ j rest, Follows env heap root u j rest := hl.follows hr u
    obtain ⟨j, rest, hfollows⟩ := hsome
    obtain ⟨r', hr'⟩ := hfollows.router hr
    exact ⟨j, rest, r', hfollows, hr'⟩
  · intro j rest r' hfollows hr' fuel hfuel
    have hgo := hfollows.resolveUrl hl hnorm hr hr' method hfuel
    rwa [hroot] at hgo

/-- Routes match their own path only, and there are no files. -/
def plainDispatch : DispatchEnv :=
  { accepts := fun p u => p = u, order := .insertion _ _, basePath := fun _ => none,
    pathExists := fun _ => false }

theorem normalPaths_sampleRouters : NormalPaths id sampleRouters := by
  intro i r hr
  have hmem := List.mem_of_getElem? hr
  simp only [sampleRouters, List.mem_cons, List.not_mem_nil, or_false] at hmem
  rcases hmem with rfl | rfl | rfl | rfl
  · exact ⟨bytes "", rfl⟩
  · exact ⟨bytes "/a", rfl⟩
  · exact ⟨bytes "/a", rfl⟩
  · exact ⟨bytes "/b", rfl⟩

/-- The root of the sample with children at `a/` and `b/`. -/
theorem resolveUrl_follows_sample :
    ∃ heap r, Built id heap ∧ heap[0]? = some r ∧ r.path = bytes "/" ∧
      ((∃ j rest r', Follows plainDispatch heap 0 (bytes "a/x") j rest ∧ heap[j]? = some r') ∧
      ∀ j rest r', Follows plainDispatch heap 0 (bytes "a/x") j rest → heap[j]? = some r' →
        ∀ fuel, (bytes "a/x").length + 2 ≤ fuel →
          plainDispatch.resolveUrl heap fuel 0 (bytes "GET") (47 :: bytes "a/x")
            = .ok (plainDispatch.answer j r' (bytes "GET") rest)) := by
  have hb : Built id ([⟨0, 1⟩, ⟨0, 3⟩].foldl (registerStep .merge) sampleRouters) := by
    refine ⟨.merge, sampleRouters, [⟨0, 1⟩, ⟨0, 3⟩], unregistered_sampleRouters,
      normalPaths_sampleRouters, ⟨?_, ?_, trivial⟩, rfl⟩
    · rintro r c other hr hc - hget
      cases hr
      cases hget
    · rintro r c other hr hc - hget
      cases hr
      cases hc
      cases hget
  exact ⟨_, _, hb, rfl, rfl, resolveUrl_follows plainDispatch hb rfl rfl (bytes "GET") (bytes "a/x")⟩

/-- A root with a handler for its index. -/
def indexRouter : RouterT :=
  { rootRouter with
    verbs := (UMap.empty _ _).emplace (bytes "GET")
      ((UMap.empty _ _).emplace (bytes "/index.html") { policies := [], handlers := [1] }) }

theorem built_indexRouter : Built id [indexRouter] := by
  refine ⟨.merge, [indexRouter], [], ?_, ?_, trivial, rfl⟩
  · intro r hr
    rw [List.mem_singleton.1 hr]
    exact ⟨rfl, rfl, rfl⟩
  · intro i r hr
    rw [List.mem_singleton.1 (List.mem_of_getElem? hr)]
    exact ⟨bytes "", rfl⟩

/-- For `/` the routes are matched against the index, not against `/`. -/
theorem root_asks_for_index :
    ¬ ∀ (env : DispatchEnv) (collapse : Bytes → Bytes) (heap : List RouterT) (root : Nat)
      (r : RouterT) (method u : Bytes), (∀ i, env.basePath i = none) → Built collapse heap →
      heap[root]? = some r → r.path = bytes "/" →
      ∀ j rest r', Follows env heap root u j rest → heap[j]? = some r' →
        ∀ fuel, u.length + 2 ≤ fuel →
          env.resolveUrl heap fuel root method (47 :: u)
            = .ok (env.ownRoute j r' method (47 :: rest)) := by
  intro hall
  have hfollows : Follows plainDispatch [indexRouter] 0 [] 0 [] := by
    refine .own rfl fun c rc _ hfits => ?_
    exact absurd hfits.2 (Nat.not_lt_zero _)
  have hres := hall plainDispatch id [indexRouter] 0 indexRouter (bytes "GET") [] (fun _ => rfl)
    built_indexRouter rfl rfl 0 [] indexRouter hfollows rfl 2 (by decide)
  have hcode : plainDispatch.resolveUrl [indexRouter] 2 0 (bytes "GET") [47]
      = .ok (some (.route { router := 0, method := bytes "GET", path := bytes "/index.html",
                            route := { policies := [], handlers := [1] } })) := rfl
  rw [hcode] at hres
  cases hres

/-! ## The index of a router -/

/-- A way down from `i`: every router on it is a child of the one before. -/
def Descends (heap : List RouterT) : Nat → List Nat → Prop
  | _, [] => True
  | i, c :: cs => (∃ rc, IsChild heap i c rc) ∧ Descends heap c cs

/-- The paths of routers, one after the other. -/
def concatPaths (heap : List RouterT) (ids : List Nat) : Bytes :=
  ids.flatMap fun c => ((heap[c]?).map fun rc : RouterT => rc.path).getD []

section Index

variable {env : DispatchEnv} {heap : List RouterT}

theorem descends_snoc {i c : Nat} {ids : List Nat} :
    Descends heap i (ids ++ [c]) ↔
      Descends heap i ids ∧ ∃ rc, IsChild heap (ids.getLastD i) c rc := by
  induction ids generalizing i with
  | nil => simp [Descends]
  | cons d ids ih =>
    rw [List.cons_append, Descends, ih, Descends, List.getLastD_cons, and_assoc]

/-- A router is at the end of one way down from the root only. -/
theorem descends_unique {root : Nat} (hroot : ∀ i rc, ¬ IsChild heap i root rc) {ids ids' : List Nat}
    (h : Descends heap root ids) (h' : Descends heap root ids')
    (hlast : ids.getLastD root = ids'.getLastD root) : ids = ids' := by
  induction ids using List.reverseRecOn generalizing ids' with
  | nil =>
    rcases List.eq_nil_or_concat' ids' with rfl | ⟨l, c, rfl⟩
    · rfl
    · obtain ⟨-, rc, hc⟩ := descends_snoc.1 h'
      simp only [List.getLastD_nil, List.getLastD_concat] at hlast
      rw [← hlast] at hc
      exact absurd hc (hroot _ rc)
  | append_singleton l c ih =>
    obtain ⟨hl, rc, hc⟩ := descends_snoc.1 h
    rcases List.eq_nil_or_concat' ids' with rfl | ⟨l', c', rfl⟩
    · simp only [List.getLastD_nil, List.getLastD_concat] at hlast
      rw [hlast] at hc
      exact absurd hc (hroot _ rc)
    · obtain ⟨hl', rc', hc'⟩ := descends_snoc.1 h'
      simp only [List.getLastD_concat] at hlast
      subst hlast
      have hsame : rc = rc' := Option.some.inj (hc.1.symm.trans hc'.1)
      subst hsame
      have hparent := Option.some.inj (hc.2.symm.trans hc'.2)
      rw [ih hl hl' hparent]

/-- The URL is made up of the paths on the way down and what is left; below the start something is
    left. -/
theorem Follows.descends {i j : Nat} {rest rest' : Bytes} (h : Follows env heap i rest j rest') :
    ∃ ids, Descends heap i ids ∧ ids.getLastD i = j ∧ rest = concatPaths heap ids ++ rest' ∧
      (ids ≠ [] → rest' ≠ []) := by
  induction h with
  | file _ => exact ⟨[], trivial, rfl, rfl, fun hne => absurd rfl hne⟩
  | own _ _ => exact ⟨[], trivial, rfl, rfl, fun hne => absurd rfl hne⟩
  | @child i c j rest rest' rc _ hbest _ ih =>
    obtain ⟨ids, hids, hlast, hrest, hleft⟩ := ih
    have hcut := List.take_append_drop rc.path.length rest
    rw [← List.prefix_iff_eq_take.1 hbest.fits.1] at hcut
    refine ⟨c :: ids, ⟨⟨rc, hbest.child⟩, hids⟩, ?_, ?_, fun _ => ?_⟩
    · rw [List.getLastD_cons]
      exact hlast
    · rw [← hcut, hrest]
      simp [concatPaths, hbest.child.1]
    · by_cases hnil : ids = []
      · rintro rfl
        have hlt := hbest.fits.2
        rw [hnil] at hrest
        have hempty : (rest.drop rc.path.length).length = 0 := by
          rw [hrest]
          rfl
        rw [List.length_drop] at hempty
        omega
      · exact hleft hnil

theorem answer_router {j : Nat} {r : RouterT} {method rest : Bytes} {res : Resolved}
    (h : env.answer j r method rest = some (.route res)) : res.router = j := by
  unfold DispatchEnv.answer at h
  split at h
  · unfold DispatchEnv.fileResult at h
    obtain ⟨fp, -, hfp⟩ := Option.map_eq_some_iff.1 h
    cases hfp
  · unfold DispatchEnv.ownRoute at h
    split at h
    · cases h
      rfl
    · obtain ⟨e, -, he⟩ := Option.map_eq_some_iff.1 h
      cases he
      rfl

/-- The root of the tree is nobody's child. -/
theorem Linked.root_parent (hl : Linked heap) {root : Nat} {r : RouterT} (hr : heap[root]? = some r)
    (hroot : r.path = bytes "/") (i : Nat) (rc : RouterT) : ¬ IsChild heap i root rc := by
  rintro ⟨hrc, hparent⟩
  rw [hr] at hrc
  cases hrc
  exact (hl.parent root r i hr hparent).1 hroot

/-- The paths down to a router below the root do not lead to it. -/
theorem Built.index_unreached {collapse : Bytes → Bytes} (hb : Built collapse heap) {root : Nat}
    {r : RouterT} (hr : heap[root]? = some r) (hroot : r.path = bytes "/") {ids : List Nat}
    (hids : Descends heap root ids) (hne : ids ≠ []) {method : Bytes} {fuel : Nat}
    (hfuel : (concatPaths heap ids).length + 2 ≤ fuel) {res : Resolved}
    (hres : env.resolveUrl heap fuel root method (47 :: concatPaths heap ids)
      = .ok (some (.route res))) : res.router ≠ ids.getLastD root := by
  obtain ⟨hl, hnorm⟩ := hb.linked
  have hsome : ∃ j rest, Follows env heap root (concatPaths heap ids) j rest := hl.follows hr _
  obtain ⟨j, rest, hfollows⟩ := hsome
  obtain ⟨r', hr'⟩ := hfollows.router hr
  have hgo := hfollows.resolveUrl hl hnorm hr hr' method hfuel
  rw [hroot] at hgo
  have hanswer : env.answer j r' method rest = some (.route res) := by
    have hsame := hgo.symm.trans hres
    exact Except.ok.inj hsame
  obtain ⟨ids', hids', hlast, hconcat, hleft⟩ := hfollows.descends
  intro hrouter
  rw [answer_router hanswer, ← hlast] at hrouter
  -- the way the URL went is the way down to the router, and so nothing is left
  have hway := descends_unique (hl.root_parent hr hroot) hids' hids hrouter
  subst hway
  have hnil : rest = [] := by simpa using hconcat
  exact hleft hne hnil

/-- **The index of a router is asked for at the URL of its paths exactly if it is the root.** -/
theorem index_reached_iff (env : DispatchEnv) {collapse : Bytes → Bytes} {heap : List RouterT}
    (hb : Built collapse heap) {root : Nat} {r : RouterT} (hr : heap[root]? = some r)
    (hroot : r.path = bytes "/") (hplain : env.basePath root = none) {ids : List Nat}
    (hids : Descends heap root ids) {R : RouterT} (hR : heap[ids.getLastD root]? = some R)
    {method : Bytes} {e : Bytes × RouteNode}
    (hmatch : R.findRoute env.accepts env.order method R.routerIndex = some e) {fuel : Nat}
    (hfuel : (concatPaths heap ids).length + 2 ≤ fuel) :
    env.resolveUrl heap fuel root method (47 :: concatPaths heap ids)
        = .ok (some (.route { router := ids.getLastD root, method := method, path := e.1,
                              route := e.2 })) ↔ ids = [] := by
  constructor
  · intro hres
    by_contra hne
    exact hb.index_unreached hr hroot hids hne hfuel hres rfl
  · rintro rfl
    have hsame : R = r := Option.some.inj (hR.symm.trans hr)
    obtain ⟨hl, hnorm⟩ := hb.linked
    have hfollows : Follows env heap root [] root [] := by
      refine .own hplain fun c rc _ hfits => ?_
      exact absurd hfits.2 (Nat.not_lt_zero _)
    have hgo := hfollows.resolveUrl hl hnorm hr hr method hfuel
    rw [hsame] at hmatch
    rw [hroot, DispatchEnv.answer, hplain] at hgo
    simp only [DispatchEnv.ownRoute, RouterT.localUrl, if_true, hmatch] at hgo
    exact hgo

end Index

/-- `/` asks the root for its index. -/
theorem index_reached_root :
    plainDispatch.resolveUrl [indexRouter] 2 0 (bytes "GET") (47 :: concatPaths [indexRouter] [])
      = .ok (some (.route { router := 0, method := bytes "GET", path := bytes "/index.html",
                            route := { policies := [], handlers := [1] } })) := by
  have hids : Descends [indexRouter] 0 [] := trivial
  have hR : [indexRouter][([] : List Nat).getLastD 0]? = some indexRouter := rfl
  have hmatch : indexRouter.findRoute plainDispatch.accepts plainDispatch.order (bytes "GET")
      indexRouter.routerIndex
        = some (bytes "/index.html", { policies := [], handlers := [1] }) := rfl
  have hfuel : (concatPaths [indexRouter] []).length + 2 ≤ 2 := by decide
  exact (index_reached_iff plainDispatch built_indexRouter rfl rfl rfl hids hR hmatch hfuel).2 rfl

/-- No other child on the way has a path that is a prefix of what is left. -/
def AloneOnWay (heap : List RouterT) : Nat → List Nat → Prop
  | _, [] => True
  | i, c :: cs =>
    (∀ c' rc', IsChild heap i c' rc' → c' ≠ c → ¬ rc'.path <+: concatPaths heap (c :: cs)) ∧
      AloneOnWay heap c cs

theorem indexPath_ne : bytes "a/" ≠ [] := by decide

/-- A router at `a/` with a handler for its index, to be registered under the root. -/
def indexChild : List RouterT :=
  [rootRouter, { indexRouter with path := bytes "a/", path_ne := indexPath_ne }]

theorem built_indexChild : Built id (registerStep .merge indexChild ⟨0, 1⟩) := by
  refine ⟨.merge, indexChild, [⟨0, 1⟩], ?_, ?_, ⟨?_, trivial⟩, rfl⟩
  · intro r hr
    simp only [indexChild, List.mem_cons, List.not_mem_nil, or_false] at hr
    rcases hr with rfl | rfl <;> exact ⟨rfl, rfl, rfl⟩
  · intro i r hr
    have hmem := List.mem_of_getElem? hr
    simp only [indexChild, List.mem_cons, List.not_mem_nil, or_false] at hmem
    rcases hmem with rfl | rfl
    · exact ⟨bytes "", rfl⟩
    · exact ⟨bytes "/a", rfl⟩
  · rintro r c other hr hc - hget
    cases hr
    cases hget

/-- `/a/` does not ask the router at `a/` for its index. -/
theorem child_index_unreached :
    ¬ ∀ (env : DispatchEnv) (collapse : Bytes → Bytes) (heap : List RouterT) (root : Nat)
      (r R : RouterT) (ids : List Nat) (method : Bytes) (e : Bytes × RouteNode) (fuel : Nat),
      Built collapse heap → heap[root]? = some r → r.path = bytes "/" →
      env.basePath root = none → Descends heap root ids → AloneOnWay heap root ids →
      heap[ids.getLastD root]? = some R →
      R.findRoute env.accepts env.order method R.routerIndex = some e →
      (concatPaths heap ids).length + 2 ≤ fuel →
      env.resolveUrl heap fuel root method (47 :: concatPaths heap ids)
        = .ok (some (.route { router := ids.getLastD root, method := method, path := e.1,
                              route := e.2 })) := by
  intro hall
  have hdown : Descends (registerStep .merge indexChild ⟨0, 1⟩) 0 [1] := ⟨⟨_, rfl, rfl⟩, trivial⟩
  have halone : AloneOnWay (registerStep .merge indexChild ⟨0, 1⟩) 0 [1] := by
    refine ⟨?_, trivial⟩
    rintro c' rc' ⟨hrc, hparent⟩ hne
    match c' with
    | 0 =>
      cases hrc
      cases hparent
    | 1 => exact absurd rfl hne
    | n + 2 => cases hrc
  have hres := hall plainDispatch id _ 0 _ _ [1] (bytes "GET")
    (bytes "/index.html", { policies := [], handlers := [1] }) 4 built_indexChild rfl rfl rfl hdown
    halone rfl rfl (by decide)
  exact built_indexChild.index_unreached rfl rfl hdown (by decide) (by decide) hres rfl

end LibEvmvc
