import LibEvmvc.Foundation.UMap
import LibEvmvc.Http.Methods
import LibEvmvc.Routing.Policy

set_option autoImplicit false

/-! # Registering routes and resolving URLs

A router keeps its routes in two maps, one inside the other: by method, then by route path. Handlers
and policies registered for a method and a path meet on the route stored there. `all`, and a policy
registered without a method, go to the method `ALL`; `resolve_url` looks under the method of the
request first, skips routes without handlers, and only then looks under `ALL`.

Whether a URL matches a route is decided by a regular expression compiled with PCRE, which the
model takes as two parameters: `compiles` for the registration, `accepts` for the match. Routers
refer to each other by their position in a heap. -/

namespace LibEvmvc

abbrev RouteMap := UMap (id : Bytes → Bytes) RouteNode
abbrev VerbMap := UMap (id : Bytes → Bytes) RouteMap

/-- `router_t`. Its path has been normalised, so it is never empty. -/
structure RouterT extends RouterNode where
  path : Bytes
  path_ne : path ≠ []
  routerIndex : Bytes
  parent : Option Nat
  verbs : VerbMap
  routerPaths : List Bytes
  routers : UMap (id : Bytes → Bytes) Nat

/-- The method under which routes for every method are kept. -/
def methodAll : Bytes := bytes "ALL"

def RouteNode.empty : RouteNode := { policies := [], handlers := [] }

/-- `route_t::has_callbacks`. -/
def RouteNode.hasCallbacks (r : RouteNode) : Bool := !r.handlers.isEmpty

/-- `route_t::register_policy`. -/
def RouteNode.registerPolicy (r : RouteNode) (pol : FilterPolicy) : RouteNode :=
  { r with policies := r.policies ++ [pol] }

/-- `route_t::register_handler`. -/
def RouteNode.registerHandler (r : RouteNode) (cb : RouteHandlerCb) : RouteNode :=
  { r with handlers := r.handlers ++ [cb] }

/-! ## Registration -/

namespace RouterT

/-- `router_t::resolve_route`. -/
def resolveRoute (r : RouterT) (method routePath : Bytes) : Option RouteNode :=
  (r.verbs.get? method).bind fun routes => routes.get? routePath

/-- What is done to a route through the pointer `resolve_route` or `register_route` returned. -/
def updateRoute (r : RouterT) (method routePath : Bytes) (f : RouteNode → RouteNode) : RouterT :=
  { r with verbs := r.verbs.modify method fun routes => routes.modify routePath f }

/-- `router_t::register_route`. -/
def registerRoute (compiles : Bytes → Bool) (r : RouterT) (method routePath : Bytes) :
    Except CbError RouterT :=
  if compiles routePath then
    .ok { r with
      verbs := (r.verbs.emplace method (.empty _ _)).modify method fun routes =>
        routes.emplace routePath .empty }
  else .error "PCRE compilation failed"

/-- The route for `method` and `routePath`, registered if it is not there yet. -/
def ensureRoute (compiles : Bytes → Bool) (r : RouterT) (method routePath : Bytes) :
    Except CbError RouterT :=
  match r.resolveRoute method routePath with
  | some _ => .ok r
  | none => r.registerRoute compiles method routePath

/-- `if(pol) rp->register_policy(pol)`. -/
def addPolicy (r : RouterT) (method routePath : Bytes) : Option FilterPolicy → RouterT
  | some pol => r.updateRoute method routePath fun route => route.registerPolicy pol
  | none => r

/-- `router_t::register_handler`. -/
def registerHandler (compiles : Bytes → Bool) (r : RouterT) (method routePath : Bytes)
    (cb : RouteHandlerCb) (pol : Option FilterPolicy) : Except CbError RouterT := do
  let r ← r.ensureRoute compiles method routePath
  let r := r.addPolicy method routePath pol
  pure (r.updateRoute method routePath fun route => route.registerHandler cb)

/-- `router_t::register_policy` with a method. -/
def registerRoutePolicy (compiles : Bytes → Bool) (r : RouterT) (method routePath : Bytes)
    (pol : Option FilterPolicy) : Except CbError RouterT := do
  let r ← r.ensureRoute compiles method routePath
  pure (r.addPolicy method routePath pol)

/-- `router_t::register_policy` for the whole router. -/
def registerPolicy (r : RouterT) (pol : FilterPolicy) : RouterT :=
  { r with policies := r.policies ++ [pol] }

/-- The router before anything was registered for a path. -/
def fresh (r : RouterT) : RouterT := { r with verbs := .empty _ _ }

end RouterT

/-- What can be registered on a router. `on` stands for `get`, `post` and their siblings, which
    forward the name of their own method. -/
inductive Registration where
  | all (routePath : Bytes) (cb : RouteHandlerCb) (pol : Option FilterPolicy)
  | on (method : Method) (routePath : Bytes) (cb : RouteHandlerCb) (pol : Option FilterPolicy)
  | routeHandler (method routePath : Bytes) (cb : RouteHandlerCb) (pol : Option FilterPolicy)
  | routerPolicy (pol : FilterPolicy)
  | policy (routePath : Bytes) (pol : Option FilterPolicy)
  | methodPolicy (method routePath : Bytes) (pol : Option FilterPolicy)
  deriving DecidableEq, Repr

def Registration.apply (compiles : Bytes → Bool) (r : RouterT) :
    Registration → Except CbError RouterT
  | .all routePath cb pol => r.registerHandler compiles methodAll routePath cb pol
  | .on method routePath cb pol => r.registerHandler compiles method.toBytes routePath cb pol
  | .routeHandler method routePath cb pol => r.registerHandler compiles method routePath cb pol
  | .routerPolicy pol => .ok (r.registerPolicy pol)
  | .policy routePath pol => r.registerRoutePolicy compiles methodAll routePath pol
  | .methodPolicy method routePath pol => r.registerRoutePolicy compiles method routePath pol

/-- A sequence of registrations; one that throws ends it. -/
def RouterT.register (compiles : Bytes → Bool) (r : RouterT) (regs : List Registration) :
    Except CbError RouterT :=
  regs.foldlM (Registration.apply compiles) r

/-! ## Resolution -/

/-- How resolving a URL can go wrong: `substr` past the end of the URL throws, and a listed child
    path that is not in the map of children is dereferenced. -/
inductive ResolveFault where
  | outOfRange
  | missingRouter
  | outOfFuel
  deriving DecidableEq, Repr

/-- A route as `resolve_url` found it: the router it belongs to, and the keys it is stored under. -/
structure Resolved where
  router : Nat
  method : Bytes
  path : Bytes
  route : RouteNode
  deriving DecidableEq, Repr

/-- The first child path that is a proper prefix of what is left of the URL. The paths are compared
    with `strncmp`; they hold no NUL. -/
def RouterT.childPath (r : RouterT) (localUrl : Bytes) : Option Bytes :=
  if 0 < localUrl.length then
    r.routerPaths.find? fun rp => rp.length < localUrl.length && rp.isPrefixOf localUrl
  else none

/-- What the routes of the router itself are matched against. -/
def RouterT.routeUrl (r : RouterT) (url : Bytes) : Bytes :=
  let localUrl := url.drop (r.path.length - 1)
  if localUrl.length = 1 then r.routerIndex else localUrl

/-- The first route under `method` that has handlers and matches, in the order the map is walked. -/
def RouterT.findRoute (accepts : Bytes → Bytes → Bool) (order : IterOrder Bytes RouteNode)
    (r : RouterT) (method localUrl : Bytes) : Option (Bytes × RouteNode) :=
  (r.verbs.get? method).bind fun routes =>
    (routes.iterate order).find? fun e => e.2.hasCallbacks && accepts e.1 localUrl

/-- `router_t::resolve_url`. -/
def resolveUrl (accepts : Bytes → Bytes → Bool) (order : IterOrder Bytes RouteNode)
    (heap : List RouterT) : Nat → Nat → Bytes → Bytes → Except ResolveFault (Option Resolved)
  | 0, _, _, _ => .error .outOfFuel
  | fuel + 1, i, method, url =>
    match heap[i]? with
    | none => .error .missingRouter
    | some r =>
      if url.length < r.path.length then .error .outOfRange
      else
        match r.childPath (url.drop r.path.length) with
        | some rp =>
          match r.routers.get? rp with
          | none => .error .missingRouter
          | some child =>
            resolveUrl accepts order heap fuel child method (url.drop r.path.length)
        | none =>
          match r.findRoute accepts order method (r.routeUrl url) with
          | some e => .ok (some { router := i, method := method, path := e.1, route := e.2 })
          | none =>
            if method ≠ methodAll then resolveUrl accepts order heap fuel i methodAll url
            else .ok none

/-- The result as the access check sees it. -/
def Resolved.toResult (res : Resolved) (router : RouterNode) (ancestors : List RouterNode) :
    RouteResult :=
  { route := res.route, router, ancestors }

/-! ## What registering does -/

/-- The method and the path a registration is for. -/
def Registration.target : Registration → Option (Bytes × Bytes)
  | .all routePath _ _ => some (methodAll, routePath)
  | .on method routePath _ _ => some (method.toBytes, routePath)
  | .routeHandler method routePath _ _ => some (method, routePath)
  | .routerPolicy _ => none
  | .policy routePath _ => some (methodAll, routePath)
  | .methodPolicy method routePath _ => some (method, routePath)

/-- The handler a registration adds to the route for `method` and `routePath`. -/
def Registration.handlerAt (method routePath : Bytes) (reg : Registration) :
    Option RouteHandlerCb :=
  if reg.target = some (method, routePath) then
    match reg with
    | .all _ cb _ | .on _ _ cb _ | .routeHandler _ _ cb _ => some cb
    | .routerPolicy _ | .policy _ _ | .methodPolicy _ _ _ => none
  else none

/-- The policy a registration adds to the route for `method` and `routePath`. -/
def Registration.policyAt (method routePath : Bytes) (reg : Registration) : Option FilterPolicy :=
  if reg.target = some (method, routePath) then
    match reg with
    | .all _ _ pol | .on _ _ _ pol | .routeHandler _ _ _ pol => pol
    | .policy _ pol | .methodPolicy _ _ pol => pol
    | .routerPolicy _ => none
  else none

/-- The policy a registration adds to the router itself. -/
def Registration.routerPolicy? : Registration → Option FilterPolicy
  | .routerPolicy pol => some pol
  | _ => none

namespace RouterT

variable {compiles : Bytes → Bool} {r r' : RouterT} {method routePath m p : Bytes}

/-- The route for a method and a path, empty if nothing has been registered there. -/
def routeAt (r : RouterT) (m p : Bytes) : RouteNode := (r.resolveRoute m p).getD .empty

theorem routeAt_of_resolve {route : RouteNode} (h : r.resolveRoute m p = some route) :
    r.routeAt m p = route := by
  rw [routeAt, h, Option.getD_some]

@[simp] theorem resolveRoute_fresh : r.fresh.resolveRoute m p = none := rfl

@[simp] theorem routeAt_fresh : r.fresh.routeAt m p = .empty := rfl

/-- Working on one route leaves every other route alone. -/
theorem resolveRoute_updateRoute (f : RouteNode → RouteNode) :
    (r.updateRoute method routePath f).resolveRoute m p =
      if m = method ∧ p = routePath then (r.resolveRoute m p).map f else r.resolveRoute m p := by
  simp only [updateRoute, resolveRoute, UMap.get?_modify, id]
  by_cases hm : m = method
  · simp only [hm, if_true, true_and]
    cases r.verbs.get? method with
    | none => simp
    | some routes => simp [UMap.get?_modify]
  · simp [hm]

/-- A newly registered route is empty, and every other route is left alone. -/
theorem resolveRoute_registerRoute (h : r.registerRoute compiles method routePath = .ok r')
    (hnew : r.resolveRoute method routePath = none) :
    r'.resolveRoute m p =
      if m = method ∧ p = routePath then some .empty else r.resolveRoute m p := by
  unfold registerRoute at h
  split at h
  · cases h
    simp only [resolveRoute, UMap.get?_modify, UMap.get?_emplace, id] at hnew ⊢
    by_cases hm : m = method
    · subst hm
      cases hverb : r.verbs.get? m with
      | none => simp [UMap.get?_emplace]
      | some routes =>
        have hroute : routes.get? routePath = none := by simpa [hverb] using hnew
        simp [UMap.get?_emplace, hroute]
    · simp [hm]
  · cases h

theorem registerRoute_node (h : r.registerRoute compiles method routePath = .ok r') :
    r'.toRouterNode = r.toRouterNode := by
  unfold registerRoute at h
  split at h
  · cases h
    rfl
  · cases h

theorem resolveRoute_ensureRoute (h : r.ensureRoute compiles method routePath = .ok r') :
    r'.resolveRoute m p =
      if m = method ∧ p = routePath then some (r.routeAt m p) else r.resolveRoute m p := by
  unfold ensureRoute at h
  split at h
  · next route hroute =>
    cases h
    split
    · next hmp => rw [routeAt, hmp.1, hmp.2, hroute, Option.getD_some]
    · rfl
  · next hnone =>
    rw [resolveRoute_registerRoute h hnone]
    split
    · next hmp => rw [routeAt, hmp.1, hmp.2, hnone, Option.getD_none]
    · rfl

theorem ensureRoute_node (h : r.ensureRoute compiles method routePath = .ok r') :
    r'.toRouterNode = r.toRouterNode := by
  unfold ensureRoute at h
  split at h
  · cases h
    rfl
  · exact registerRoute_node h

theorem resolveRoute_addPolicy (pol : Option FilterPolicy) :
    (r.addPolicy method routePath pol).resolveRoute m p =
      if m = method ∧ p = routePath then
        (r.resolveRoute m p).map fun route =>
          { route with policies := route.policies ++ pol.toList }
      else r.resolveRoute m p := by
  cases pol with
  | none => simp [addPolicy]
  | some pol =>
    simp only [addPolicy, resolveRoute_updateRoute]
    rfl

theorem addPolicy_node (pol : Option FilterPolicy) :
    (r.addPolicy method routePath pol).toRouterNode = r.toRouterNode := by
  cases pol <;> rfl

theorem routeAt_registerHandler {cb : RouteHandlerCb} {pol : Option FilterPolicy}
    (h : r.registerHandler compiles method routePath cb pol = .ok r') :
    r'.routeAt m p =
      { policies := (r.routeAt m p).policies ++
          (if some (method, routePath) = some (m, p) then pol else none).toList
        handlers := (r.routeAt m p).handlers ++
          (if some (method, routePath) = some (m, p) then some cb else none).toList } := by
  simp only [registerHandler, bind, Except.bind] at h
  split at h
  · cases h
  · next r₁ h₁ =>
    cases h
    simp only [routeAt, resolveRoute_updateRoute, resolveRoute_addPolicy,
      resolveRoute_ensureRoute h₁]
    by_cases hmp : some (method, routePath) = some (m, p)
    · cases hmp
      simp [RouteNode.registerHandler]
    · have hne : ¬ (m = method ∧ p = routePath) := by
        rintro ⟨rfl, rfl⟩
        exact hmp rfl
      simp only [hmp, hne, if_false, Option.toList_none, List.append_nil]

theorem routeAt_registerRoutePolicy {pol : Option FilterPolicy}
    (h : r.registerRoutePolicy compiles method routePath pol = .ok r') :
    r'.routeAt m p =
      { policies := (r.routeAt m p).policies ++
          (if some (method, routePath) = some (m, p) then pol else none).toList
        handlers := (r.routeAt m p).handlers } := by
  simp only [registerRoutePolicy, bind, Except.bind] at h
  split at h
  · cases h
  · next r₁ h₁ =>
    cases h
    simp only [routeAt, resolveRoute_addPolicy, resolveRoute_ensureRoute h₁]
    by_cases hmp : some (method, routePath) = some (m, p)
    · cases hmp
      simp
    · have hne : ¬ (m = method ∧ p = routePath) := by
        rintro ⟨rfl, rfl⟩
        exact hmp rfl
      simp only [hmp, hne, if_false, Option.toList_none, List.append_nil]

theorem registerHandler_node {cb : RouteHandlerCb} {pol : Option FilterPolicy}
    (h : r.registerHandler compiles method routePath cb pol = .ok r') :
    r'.toRouterNode = r.toRouterNode := by
  simp only [registerHandler, bind, Except.bind] at h
  split at h
  · cases h
  · next r₁ h₁ =>
    cases h
    exact (addPolicy_node pol).trans (ensureRoute_node h₁)

theorem registerRoutePolicy_node {pol : Option FilterPolicy}
    (h : r.registerRoutePolicy compiles method routePath pol = .ok r') :
    r'.toRouterNode = r.toRouterNode := by
  simp only [registerRoutePolicy, bind, Except.bind] at h
  split at h
  · cases h
  · next r₁ h₁ =>
    cases h
    exact (addPolicy_node pol).trans (ensureRoute_node h₁)

/-- One registration adds its handler and its policy to the route it is for, and nothing else. -/
theorem routeAt_apply {reg : Registration} (h : reg.apply compiles r = .ok r') :
    r'.routeAt m p =
      { policies := (r.routeAt m p).policies ++ (reg.policyAt m p).toList
        handlers := (r.routeAt m p).handlers ++ (reg.handlerAt m p).toList } := by
  cases reg with
  | all routePath cb pol => exact routeAt_registerHandler h
  | on method routePath cb pol => exact routeAt_registerHandler h
  | routeHandler method routePath cb pol => exact routeAt_registerHandler h
  | routerPolicy pol =>
    cases h
    simp [Registration.policyAt, Registration.handlerAt, Registration.target, routeAt,
      registerPolicy, resolveRoute]
  | policy routePath pol =>
    rw [routeAt_registerRoutePolicy h]
    simp [Registration.handlerAt, Registration.policyAt, Registration.target]
  | methodPolicy method routePath pol =>
    rw [routeAt_registerRoutePolicy h]
    simp [Registration.handlerAt, Registration.policyAt, Registration.target]

theorem policies_apply {reg : Registration} (h : reg.apply compiles r = .ok r') :
    r'.policies = r.policies ++ reg.routerPolicy?.toList := by
  cases reg with
  | all routePath cb pol => simp [registerHandler_node h, Registration.routerPolicy?]
  | on method routePath cb pol => simp [registerHandler_node h, Registration.routerPolicy?]
  | routeHandler method routePath cb pol =>
    simp [registerHandler_node h, Registration.routerPolicy?]
  | routerPolicy pol =>
    cases h
    rfl
  | policy routePath pol => simp [registerRoutePolicy_node h, Registration.routerPolicy?]
  | methodPolicy method routePath pol =>
    simp [registerRoutePolicy_node h, Registration.routerPolicy?]

/-- A sequence of registrations puts exactly its own handlers and policies on each route, and its
    own policies on the router, in order. -/
theorem register_spec {regs : List Registration} (h : r.register compiles regs = .ok r') :
    r'.routeAt m p =
      { policies := (r.routeAt m p).policies ++ regs.filterMap (Registration.policyAt m p)
        handlers := (r.routeAt m p).handlers ++ regs.filterMap (Registration.handlerAt m p) } ∧
    r'.policies = r.policies ++ regs.filterMap Registration.routerPolicy? := by
  induction regs generalizing r with
  | nil =>
    cases h
    simp
  | cons reg regs ih =>
    simp only [register, List.foldlM_cons, bind, Except.bind] at h
    split at h
    · cases h
    · next r₁ h₁ =>
      obtain ⟨hroute, hpolicies⟩ := ih h
      rw [hroute, hpolicies, routeAt_apply h₁, policies_apply h₁]
      have hcons : ∀ {β : Type} (f : Registration → Option β),
          (f reg).toList ++ regs.filterMap f = (reg :: regs).filterMap f := by
        intro β f
        cases hf : f reg <;> simp [hf]
      simp only [List.append_assoc, hcons, and_self]

end RouterT

/-! ## What resolving a URL finds -/

section Resolve

variable {accepts : Bytes → Bytes → Bool} {order : IterOrder Bytes RouteNode}

theorem RouterT.findRoute_some {r : RouterT} {method localUrl : Bytes} {e : Bytes × RouteNode}
    (h : r.findRoute accepts order method localUrl = some e) :
    r.resolveRoute method e.1 = some e.2 ∧ e.2.hasCallbacks = true := by
  unfold RouterT.findRoute at h
  obtain ⟨routes, hroutes, hfind⟩ := Option.bind_eq_some_iff.1 h
  have hmem : e ∈ routes.entries :=
    (routes.mem_iterate order e).1 (List.mem_of_find?_eq_some hfind)
  have hpred := List.find?_some hfind
  simp only [Bool.and_eq_true] at hpred
  refine ⟨?_, hpred.1⟩
  rw [RouterT.resolveRoute, hroutes, Option.bind_some]
  exact UMap.get?_of_mem hmem

/-- **A resolved route is one that was registered, with handlers, under the request's method or
    under `ALL`**, on the router it belongs to. -/
theorem resolveUrl_some {heap : List RouterT} {fuel i : Nat} {method url : Bytes} {res : Resolved}
    (h : resolveUrl accepts order heap fuel i method url = .ok (some res)) :
    ∃ r, heap[res.router]? = some r ∧ r.resolveRoute res.method res.path = some res.route ∧
      res.route.hasCallbacks = true ∧ (res.method = method ∨ res.method = methodAll) := by
  induction fuel generalizing i method url with
  | zero => cases h
  | succ fuel ih =>
    simp only [resolveUrl] at h
    split at h
    · cases h
    · next r hr =>
      split at h
      · cases h
      · split at h
        · split at h
          · cases h
          · exact ih h
        · split at h
          · next e he =>
            cases h
            obtain ⟨hroute, hcb⟩ := RouterT.findRoute_some he
            exact ⟨r, hr, hroute, hcb, Or.inl rfl⟩
          · split at h
            · obtain ⟨r', hr', hroute, hcb, hm⟩ := ih h
              exact ⟨r', hr', hroute, hcb, Or.inr (hm.elim id id)⟩
            · cases h

end Resolve

/-! ## Policies registered for a path -/

/-- The policies the access check of a resolved route consults, root first, route last. -/
def RouteResult.guards (rr : RouteResult) : List FilterPolicy :=
  (rr.router :: rr.ancestors).reverse.flatMap (fun r => r.policies) ++ rr.route.policies

/-- The access check consults the access rules of exactly these policies. -/
theorem RouteResult.accessRules_eq_guards (rr : RouteResult) :
    rr.accessRules = rulesOf .access rr.guards := by
  simp only [accessRules, guards, routerRules, rulesOf, List.flatMap_append, List.flatMap_assoc]

/-- `pol` guards `routePath` on the router `r` for requests of `method`: whatever matches what, a
    URL that resolves to a route of `r` under that path is checked against `pol`. -/
def RouterT.PolicyGuards (r : RouterT) (ancestors : List RouterNode) (method routePath : Bytes)
    (pol : FilterPolicy) : Prop :=
  ∀ (accepts : Bytes → Bytes → Bool) (order : IterOrder Bytes RouteNode) (heap : List RouterT)
    (i fuel : Nat) (url : Bytes) (res : Resolved), heap[i]? = some r →
    resolveUrl accepts order heap fuel i method url = .ok (some res) →
    res.router = i → res.path = routePath → pol ∈ (res.toResult r.toRouterNode ancestors).guards

/-- Where a policy has to be registered to reach a route with handlers under `method`: on that very
    route, on the router or on one of its ancestors. `ALL` is where a policy without a method goes
    anyway. -/
def Covered (r₀ : RouterT) (ancestors : List RouterNode) (regs : List Registration)
    (method routePath : Bytes) (pol : FilterPolicy) : Prop :=
  method = methodAll ∨ (∀ reg ∈ regs, reg.handlerAt method routePath = none) ∨
    (∃ reg ∈ regs, reg.policyAt method routePath = some pol) ∨
    pol ∈ r₀.policies ∨ .routerPolicy pol ∈ regs ∨ ∃ a ∈ ancestors, pol ∈ a.policies

section Guards

variable {compiles : Bytes → Bool} {regs : List Registration} {r₀ r : RouterT}
  {ancestors : List RouterNode} {method routePath : Bytes} {pol : FilterPolicy}

theorem mem_guards {res : Resolved} {router : RouterNode} :
    pol ∈ (res.toResult router ancestors).guards ↔
      (∃ a ∈ ancestors, pol ∈ a.policies) ∨ pol ∈ router.policies ∨ pol ∈ res.route.policies := by
  simp [RouteResult.guards, Resolved.toResult]

theorem mem_routerPolicies (hreg : r₀.fresh.register compiles regs = .ok r) :
    pol ∈ r.policies ↔ pol ∈ r₀.policies ∨ .routerPolicy pol ∈ regs := by
  rw [(RouterT.register_spec (m := []) (p := []) hreg).2, List.mem_append, List.mem_filterMap]
  refine or_congr Iff.rfl ⟨?_, fun h => ⟨_, h, rfl⟩⟩
  rintro ⟨reg, hmem, hpol⟩
  cases reg with
  | routerPolicy q => cases hpol; exact hmem
  | _ => cases hpol

theorem mem_routePolicies (hreg : r₀.fresh.register compiles regs = .ok r) :
    pol ∈ (r.routeAt method routePath).policies ↔
      ∃ reg ∈ regs, reg.policyAt method routePath = some pol := by
  rw [(RouterT.register_spec hreg).1]
  simp [RouteNode.empty]

theorem handlers_eq_nil (hreg : r₀.fresh.register compiles regs = .ok r) :
    (r.routeAt method routePath).handlers = [] ↔
      ∀ reg ∈ regs, reg.handlerAt method routePath = none := by
  rw [(RouterT.register_spec hreg).1]
  simp [RouteNode.empty, List.filterMap_eq_nil_iff]

theorem resolveRoute_of_handlers (hcb : (r.routeAt method routePath).handlers ≠ []) :
    r.resolveRoute method routePath = some (r.routeAt method routePath) := by
  cases h : r.resolveRoute method routePath with
  | some route => rw [RouterT.routeAt_of_resolve h]
  | none =>
    rw [RouterT.routeAt, h] at hcb
    exact absurd rfl hcb

/-- The only route that matches is found if it has handlers. -/
theorem findRoute_own (order : IterOrder Bytes RouteNode) (localUrl : Bytes)
    (hcb : (r.routeAt method routePath).handlers ≠ []) :
    r.findRoute (fun q _ => q == routePath) order method localUrl =
      some (routePath, r.routeAt method routePath) := by
  obtain ⟨routes, hverb, hget⟩ := Option.bind_eq_some_iff.1 (resolveRoute_of_handlers hcb)
  obtain ⟨e, he, hkey, hval⟩ := UMap.mem_of_get? hget
  have hsome : ((routes.iterate order).find? fun e =>
      e.2.hasCallbacks && e.1 == routePath).isSome := by
    rw [List.find?_isSome]
    refine ⟨e, (routes.mem_iterate order e).2 he, ?_⟩
    simp only [id] at hkey
    simp [hval, hkey, RouteNode.hasCallbacks, hcb]
  obtain ⟨e', he'⟩ := Option.isSome_iff_exists.1 hsome
  have hkey' : e'.1 = routePath := by
    have := List.find?_some he'
    simp only [Bool.and_eq_true, beq_iff_eq] at this
    exact this.2
  have hval' := UMap.get?_of_mem ((routes.mem_iterate order e').1 (List.mem_of_find?_eq_some he'))
  rw [hkey', hget] at hval'
  have hentry : e' = (routePath, r.routeAt method routePath) :=
    Prod.ext hkey' (Option.some.inj hval').symm
  rw [RouterT.findRoute, hverb, Option.bind_some, he', hentry]

/-- The URL that is the router's own path asks the router itself. -/
theorem resolveUrl_own (r : RouterT) (hcb : (r.routeAt method routePath).handlers ≠ []) :
    resolveUrl (fun q _ => q == routePath) (.insertion _ _) [r] 1 0 method r.path =
      .ok (some { router := 0, method := method, path := routePath,
                  route := r.routeAt method routePath }) := by
  simp [resolveUrl, RouterT.childPath, findRoute_own _ _ hcb]

/-- **A policy registered for a path guards it exactly where it meets the handlers.** Registered
    without a method it lands on the route under `ALL`, and a route with handlers under the
    request's own method is checked against it only if it was registered there too, or on the
    router or above. -/
theorem registerPolicy_guards_iff (hreg : r₀.fresh.register compiles regs = .ok r)
    (hpol : .policy routePath (some pol) ∈ regs) :
    r.PolicyGuards ancestors method routePath pol ↔
      Covered r₀ ancestors regs method routePath pol := by
  constructor
  · intro h
    by_contra hcov
    simp only [Covered, not_or] at hcov
    obtain ⟨hall, hcb, hroute, hrouter₀, hrouter, hanc⟩ := hcov
    have hcb' : (r.routeAt method routePath).handlers ≠ [] :=
      fun he => hcb ((handlers_eq_nil hreg).1 he)
    -- the router's own path resolves to the route with the handlers
    have hmem := h _ _ [r] 0 1 r.path _ rfl (resolveUrl_own r hcb') rfl rfl
    rcases mem_guards.1 hmem with ha | hr | hp
    · exact hanc ha
    · rcases (mem_routerPolicies hreg).1 hr with h0 | h1
      · exact hrouter₀ h0
      · exact hrouter h1
    · exact hroute ((mem_routePolicies hreg).1 hp)
  · intro hcov accepts order heap i fuel url res hheap hres hi hpath
    obtain ⟨r', hr', hroute, hcb, hmethod⟩ := resolveUrl_some hres
    rw [hi, hheap] at hr'
    cases hr'
    rw [hpath] at hroute
    have hnode := RouterT.routeAt_of_resolve hroute
    rw [mem_guards, mem_routerPolicies hreg, ← hnode]
    -- a route filed under `ALL` has `pol`; any other is filed under the method of the request
    by_cases hall : res.method = methodAll
    · refine Or.inr (Or.inr ?_)
      rw [hall, mem_routePolicies hreg]
      exact ⟨_, hpol, by simp [Registration.policyAt, Registration.target]⟩
    · have hm : res.method = method := hmethod.resolve_right hall
      rw [hm] at hnode hall ⊢
      rcases hcov with h1 | h2 | h3 | h4 | h5 | h6
      · exact absurd h1 hall
      · have hnil := (handlers_eq_nil hreg).2 h2
        rw [hnode] at hnil
        simp [RouteNode.hasCallbacks, hnil] at hcb
      · exact Or.inr (Or.inr ((mem_routePolicies hreg).2 h3))
      · exact Or.inr (Or.inl (Or.inl h4))
      · exact Or.inr (Or.inl (Or.inr h5))
      · exact Or.inl h6

end Guards

/-- A router at `/` with nothing on it. -/
def rootRouter : RouterT :=
  { policies := [], preHandlers := [], postHandlers := [], path := bytes "/", path_ne := by decide,
    routerIndex := bytes "/index.html", parent := none, verbs := .empty _ _, routerPaths := [],
    routers := .empty _ _ }

def samplePolicy : FilterPolicy := { id := 7, rules := [{ id := 1, type := .access }] }

/-- `all("/a", …)` guarded by `register_policy("/a", …)`. -/
theorem registerPolicy_guards_all :
    ∃ r, rootRouter.fresh.register (fun _ => true)
        [.all (bytes "/a") 1 none, .policy (bytes "/a") (some samplePolicy)] = .ok r ∧
      r.PolicyGuards [] (bytes "GET") (bytes "/a") samplePolicy := by
  obtain ⟨r, hr⟩ : ∃ r, rootRouter.fresh.register (fun _ => true)
      [.all (bytes "/a") 1 none, .policy (bytes "/a") (some samplePolicy)] = .ok r := ⟨_, rfl⟩
  exact ⟨r, hr, (registerPolicy_guards_iff hr (by decide)).2 (Or.inr (Or.inl (by decide)))⟩

/-- With `get("/a", …)` in its place the policy is not consulted: it sits on a route under `ALL` that
    has no handlers, and `GET /a` resolves to the route under `GET`. -/
theorem get_escapes_path_policy :
    ¬ ∀ (compiles : Bytes → Bool) (regs : List Registration) (r₀ r : RouterT)
      (ancestors : List RouterNode) (method routePath : Bytes) (pol : FilterPolicy),
      r₀.fresh.register compiles regs = .ok r → .policy routePath (some pol) ∈ regs →
      r.PolicyGuards ancestors method routePath pol := by
  intro h
  have hguards := h (fun _ => true)
    [.on .get (bytes "/a") 1 none, .policy (bytes "/a") (some samplePolicy)] rootRouter _ []
    (bytes "GET") (bytes "/a") samplePolicy rfl (by decide)
  have hmem := hguards (fun _ _ => true) (.insertion _ _) [_] 0 1 (bytes "/a")
    { router := 0, method := bytes "GET", path := bytes "/a",
      route := { policies := [], handlers := [1] } } rfl (by rfl) rfl rfl
  exact absurd hmem (by decide)

end LibEvmvc
