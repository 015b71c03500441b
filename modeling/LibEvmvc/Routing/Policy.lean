import LibEvmvc.Foundation.Callback
import LibEvmvc.Foundation.Bytes

set_option autoImplicit false

/-! # Filter policies and the access check of a route

A policy is a list of filter rules; routers and routes each carry a list of policies. Before a
request is executed `route_result_t::validate_access` walks from the root router down to the route
and consults every `access` rule on the way. The walk is three continuation-passing loops, one
inside the other: the rules of a policy (`FilterPolicy.validateFrom`), the policies of a router or a
route (`validatePolicies`), and the routers of the parent chain (`RouterNode.validateAccess`).

`validateAccess_eq_consultAll` collapses all three into one `consultAll` over the list of access
rules in consultation order, and everything said about the check is then read off
`consultAll_schedule`. -/

namespace LibEvmvc

/-- An error handed to a callback; only its message matters here. -/
abbrev CbError := String

inductive FilterType where
  | access
  | multipartForm
  | multipartFile
  deriving DecidableEq, Repr

/-- A filter rule: its identity and its type. What it answers is up to the user's code. -/
structure FilterRule where
  id : Nat
  type : FilterType
  deriving DecidableEq, Repr

structure FilterPolicy where
  id : Nat
  rules : List FilterRule
  deriving DecidableEq, Repr

/-- The handlers users register, by identity. -/
abbrev RouteHandlerCb := Nat

/-- What a router contributes to a request that is routed through it. -/
structure RouterNode where
  policies : List FilterPolicy
  preHandlers : List RouteHandlerCb
  postHandlers : List RouteHandlerCb
  deriving DecidableEq, Repr

/-- What a route contributes. -/
structure RouteNode where
  policies : List FilterPolicy
  handlers : List RouteHandlerCb
  deriving DecidableEq, Repr

/-- A resolved route with its router and the router's parents, nearest first, the root last. -/
structure RouteResult where
  route : RouteNode
  router : RouterNode
  ancestors : List RouterNode
  deriving DecidableEq, Repr

/-! ## The three loops -/

section Validate

variable {S : Type}

/-- `filter_policy_t::_validate`, from the rule at the current index on. -/
def FilterPolicy.validateFrom (type : FilterType) :
    List FilterRule → (Option CbError → CbProg FilterRule CbError S) →
      CbProg FilterRule CbError S
  | [], cb => cb none
  | r :: rules, cb =>
    if r.type ≠ type then validateFrom type rules cb
    else
      .call r (onOk cb (if rules.isEmpty then cb none else validateFrom type rules cb)) .done

/-- `filter_policy_t::validate`. -/
def FilterPolicy.validate (p : FilterPolicy) (type : FilterType)
    (cb : Option CbError → CbProg FilterRule CbError S) : CbProg FilterRule CbError S :=
  FilterPolicy.validateFrom type p.rules cb

/-- The loop over a list of policies, from the current index on; the body shared by
    `router_t::_validate_router_policies` and `route_t::_validate_route_policies`. -/
def validatePolicies (type : FilterType) :
    List FilterPolicy → (Option CbError → CbProg FilterRule CbError S) →
      CbProg FilterRule CbError S
  | [], cb => cb none
  | p :: policies, cb =>
    p.validate type
      (onOk cb (if policies.isEmpty then cb none else validatePolicies type policies cb))

/-- `router_t::_validate_router_policies`, started at index 0. -/
def RouterNode.validateRouterPolicies (r : RouterNode) (type : FilterType)
    (cb : Option CbError → CbProg FilterRule CbError S) : CbProg FilterRule CbError S :=
  validatePolicies type r.policies cb

/-- `route_t::_validate_route_policies`, started at index 0. -/
def RouteNode.validateRoutePolicies (r : RouteNode) (type : FilterType)
    (cb : Option CbError → CbProg FilterRule CbError S) : CbProg FilterRule CbError S :=
  validatePolicies type r.policies cb

/-- `router_t::validate_access`: the parent first, then the router's own policies. -/
def RouterNode.validateAccess (r : RouterNode) :
    List RouterNode → (Option CbError → CbProg FilterRule CbError S) →
      CbProg FilterRule CbError S
  | [], cb => if r.policies.isEmpty then cb none else r.validateRouterPolicies .access cb
  | p :: ancestors, cb =>
    p.validateAccess ancestors
      (onOk cb (if r.policies.isEmpty then cb none else r.validateRouterPolicies .access cb))

/-- `route_t::validate_access`, to which `route_result_t::validate_access` forwards. -/
def RouteResult.validateAccess (rr : RouteResult)
    (cb : Option CbError → CbProg FilterRule CbError S) : CbProg FilterRule CbError S :=
  rr.router.validateAccess rr.ancestors
    (onOk cb
      (if rr.route.policies.isEmpty then cb none else rr.route.validateRoutePolicies .access cb))

end Validate

/-! ## The order in which rules are consulted -/

/-- The rules of `type` in a list of policies, in registration order. -/
def rulesOf (type : FilterType) (policies : List FilterPolicy) : List FilterRule :=
  policies.flatMap fun p => p.rules.filter fun r => r.type = type

/-- The access rules of a chain of routers, given nearest first: those of the root come first. -/
def routerRules (chain : List RouterNode) : List FilterRule :=
  chain.reverse.flatMap fun r => rulesOf .access r.policies

/-- Every access rule that guards a resolved route, root first, route last. -/
def RouteResult.accessRules (rr : RouteResult) : List FilterRule :=
  routerRules (rr.router :: rr.ancestors) ++ rulesOf .access rr.route.policies

section Collapse

variable {S : Type} (cb : Option CbError → CbProg FilterRule CbError S)

theorem FilterPolicy.validateFrom_eq (type : FilterType) (rules : List FilterRule) :
    FilterPolicy.validateFrom type rules cb
      = consultAll (rules.filter fun r => r.type = type) cb := by
  induction rules with
  | nil => rfl
  | cons r rules ih =>
    unfold FilterPolicy.validateFrom
    by_cases hr : r.type = type
    · rw [if_neg (by simpa using hr), List.filter_cons_of_pos (by simpa using hr), consultAll]
      congr 2
      cases rules with
      | nil => rfl
      | cons r' rules' => simpa using ih
    · rw [if_pos hr, List.filter_cons_of_neg (by simpa using hr), ih]

theorem validatePolicies_eq (type : FilterType) (policies : List FilterPolicy) :
    validatePolicies type policies cb = consultAll (rulesOf type policies) cb := by
  induction policies with
  | nil => rfl
  | cons p policies ih =>
    rw [validatePolicies, FilterPolicy.validate, FilterPolicy.validateFrom_eq, rulesOf,
      List.flatMap_cons, consultAll_append]
    congr 2
    cases policies with
    | nil => rfl
    | cons p' policies' => exact ih

/-- Skipping an empty list of policies is consulting its (empty) list of rules. -/
theorem guardedPolicies_eq (policies : List FilterPolicy) :
    (if policies.isEmpty then cb none else validatePolicies .access policies cb)
      = consultAll (rulesOf .access policies) cb := by
  cases policies with
  | nil => rfl
  | cons p policies => simpa using validatePolicies_eq cb .access (p :: policies)

theorem RouterNode.validateAccess_eq (r : RouterNode) (ancestors : List RouterNode) :
    r.validateAccess ancestors cb = consultAll (routerRules (r :: ancestors)) cb := by
  induction ancestors generalizing r cb with
  | nil =>
    rw [RouterNode.validateAccess, RouterNode.validateRouterPolicies, guardedPolicies_eq]
    simp [routerRules]
  | cons p ancestors ih =>
    have hsplit : routerRules (r :: p :: ancestors)
        = routerRules (p :: ancestors) ++ rulesOf .access r.policies := by
      simp [routerRules]
    rw [RouterNode.validateAccess, ih, hsplit, consultAll_append]
    simp only [RouterNode.validateRouterPolicies, guardedPolicies_eq]

/-- **The three nested loops are one sequential consultation of the access rules.** -/
theorem RouteResult.validateAccess_eq_consultAll (rr : RouteResult) :
    rr.validateAccess cb = consultAll rr.accessRules cb := by
  rw [RouteResult.validateAccess, RouterNode.validateAccess_eq, RouteResult.accessRules,
    consultAll_append]
  simp only [RouteNode.validateRoutePolicies, guardedPolicies_eq]

end Collapse

/-! ## The access check as a whole -/

/-- The first of the parties `0 … n - 1` to object. -/
def firstRejection (verdict : Nat → Option CbError) (n : Nat) : Option Nat :=
  (List.range n).find? fun i => (verdict i).isSome

/-- What the parties `0 … n - 1` say together: the first objection, or nothing. -/
def jointVerdict (verdict : Nat → Option CbError) (n : Nat) : Option CbError :=
  (firstRejection verdict n).bind verdict

/-- How many of the parties `0 … n - 1` are consulted when an objection ends the consultation. -/
def consultedCount (verdict : Nat → Option CbError) (n : Nat) : Nat :=
  match firstRejection verdict n with
  | some i => i + 1
  | none => n

section Verdicts

variable {verdict : Nat → Option CbError} {n : Nat}

theorem firstRejection_none (h : ∀ i < n, verdict i = none) : firstRejection verdict n = none := by
  rw [firstRejection, List.find?_range_eq_none]
  intro i hi
  simp [h i hi]

theorem firstRejection_some {k : Nat} {e : CbError} (hk : k < n) (hbefore : ∀ i < k, verdict i = none)
    (he : verdict k = some e) : firstRejection verdict n = some k := by
  rw [firstRejection, List.find?_range_eq_some]
  refine ⟨by simp [he], by simpa using hk, fun i hi => by simp [hbefore i hi]⟩

/-- The parties together approve exactly when each of them does. -/
theorem jointVerdict_eq_none_iff : jointVerdict verdict n = none ↔ ∀ i < n, verdict i = none := by
  constructor
  · intro h i hi
    by_contra hne
    rcases hf : firstRejection verdict n with _ | k
    · have := List.find?_range_eq_none.1 hf i hi
      simp [hne] at this
    · have hk := (List.find?_range_eq_some.1 hf).1
      simp only [jointVerdict, hf, Option.bind_some] at h
      simp [h] at hk
  · intro h
    simp [jointVerdict, firstRejection_none h]

/-- Whoever is consulted after `k` approvals is within the count. -/
theorem lt_consultedCount {k : Nat} (hk : k < n) (hbefore : ∀ i < k, verdict i = none) :
    k < consultedCount verdict n := by
  unfold consultedCount
  split
  · next i hi =>
    have hobj := (List.find?_range_eq_some.1 hi).1
    by_contra hlt
    have := hbefore i (by omega)
    simp [this] at hobj
  · exact hk

end Verdicts

/-- What the trace of a consultation of `hs` says at one of its standing points. -/
theorem Consulting.summary {S : Type} {verdict : Nat → Option CbError} {hs : List FilterRule}
    {w : CbWorld FilterRule CbError S} (h : Consulting verdict hs w) :
    (completions w.trace).length ≤ 1 ∧
    invocations w.trace <+: hs.take (consultedCount verdict hs.length) ∧
    (w.pending = [] →
      completions w.trace = [jointVerdict verdict hs.length] ∧
      invocations w.trace = hs.take (consultedCount verdict hs.length)) := by
  cases h with
  | waiting past p rest hsplit hpast hcalls htrace hpending =>
    have hlen : past.length < hs.length := by simp [hsplit]
    have hinv : invocations w.trace = hs.take (past.length + 1) := by
      rw [htrace, hsplit, List.take_append]
      simp [List.take_of_length_le]
    refine ⟨by simp [htrace], ?_, by simp [hpending]⟩
    rw [hinv]
    exact List.take_prefix_take_left (lt_consultedCount hlen hpast)
  | rejected past p rest e hsplit hpast hverdict htrace hpending =>
    have hlen : past.length < hs.length := by simp [hsplit]
    have hrej := firstRejection_some hlen hpast hverdict
    have hcount : consultedCount verdict hs.length = past.length + 1 := by
      simp [consultedCount, hrej]
    have hinv : invocations w.trace = hs.take (consultedCount verdict hs.length) := by
      rw [htrace, hcount, hsplit, List.take_append]
      simp [List.take_of_length_le]
    have hcomp : completions w.trace = [jointVerdict verdict hs.length] := by
      rw [htrace]
      simp [jointVerdict, hrej, hverdict]
    exact ⟨by simp [hcomp], by rw [hinv], fun _ => ⟨hcomp, hinv⟩⟩
  | accepted hpast htrace hpending =>
    have hrej := firstRejection_none hpast
    have hinv : invocations w.trace = hs.take (consultedCount verdict hs.length) := by
      rw [htrace]
      simp [consultedCount, hrej]
    have hcomp : completions w.trace = [jointVerdict verdict hs.length] := by
      rw [htrace]
      simp [jointVerdict, hrej]
    exact ⟨by simp [hcomp], by rw [hinv], fun _ => ⟨hcomp, hinv⟩⟩

/-- **The access check is one sequential conjunction.** Take any chain of routers, any policies and
    any rules, each of which answers `verdict i` when it is the `i`-th one consulted, during the call
    or (`defer i`) later, and let the outside world interleave anything with the late answers. Then
    the final callback is called at most once; the rules consulted are an initial segment of the
    access rules from the root router to the route, cut after the first objection; and whatever has
    happened so far, once the outstanding rules have called back the final callback has been called
    exactly once, without error iff every access rule accepts, and exactly the rules up to the first
    objection have been consulted. -/
theorem RouteResult.validateAccess_conjunction {S : Type} (rr : RouteResult)
    (verdict : Nat → Option CbError) (defer : Nat → Bool) (effect : Nat → S → S)
    (strayFlag : Nat → Bool) (strayState : Nat → S) (s : S) (acts : List (CbAction CbError S))
    (hacts : Answers verdict acts) :
    let env := verdictEnv verdict defer effect strayFlag strayState
    let rules := rr.accessRules
    let now := (rr.validateAccess .complete).schedule env s acts
    let settled := (rr.validateAccess .complete).schedule env s
      (acts ++ answerFrom verdict 0 rules.length)
    (completions now.trace).length ≤ 1 ∧
    invocations now.trace <+: rules.take (consultedCount verdict rules.length) ∧
    (now.pending = [] → now.trace = settled.trace) ∧
    settled.pending = [] ∧
    completions settled.trace = [jointVerdict verdict rules.length] ∧
    (completions settled.trace = [none] ↔ ∀ i < rules.length, verdict i = none) ∧
    invocations settled.trace = rules.take (consultedCount verdict rules.length) := by
  intro env rules now settled
  have hnow : Consulting verdict rules now := by
    have := consultAll_schedule verdict defer effect strayFlag strayState rules s acts hacts
    rwa [← RouteResult.validateAccess_eq_consultAll] at this
  have hanswers : Answers verdict (acts ++ answerFrom verdict 0 rules.length) := by
    intro i err hmem
    rcases List.mem_append.1 hmem with h | h
    · exact hacts i err h
    · obtain ⟨j, -, hj⟩ := List.mem_map.1 h
      cases hj
      rfl
  have hsettled : Consulting verdict rules settled := by
    have := consultAll_schedule verdict defer effect strayFlag strayState rules s _ hanswers
    rwa [← RouteResult.validateAccess_eq_consultAll] at this
  have hfold : settled = (answerFrom verdict 0 rules.length).foldl (CbWorld.step env) now := by
    simp only [settled, now, CbProg.schedule, List.foldl_append]
  have hpending : settled.pending = [] := by
    rw [hfold]
    exact hnow.settles verdict defer effect strayFlag strayState rules rules.length 0 now
      (fun _ _ => Nat.zero_le _) (by omega)
  obtain ⟨honce, hpre, -⟩ := hnow.summary
  obtain ⟨hcomp, hinv⟩ := hsettled.summary.2.2 hpending
  refine ⟨honce, hpre, ?_, hpending, hcomp, ?_, hinv⟩
  · intro hidle
    rw [hfold, answerFrom_idle verdict _ _ _ _ hidle]
  · rw [hcomp, ← jointVerdict_eq_none_iff]
    simp

/-- Two routers and a route with one policy each: the first rule answers late, the second one
    objects, and the third one is never asked. -/
theorem validateAccess_conjunction_rejects :
    let rule (i : Nat) : FilterRule := ⟨i, .access⟩
    let rr : RouteResult :=
      { route := ⟨[⟨2, [rule 2]⟩], [0]⟩
        router := ⟨[⟨1, [⟨7, .multipartForm⟩, rule 1]⟩], [], []⟩
        ancestors := [⟨[⟨0, [rule 0]⟩], [], []⟩] }
    let verdict (i : Nat) : Option CbError := if i = 1 then some "denied" else none
    let env : CbEnv FilterRule CbError Unit :=
      verdictEnv verdict (fun i => i = 0) (fun _ => id) (fun _ => false) (fun _ => ())
    let settled := (rr.validateAccess .complete).schedule env ()
      ([.fire 0 none] ++ answerFrom verdict 0 3)
    completions settled.trace = [some "denied"] ∧
      invocations settled.trace = [rule 0, rule 1] := by
  intro rule rr verdict env settled
  have hacts : Answers verdict [CbAction.fire 0 none (S := Unit)] := by
    intro i err hmem
    simp only [List.mem_singleton, CbAction.fire.injEq] at hmem
    obtain ⟨rfl, rfl⟩ := hmem
    rfl
  have h := RouteResult.validateAccess_conjunction rr verdict (fun i => i = 0) (fun _ => id)
    (fun _ => false) (fun _ => ()) () [.fire 0 none] hacts
  have hverdict : jointVerdict verdict 3 = some "denied" := by decide
  have hcount : rr.accessRules.take (consultedCount verdict 3) = [rule 0, rule 1] := by decide
  exact ⟨h.2.2.2.2.1.trans (by rw [← hverdict]; rfl), h.2.2.2.2.2.2.trans hcount⟩

end LibEvmvc
