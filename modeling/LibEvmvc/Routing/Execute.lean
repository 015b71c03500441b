import LibEvmvc.Routing.Policy

set_option autoImplicit false

/-! # Running a route

`route_result_t::execute` runs the pre-handlers of every router from the root down, then the
handlers of the route, then the post-handlers, each stage inside the callback of the one before. A
stage of a router keeps a flag on its stack (`cb_called`) that its callback sets: when the handler
returns with the flag down, the stage goes on by itself as if the handler had called back.

That guess is right for a handler that has answered the request and will not call back. For a
handler that is merely slow it is wrong: the chain runs past it. Slow pre- and post-handlers are the
only trouble, and without them the stages keep their order under every schedule. -/

namespace LibEvmvc

/-! ## The handlers' view of a response -/

/-- The part of `response_t` the chain looks at. -/
structure ResFlags where
  started : Bool
  ended : Bool
  err : Option CbError
  deriving DecidableEq, Repr

/-- A response nobody has touched. -/
def ResFlags.fresh : ResFlags := { started := false, ended := false, err := none }

/-- What somebody holding the response can do to it; a response never goes back. -/
structure ResEffect where
  start : Bool
  finish : Bool
  deriving DecidableEq, Repr

def ResEffect.apply (e : ResEffect) (s : ResFlags) : ResFlags :=
  { s with started := s.started || e.start, ended := s.ended || e.finish }

def ResEffect.nothing : ResEffect := { start := false, finish := false }

/-- `response_t::set_error`. -/
def ResFlags.setError (e : CbError) (s : ResFlags) : ResFlags := { s with err := some e }

inductive HandlerKind where
  | pre
  | route
  | post
  deriving DecidableEq, Repr

/-- A handler together with the stage that invokes it. -/
abbrev StagedHandler := HandlerKind × RouteHandlerCb

abbrev ExecProg := CbProg StagedHandler CbError ResFlags
abbrev ExecWorld := CbWorld StagedHandler CbError ResFlags

/-! ## The chain -/

/-- The loop of `router_t::_run_pre_handlers` and `router_t::_run_post_handlers`, from the current
    handler on. The two differ in what they ask the response before they go to the next handler. -/
def runHandlersFrom (kind : HandlerKind) (stop : ResFlags → Bool) :
    List RouteHandlerCb → (Option CbError → ExecProg) → ExecProg
  | [], _ => .done
  | h :: hs, cb =>
    .frame fun cbCalled =>
      .call (kind, h)
        (fun err => .get cbCalled fun called =>
          if called then cb (some "Callback already called!")
          else .mark cbCalled (onOk cb
            (if hs.isEmpty then cb none
            else .deref cbCalled fun res =>
              if stop res then cb none else runHandlersFrom kind stop hs cb) err))
        -- the handler has returned
        (.get cbCalled fun called =>
          if called then .done
          else .look fun res => if res.started then .mark cbCalled (cb none) else cb none)

/-- `router_t::_run_pre_handlers`. -/
def runPreHandlersFrom (hs : List RouteHandlerCb) (cb : Option CbError → ExecProg) : ExecProg :=
  runHandlersFrom .pre (fun res => res.started) hs cb

/-- `router_t::_run_post_handlers`. -/
def runPostHandlersFrom (hs : List RouteHandlerCb) (cb : Option CbError → ExecProg) : ExecProg :=
  runHandlersFrom .post (fun res => res.ended) hs cb

/-- The walk of `router_t::run_pre_handlers` and `router_t::run_post_handlers`: the parent's
    handlers, then `own`, the router's. -/
def runChain (from' : List RouteHandlerCb → (Option CbError → ExecProg) → ExecProg)
    (own : RouterNode → List RouteHandlerCb) (r : RouterNode) :
    List RouterNode → (Option CbError → ExecProg) → ExecProg
  | [], cb => if (own r).isEmpty then cb none else from' (own r) cb
  | p :: ancestors, cb =>
    runChain from' own p ancestors
      (onOk cb (if (own r).isEmpty then cb none else from' (own r) cb))

/-- `router_t::run_pre_handlers`. -/
def RouterNode.runPreHandlers (r : RouterNode) (ancestors : List RouterNode)
    (cb : Option CbError → ExecProg) : ExecProg :=
  runChain runPreHandlersFrom RouterNode.preHandlers r ancestors cb

/-- `router_t::run_post_handlers`. -/
def RouterNode.runPostHandlers (r : RouterNode) (ancestors : List RouterNode)
    (cb : Option CbError → ExecProg) : ExecProg :=
  runChain runPostHandlersFrom RouterNode.postHandlers r ancestors cb

/-- `route_t::_exec`, from the current handler on. -/
def RouteNode.execFrom : List RouteHandlerCb → (Option CbError → ExecProg) → ExecProg
  | [], cb => cb (some "Executing a route without any handler!")
  | h :: hs, cb =>
    .frame fun c =>
      .call (.route, h)
        (onOk cb
          (if hs.isEmpty then cb none
          else .deref c fun res => if res.ended then cb none else execFrom hs cb))
        .done

/-- What `execute` does when the route's handlers are through: remember the error, and run the
    post-handlers. -/
def RouteResult.finish (rr : RouteResult) (cb : Option CbError → ExecProg) :
    Option CbError → ExecProg
  | some e => .update (ResFlags.setError e) (rr.router.runPostHandlers rr.ancestors cb)
  | none => rr.router.runPostHandlers rr.ancestors cb

/-- `route_result_t::execute`. -/
def RouteResult.execute (rr : RouteResult) (cb : Option CbError → ExecProg) : ExecProg :=
  rr.router.runPreHandlers rr.ancestors
    (onOk cb (.look fun res =>
      if res.started then cb none else RouteNode.execFrom rr.route.handlers (rr.finish cb)))

/-- The pre-handlers of a resolved route in the order they are due: the root's first. -/
def RouteResult.preHandlers (rr : RouteResult) : List RouteHandlerCb :=
  (rr.router :: rr.ancestors).reverse.flatMap RouterNode.preHandlers

/-! ## What handlers do -/

/-- What a handler does when it is invoked. -/
structure HandlerBehaviour where
  before : ResEffect
  reply : Reply CbError
  after : ResEffect

/-- The environment in which the `i`-th invocation, of `h`, does `spec i h`. -/
def handlerEnv (spec : Nat → StagedHandler → HandlerBehaviour) (strayFlag : Nat → Bool)
    (strayState : Nat → ResFlags) : CbEnv StagedHandler CbError ResFlags :=
  { behaviour := fun i h =>
      { before := (spec i h).before.apply
        reply := (spec i h).reply
        after := (spec i h).after.apply }
    strayFlag, strayState }

/-- What can happen between two runs of the chain. -/
inductive ResAction where
  | fire (i : Nat) (err : Option CbError)
  | touch (e : ResEffect)

def ResAction.toAction : ResAction → CbAction CbError ResFlags
  | .fire i err => .fire i err
  | .touch e => .touch e.apply

/-- The state after `execute` was called with a fresh response and `acts` have happened. -/
def RouteResult.executed (rr : RouteResult) (spec : Nat → StagedHandler → HandlerBehaviour)
    (strayFlag : Nat → Bool) (strayState : Nat → ResFlags) (acts : List ResAction) : ExecWorld :=
  (rr.execute .complete).schedule (handlerEnv spec strayFlag strayState) .fresh
    (acts.map ResAction.toAction)

/-! ## What the chain promises -/

/-- The handlers of `kind` that have called back without error, in order. -/
def accepted (kind : HandlerKind) (tr : List (CbEvent StagedHandler CbError)) :
    List RouteHandlerCb :=
  tr.filterMap fun
    | .answered _ h none => if h.1 = kind then some h.2 else none
    | _ => none

/-- No handler of the route is invoked before every one of `pres` has called back without error. -/
def RouteAfterPre (pres : List RouteHandlerCb) (tr : List (CbEvent StagedHandler CbError)) : Prop :=
  ∀ t i h u, tr = t ++ .invoked i (.route, h) :: u → accepted .pre t = pres

/-- No handler is slow in a place where the chain cannot wait: a pre-handler that has not called
    back when it returns has started the response and never calls back, and no post-handler calls
    back after it has returned. Handlers of the route may take their time. -/
structure Prompt (spec : Nat → StagedHandler → HandlerBehaviour) : Prop where
  pre_now : ∀ i h, (spec i (.pre, h)).reply ≠ .later
  pre_never : ∀ i h, (spec i (.pre, h)).reply = .never →
    (spec i (.pre, h)).before.start = true ∨ (spec i (.pre, h)).after.start = true
  post_now : ∀ i h, (spec i (.post, h)).reply ≠ .later

section Reading

variable {kind : HandlerKind} {pres : List RouteHandlerCb}

/-- An event of a stage: one of its handlers is invoked or calls back. -/
def stageEvent (kind : HandlerKind) : CbEvent StagedHandler CbError → Prop
  | .invoked _ h => h.1 = kind
  | .answered _ h _ => h.1 = kind
  | .completed _ => False

@[simp] theorem accepted_append (t u : List (CbEvent StagedHandler CbError)) :
    accepted kind (t ++ u) = accepted kind t ++ accepted kind u := by simp [accepted]

theorem accepted_other {k : HandlerKind} {t : List (CbEvent StagedHandler CbError)}
    (hk : k ≠ kind) (ht : ∀ ev ∈ t, stageEvent k ev) : accepted kind t = [] := by
  unfold accepted
  rw [List.filterMap_eq_nil_iff]
  intro ev hev
  have hstage := ht ev hev
  split
  · next i h =>
    have hne : h.1 ≠ kind := by
      intro he
      exact hk (hstage.symm.trans he)
    simp [hne]
  · rfl

theorem completions_stage {k : HandlerKind} {t : List (CbEvent StagedHandler CbError)}
    (ht : ∀ ev ∈ t, stageEvent k ev) : completions t = [] := by
  unfold completions
  rw [List.filterMap_eq_nil_iff]
  intro ev hev
  have hstage := ht ev hev
  cases ev with
  | invoked i h => rfl
  | answered i h err => rfl
  | completed err => exact hstage.elim

theorem RouteAfterPre.nil : RouteAfterPre pres [] := by
  intro t i h u heq
  simp at heq

/-- An event that starts no handler of the route cannot break the promise. -/
theorem RouteAfterPre.concat {tr : List (CbEvent StagedHandler CbError)}
    (h : RouteAfterPre pres tr) (ev : CbEvent StagedHandler CbError)
    (hev : ∀ i hd, ev = .invoked i (.route, hd) → accepted .pre tr = pres) :
    RouteAfterPre pres (tr ++ [ev]) := by
  intro t i hd u heq
  rcases List.eq_nil_or_concat u with rfl | ⟨u', x, rfl⟩
  · obtain ⟨rfl, hx⟩ := List.append_inj' heq rfl
    exact hev i hd (by simpa using hx)
  · rw [List.concat_eq_append, ← List.cons_append, ← List.append_assoc] at heq
    exact h t i hd u' (List.append_inj' heq rfl).1

theorem RouteAfterPre.append_stage {k : HandlerKind} {tr t : List (CbEvent StagedHandler CbError)}
    (h : RouteAfterPre pres tr) (hk : k ≠ .route) (ht : ∀ ev ∈ t, stageEvent k ev) :
    RouteAfterPre pres (tr ++ t) := by
  induction t using List.reverseRecOn with
  | nil => simpa using h
  | append_singleton t ev ih =>
    rw [← List.append_assoc]
    refine (ih fun e he => ht e (List.mem_append_left _ he)).concat ev ?_
    rintro i hd rfl
    exact absurd (ht _ (List.mem_append_right _ (List.mem_singleton_self _))).symm hk

end Reading

/-! ## One stage -/

/-- A predicate on worlds that only looks at the trace and at the outstanding callbacks. -/
def Visible (R : ExecWorld → Prop) : Prop :=
  ∀ w w', w'.trace = w.trace → w'.pending = w.pending → R w → R w'

/-- How a stage has got from `w` to the point `w'` where it hands `x` on, with `hs` due: it has only
    added events of its own, and if it reports no error then all of `hs` have accepted or it is
    excused. -/
structure StageTo (kind : HandlerKind) (Excused : ResFlags → Prop) (hs : List RouteHandlerCb)
    (w w' : ExecWorld) (x : Option CbError) : Prop where
  trace : ∃ t, w'.trace = w.trace ++ t ∧ (∀ ev ∈ t, stageEvent kind ev) ∧
    (x = none → accepted kind t = hs ∨ Excused w'.shared)
  pending : w'.pending = w.pending
  keeps : Excused w.shared → Excused w'.shared

/-- A stage whose handlers do not call back late, and what excuses it from having heard them all. -/
structure StageOk (env : CbEnv StagedHandler CbError ResFlags) (kind : HandlerKind)
    (stop : ResFlags → Bool) (Excused : ResFlags → Prop) : Prop where
  notLater : ∀ i h, (env.behaviour i (kind, h)).reply ≠ .later
  never : ∀ i h s, (env.behaviour i (kind, h)).reply = .never →
    Excused ((env.behaviour i (kind, h)).after ((env.behaviour i (kind, h)).before s))
  stop : ∀ s, stop s = true → Excused s
  before : ∀ i h s, Excused s → Excused ((env.behaviour i (kind, h)).before s)
  after : ∀ i h s, Excused s → Excused ((env.behaviour i (kind, h)).after s)

section Stage

variable {env : CbEnv StagedHandler CbError ResFlags} {kind : HandlerKind}
  {stop : ResFlags → Bool} {Excused : ResFlags → Prop} {R : ExecWorld → Prop}

theorem StageTo.trans {hs hs' : List RouteHandlerCb} {w w' w'' : ExecWorld} {x : Option CbError}
    (h : StageTo kind Excused hs w w' none) (h' : StageTo kind Excused hs' w' w'' x) :
    StageTo kind Excused (hs ++ hs') w w'' x := by
  obtain ⟨t, ht, hev, hacc⟩ := h.trace
  obtain ⟨t', ht', hev', hacc'⟩ := h'.trace
  refine ⟨⟨t ++ t', by rw [ht', ht, List.append_assoc], ?_, ?_⟩, h'.pending.trans h.pending,
    fun he => h'.keeps (h.keeps he)⟩
  · intro ev hmem
    rcases List.mem_append.1 hmem with hm | hm
    · exact hev ev hm
    · exact hev' ev hm
  · intro hx
    rcases hacc rfl with ha | he
    · rcases hacc' hx with ha' | he'
      · exact Or.inl (by rw [accepted_append, ha, ha'])
      · exact Or.inr he'
    · exact Or.inr (h'.keeps he)

/-- A stage that reports an error owes nothing to the handlers still due. -/
theorem StageTo.error {hs hs' : List RouteHandlerCb} {w w' : ExecWorld} {e : CbError}
    (h : StageTo kind Excused hs w w' (some e)) : StageTo kind Excused hs' w w' (some e) := by
  obtain ⟨t, ht, hev, -⟩ := h.trace
  exact ⟨⟨t, ht, hev, by simp⟩, h.pending, h.keeps⟩

theorem Visible.frame (hR : Visible R) (body : Nat → ExecProg) (w : ExecWorld)
    (h : R ((body w.cells.length).run env { w with cells := w.cells ++ [some false] })) :
    R ((CbProg.frame body).run env w) :=
  hR ((body w.cells.length).run env { w with cells := w.cells ++ [some false] }) _ rfl rfl h

theorem StageTo.mark {hs : List RouteHandlerCb} {w w' : ExecWorld} {x : Option CbError}
    (h : StageTo kind Excused hs w w' x) (c : Nat) : StageTo kind Excused hs w (w'.mark c) x := by
  obtain ⟨t, ht, hev, hacc⟩ := h.trace
  exact ⟨⟨t, by rw [CbWorld.mark_trace, ht], hev, by rwa [CbWorld.mark_shared]⟩,
    by rw [CbWorld.mark_pending, h.pending], by rw [CbWorld.mark_shared]; exact h.keeps⟩

/-- A handler is entered and calls back during its call. -/
theorem StageTo.answered (hok : StageOk env kind stop Excused) (h : RouteHandlerCb)
    (w : ExecWorld) (err : Option CbError) :
    StageTo kind Excused [h] w
      ((w.enter env (kind, h)).log (.answered w.calls (kind, h) err)) err := by
  refine ⟨⟨[.invoked w.calls (kind, h), .answered w.calls (kind, h) err], ?_, ?_, ?_⟩, rfl,
    fun he => hok.before _ _ _ he⟩
  · simp [CbWorld.enter, CbWorld.log]
  · simp [stageEvent]
  · rintro rfl
    exact Or.inl (by simp [accepted])

/-- A handler is entered and returns without having called back. -/
theorem StageTo.silent (hok : StageOk env kind stop Excused) (h : RouteHandlerCb)
    (hs : List RouteHandlerCb) (w : ExecWorld)
    (hr : (env.behaviour w.calls (kind, h)).reply = .never) :
    StageTo kind Excused hs w ((w.enter env (kind, h)).leave env w.calls (kind, h)) none :=
  ⟨⟨[.invoked w.calls (kind, h)], rfl, by simp [stageEvent],
    fun _ => Or.inr (hok.never _ _ _ hr)⟩, rfl, fun he => hok.after _ _ _ (hok.before _ _ _ he)⟩

/-- What is still due does not matter once the stage is excused. -/
theorem StageTo.excused {hs hs' : List RouteHandlerCb} {w w' : ExecWorld} {x : Option CbError}
    (h : StageTo kind Excused hs w w' x) (he : Excused w'.shared) :
    StageTo kind Excused hs' w w' x := by
  obtain ⟨t, ht, hev, -⟩ := h.trace
  exact ⟨⟨t, ht, hev, fun _ => Or.inr he⟩, h.pending, h.keeps⟩

/-- **One router's stage.** Whatever must hold when the stage hands its result on holds when the
    stage has returned. -/
theorem runHandlersFrom_run (hok : StageOk env kind stop Excused) (hR : Visible R)
    (hs : List RouteHandlerCb) (hne : hs ≠ []) (cb : Option CbError → ExecProg) (w : ExecWorld)
    (hcb : ∀ x w', StageTo kind Excused hs w w' x → R ((cb x).run env w')) :
    R ((runHandlersFrom kind stop hs cb).run env w) := by
  induction hs generalizing w with
  | nil => exact absurd rfl hne
  | cons h hs ih =>
    -- the frame is open
    refine hR.frame _ w ?_
    set c := w.cells.length with hc
    set w₀ : ExecWorld := { w with cells := w.cells ++ [some false] } with hw₀
    have hcell : w₀.cells[c]? = some (some false) := by simp [hw₀, hc]
    have hcb₀ : ∀ x w', StageTo kind Excused (h :: hs) w₀ w' x → R ((cb x).run env w') :=
      fun x w' hto => hcb x w' ⟨hto.trace, hto.pending, hto.keeps⟩
    cases hreply : (env.behaviour w₀.calls (kind, h)).reply with
    | later => exact absurd hreply (hok.notLater _ _)
    | never =>
      -- the handler has returned with the flag down, and the stage goes on by itself
      have hto := StageTo.silent hok h (h :: hs) w₀ hreply
      have hcell₁ : ((w₀.enter env (kind, h)).leave env w₀.calls (kind, h)).cells[c]?
          = some (some false) := hcell
      rw [CbProg.run_call_never hreply, CbProg.run_get_live hcell₁]
      simp only [Bool.false_eq_true, if_false, CbProg.run]
      split
      · exact hcb₀ none _ (hto.mark c)
      · exact hcb₀ none _ hto
    | now err =>
      -- the callback runs on top of the handler's call and puts the flag up
      set w₁ : ExecWorld := (w₀.enter env (kind, h)).log (.answered w₀.calls (kind, h) err) with hw₁
      have hcell₁ : w₁.cells[c]? = some (some false) := hcell
      have hmark : (w₁.mark c).cells[c]? = some (some true) := CbWorld.mark_live w₁ c false hcell₁
      have hto : StageTo kind Excused [h] w₀ (w₁.mark c) err :=
        (StageTo.answered hok h w₀ err).mark c
      rw [CbProg.run_call_now hreply, CbProg.run_get_live hcell₁, if_neg (by simp),
        CbProg.run_mark]
      generalize hk : onOk cb _ err = k
      have hup : (CbWorld.leave env (k.run env (w₁.mark c)) w₀.calls (kind, h)).cells[c]?
          = some (some true) := CbProg.run_marked env k _ c hmark
      rw [CbProg.run_get_live hup, if_pos rfl]
      refine hR (k.run env (w₁.mark c)) _ rfl rfl ?_
      subst hk
      cases err with
      | some e => exact hcb₀ (some e) _ hto.error
      | none =>
        simp only [onOk_none]
        split
        · next hlast =>
          obtain rfl : hs = [] := List.isEmpty_iff.1 hlast
          exact hcb₀ none _ hto
        · next hmore =>
          rw [CbProg.run_deref_live hmark]
          split
          · next hstop => exact hcb₀ none _ (hto.excused (hok.stop _ hstop))
          · refine ih (by simpa using hmore) _ fun x w' hrest => ?_
            exact hcb₀ x w' (hto.trans hrest)

theorem StageTo.refl (w : ExecWorld) : StageTo kind Excused [] w w none :=
  ⟨⟨[], by simp, by simp, fun _ => Or.inl rfl⟩, rfl, id⟩

/-- A router without handlers hands `none` on at once. -/
theorem runOwn_run (hok : StageOk env kind stop Excused) (hR : Visible R)
    (hs : List RouteHandlerCb) (cb : Option CbError → ExecProg) (w : ExecWorld)
    (hcb : ∀ x w', StageTo kind Excused hs w w' x → R ((cb x).run env w')) :
    R ((if hs.isEmpty then cb none else runHandlersFrom kind stop hs cb).run env w) := by
  split
  · next hemp =>
    obtain rfl : hs = [] := List.isEmpty_iff.1 hemp
    exact hcb none w (.refl w)
  · next hne => exact runHandlersFrom_run hok hR hs (by simpa using hne) cb w hcb

/-- **The stage of a whole chain of routers**, the root's handlers first. -/
theorem runChain_run (hok : StageOk env kind stop Excused) (hR : Visible R)
    (own : RouterNode → List RouteHandlerCb) (r : RouterNode) (ancestors : List RouterNode)
    (cb : Option CbError → ExecProg) (w : ExecWorld)
    (hcb : ∀ x w', StageTo kind Excused ((r :: ancestors).reverse.flatMap own) w w' x →
      R ((cb x).run env w')) :
    R ((runChain (runHandlersFrom kind stop) own r ancestors cb).run env w) := by
  induction ancestors generalizing r cb with
  | nil =>
    simp only [runChain]
    exact runOwn_run hok hR (own r) cb w (by simpa using hcb)
  | cons p ancestors ih =>
    simp only [runChain]
    refine ih p _ fun x w' hto => ?_
    cases x with
    | some e => exact hcb (some e) w' hto.error
    | none =>
      refine runOwn_run hok hR (own r) cb w' fun x w'' hto' => hcb x w'' ?_
      have hsplit : (r :: p :: ancestors).reverse.flatMap own
          = (p :: ancestors).reverse.flatMap own ++ own r := by simp
      rw [hsplit]
      exact hto.trans hto'

end Stage

theorem Prompt.pre_ok {spec : Nat → StagedHandler → HandlerBehaviour} (h : Prompt spec)
    (strayFlag : Nat → Bool) (strayState : Nat → ResFlags) :
    StageOk (handlerEnv spec strayFlag strayState) .pre (fun res => res.started)
      (fun res => res.started = true) where
  notLater := h.pre_now
  never := by
    intro i hd s hr
    rcases h.pre_never i hd hr with hs | hs <;> simp [handlerEnv, ResEffect.apply, hs]
  stop := fun _ hs => hs
  before := by
    intro i hd s hs
    simp [handlerEnv, ResEffect.apply, hs]
  after := by
    intro i hd s hs
    simp [handlerEnv, ResEffect.apply, hs]

theorem Prompt.post_ok {spec : Nat → StagedHandler → HandlerBehaviour} (h : Prompt spec)
    (strayFlag : Nat → Bool) (strayState : Nat → ResFlags) :
    StageOk (handlerEnv spec strayFlag strayState) .post (fun res => res.ended) (fun _ => True) where
  notLater := h.post_now
  never := fun _ _ _ _ => trivial
  stop := fun _ _ => trivial
  before := fun _ _ _ _ => trivial
  after := fun _ _ _ _ => trivial

/-! ## The whole chain -/

/-- The route may go on: every pre-handler has accepted and nothing is outstanding. -/
structure Ready (pres : List RouteHandlerCb) (w : ExecWorld) : Prop where
  order : RouteAfterPre pres w.trace
  heard : accepted .pre w.trace = pres
  running : completions w.trace = []
  idle : w.pending = []

/-- What the callback handed to a handler of the route does. -/
def RouteNode.execNext (c : Nat) (hs : List RouteHandlerCb) (cb : Option CbError → ExecProg) :
    Option CbError → ExecProg :=
  onOk cb (if hs.isEmpty then cb none
    else .deref c fun res => if res.ended then cb none else RouteNode.execFrom hs cb)

/-- The invariant of the chain: either nothing is outstanding and `execute` has called back once at
    most, or a handler of the route is being waited for. -/
structure ExecInv (rr : RouteResult) (w : ExecWorld) : Prop where
  order : RouteAfterPre rr.preHandlers w.trace
  standing : (w.pending = [] ∧ (completions w.trace).length ≤ 1) ∨
    (∃ i h c hs, w.pending = [⟨i, (.route, h), RouteNode.execNext c hs (rr.finish .complete)⟩] ∧
      accepted .pre w.trace = rr.preHandlers ∧ completions w.trace = [])

theorem ExecInv.visible (rr : RouteResult) : Visible (ExecInv rr) := by
  intro w w' ht hp h
  obtain ⟨horder, hstanding⟩ := h
  rw [← ht] at horder
  rw [← ht, ← hp] at hstanding
  exact ⟨horder, hstanding⟩

/-- `execute` calls back while nothing is outstanding. -/
theorem ExecInv.completed {rr : RouteResult} {w : ExecWorld} (x : Option CbError)
    (horder : RouteAfterPre rr.preHandlers w.trace) (hrunning : completions w.trace = [])
    (hidle : w.pending = []) : ExecInv rr (w.log (.completed x)) := by
  refine ⟨horder.concat _ (by simp), Or.inl ⟨hidle, ?_⟩⟩
  simp [CbWorld.log, hrunning]

section Whole

variable {spec : Nat → StagedHandler → HandlerBehaviour} {strayFlag : Nat → Bool}
  {strayState : Nat → ResFlags}

theorem Ready.answered {pres : List RouteHandlerCb} {w : ExecWorld} (hw : Ready pres w)
    (i : Nat) (h : RouteHandlerCb) (err : Option CbError) :
    Ready pres (w.log (.answered i (.route, h) err)) where
  order := hw.order.concat _ (by simp)
  heard := by
    show accepted .pre (w.trace ++ [_]) = pres
    rw [accepted_append, hw.heard, accepted_other (k := .route) (by decide) (by simp [stageEvent]),
      List.append_nil]
  running := by simp [CbWorld.log, hw.running]
  idle := hw.idle

/-- A handler of the route is invoked, which is what the pre-handlers were waited for. -/
theorem Ready.enter {pres : List RouteHandlerCb} {w : ExecWorld} (hw : Ready pres w)
    (env : CbEnv StagedHandler CbError ResFlags) (h : RouteHandlerCb) :
    Ready pres (w.enter env (.route, h)) where
  order := hw.order.concat _ (fun _ _ _ => hw.heard)
  heard := by
    show accepted .pre (w.trace ++ [_]) = pres
    rw [accepted_append, hw.heard, accepted_other (k := .route) (by decide) (by simp [stageEvent]),
      List.append_nil]
  running := by simp [CbWorld.enter, hw.running]
  idle := hw.idle

theorem RouteResult.finish_run (hprompt : Prompt spec) (rr : RouteResult) (w : ExecWorld)
    (hw : Ready rr.preHandlers w) (x : Option CbError) :
    ExecInv rr ((rr.finish .complete x).run (handlerEnv spec strayFlag strayState) w) := by
  have hpost : ∀ w', w'.trace = w.trace → w'.pending = w.pending →
      ExecInv rr ((rr.router.runPostHandlers rr.ancestors .complete).run
        (handlerEnv spec strayFlag strayState) w') := by
    intro w' ht hp
    refine runChain_run (hprompt.post_ok strayFlag strayState) (ExecInv.visible rr) _ _ _ _ _ ?_
    intro y w'' hto
    obtain ⟨t, ht', hev, -⟩ := hto.trace
    refine ExecInv.completed y ?_ ?_ ?_
    · rw [ht', ht]
      exact hw.order.append_stage (by decide) hev
    · rw [ht', ht, completions_append, hw.running, completions_stage hev, List.append_nil]
    · rw [hto.pending, hp, hw.idle]
  cases x with
  | none => exact hpost w rfl rfl
  | some e => exact hpost { w with shared := ResFlags.setError e w.shared } rfl rfl

theorem RouteNode.execNext_run (hprompt : Prompt spec) (rr : RouteResult) (c : Nat)
    (hs : List RouteHandlerCb)
    (hexec : ∀ w, Ready rr.preHandlers w → ExecInv rr
      ((RouteNode.execFrom hs (rr.finish .complete)).run
        (handlerEnv spec strayFlag strayState) w))
    (err : Option CbError) (w : ExecWorld) (hw : Ready rr.preHandlers w) :
    ExecInv rr ((RouteNode.execNext c hs (rr.finish .complete) err).run
      (handlerEnv spec strayFlag strayState) w) := by
  unfold RouteNode.execNext
  cases err with
  | some e => exact rr.finish_run hprompt w hw (some e)
  | none =>
    simp only [onOk_none]
    split
    · exact rr.finish_run hprompt w hw none
    · simp only [CbProg.run]
      split
      · exact rr.finish_run hprompt w hw none
      · exact hexec w hw

theorem RouteNode.execFrom_run (hprompt : Prompt spec) (rr : RouteResult)
    (hs : List RouteHandlerCb) (w : ExecWorld) (hw : Ready rr.preHandlers w) :
    ExecInv rr ((RouteNode.execFrom hs (rr.finish .complete)).run
      (handlerEnv spec strayFlag strayState) w) := by
  induction hs generalizing w with
  | nil => exact rr.finish_run hprompt w hw _
  | cons h hs ih =>
    simp only [RouteNode.execFrom]
    refine (ExecInv.visible rr).frame _ w ?_
    set w₀ : ExecWorld := { w with cells := w.cells ++ [some false] } with hw₀
    have hready : Ready rr.preHandlers w₀ := ⟨hw.order, hw.heard, hw.running, hw.idle⟩
    have hnext := RouteNode.execNext_run hprompt rr w.cells.length hs ih
    have hin := hready.enter (handlerEnv spec strayFlag strayState) h
    cases hreply : ((handlerEnv spec strayFlag strayState).behaviour w₀.calls (.route, h)).reply with
    | now err =>
      rw [CbProg.run_call_now hreply]
      have hgo := hnext err _ (hin.answered w₀.calls h err)
      refine ExecInv.visible rr _ _ ?_ ?_ hgo <;> rfl
    | later =>
      rw [CbProg.run_call_later hreply]
      refine ⟨hin.order, Or.inr ⟨w₀.calls, h, w.cells.length, hs, ?_, hin.heard, hin.running⟩⟩
      show (w₀.enter _ (.route, h)).pending ++ [_] = _
      rw [hin.idle]
      rfl
    | never =>
      rw [CbProg.run_call_never hreply]
      have hlen : (completions
          (w₀.enter (handlerEnv spec strayFlag strayState) (.route, h)).trace).length ≤ 1 := by
        simp [hin.running]
      exact ⟨hin.order, Or.inl ⟨hin.idle, hlen⟩⟩

/-- `execute` itself establishes the invariant. -/
theorem RouteResult.execute_run (hprompt : Prompt spec) (rr : RouteResult) (s : ResFlags) :
    ExecInv rr ((rr.execute .complete).run (handlerEnv spec strayFlag strayState)
      (CbWorld.start s)) := by
  refine runChain_run (hprompt.pre_ok strayFlag strayState) (ExecInv.visible rr) _ _ _ _ _ ?_
  intro x w hto
  obtain ⟨t, ht, hev, hacc⟩ := hto.trace
  have htrace : w.trace = t := by rw [ht]; rfl
  have horder : RouteAfterPre rr.preHandlers w.trace := by
    rw [ht]
    exact RouteAfterPre.nil.append_stage (by decide) hev
  have hrunning : completions w.trace = [] := by rw [htrace, completions_stage hev]
  have hidle : w.pending = [] := hto.pending
  cases x with
  | some e => exact ExecInv.completed (some e) horder hrunning hidle
  | none =>
    simp only [onOk_none, CbProg.run]
    split
    · exact ExecInv.completed none horder hrunning hidle
    · next hstarted =>
      rcases hacc rfl with ha | he
      · exact RouteNode.execFrom_run hprompt rr rr.route.handlers w
          ⟨horder, htrace ▸ ha, hrunning, hidle⟩
      · exact absurd he hstarted

/-- The invariant survives a handler calling back late, and anything done to the response. -/
theorem ExecInv.step (hprompt : Prompt spec) (rr : RouteResult) (w : ExecWorld) (h : ExecInv rr w)
    (a : CbAction CbError ResFlags) :
    ExecInv rr (w.step (handlerEnv spec strayFlag strayState) a) := by
  cases a with
  | touch f => exact ExecInv.visible rr w _ rfl rfl h
  | fire i err =>
    simp only [CbWorld.step]
    split
    · exact h
    · next p hfind =>
      have hmem := List.mem_of_find?_eq_some hfind
      have hidx : p.index = i := by simpa using (List.find?_eq_some_iff_append.1 hfind).1
      rcases h.standing with ⟨hidle, -⟩ | ⟨j, hd, c, hs, hpending, hheard, hrunning⟩
      · simp [hidle] at hmem
      · rw [hpending, List.mem_singleton] at hmem
        subst hmem
        subst hidx
        have hready : Ready rr.preHandlers { w with pending := [] } :=
          ⟨h.order, hheard, hrunning, rfl⟩
        have hexec : ∀ w, Ready rr.preHandlers w → ExecInv rr
            ((RouteNode.execFrom hs (rr.finish .complete)).run
              (handlerEnv spec strayFlag strayState) w) :=
          fun w hw => RouteNode.execFrom_run hprompt rr hs w hw
        have hgo := RouteNode.execNext_run hprompt rr c hs hexec err _ (hready.answered j hd err)
        simpa [hpending, CbWorld.log] using hgo

end Whole

/-- **The chain keeps its promise as long as no handler is slow where it cannot wait.** Whatever
    happens between two runs, no handler of the route is invoked before every pre-handler from the
    root down has called back without error, and `execute` calls back once at most. -/
theorem RouteResult.execute_pre_handlers_first (rr : RouteResult)
    (spec : Nat → StagedHandler → HandlerBehaviour) (strayFlag : Nat → Bool)
    (strayState : Nat → ResFlags) (acts : List ResAction) (hprompt : Prompt spec) :
    RouteAfterPre rr.preHandlers (rr.executed spec strayFlag strayState acts).trace ∧
      (completions (rr.executed spec strayFlag strayState acts).trace).length ≤ 1 := by
  have hinv : ExecInv rr (rr.executed spec strayFlag strayState acts) :=
    CbProg.schedule_induction _ (ExecInv rr) _ _ _ (rr.execute_run hprompt .fresh)
      (fun w hw a _ => hw.step hprompt rr w a)
  refine ⟨hinv.order, ?_⟩
  rcases hinv.standing with ⟨-, hlen⟩ | ⟨i, h, c, hs, -, -, hrunning⟩
  · exact hlen
  · simp [hrunning]

/-- One router with pre-handler `1`, a route with handler `2`. -/
def twoHandlers : RouteResult :=
  { route := { policies := [], handlers := [2] }
    router := { policies := [], preHandlers := [1], postHandlers := [] }
    ancestors := [] }

/-- Handlers that all do the same: they leave the response alone. -/
def allReply (reply : HandlerKind → Reply CbError) : Nat → StagedHandler → HandlerBehaviour :=
  fun _ h => { before := .nothing, reply := reply h.1, after := .nothing }

/-- A pre-handler that answers at once and a route handler that takes its time. -/
def promptReplies : HandlerKind → Reply CbError
  | .pre => .now none
  | .route => .later
  | .post => .now none

theorem execute_pre_handlers_first_prompt :
    RouteAfterPre [1] (twoHandlers.executed (allReply promptReplies) (fun _ => false)
        (fun _ => .fresh) [.fire 1 none]).trace ∧
      (twoHandlers.executed (allReply promptReplies) (fun _ => false)
        (fun _ => .fresh) [.fire 1 none]).trace
        = [.invoked 0 (.pre, 1), .answered 0 (.pre, 1) none, .invoked 1 (.route, 2),
          .answered 1 (.route, 2) none, .completed none] := by
  refine ⟨(twoHandlers.execute_pre_handlers_first _ _ _ _ ?_).1, by decide⟩
  constructor
  · intro i h
    simp [allReply, promptReplies]
  · intro i h hnever
    cases hnever
  · intro i h
    simp [allReply, promptReplies]

/-- A pre-handler that calls back late is run past: the route's handler is invoked, and `execute`
    completes, before the pre-handler has said a word; when it then reports an error, `execute`
    calls back a second time. -/
theorem execute_runs_past_slow_pre_handler :
    ¬ ∀ (rr : RouteResult) (spec : Nat → StagedHandler → HandlerBehaviour)
      (strayFlag : Nat → Bool) (strayState : Nat → ResFlags) (acts : List ResAction),
      RouteAfterPre rr.preHandlers (rr.executed spec strayFlag strayState acts).trace ∧
        (completions (rr.executed spec strayFlag strayState acts).trace).length ≤ 1 := by
  intro h
  have hrun := h twoHandlers (allReply fun | .pre => .later | _ => .now none) (fun _ => false)
    (fun _ => .fresh) [.fire 0 (some "no")]
  have htrace : (twoHandlers.executed (allReply fun | .pre => .later | _ => .now none)
      (fun _ => false) (fun _ => .fresh) [.fire 0 (some "no")]).trace
      = [.invoked 0 (.pre, 1)] ++ .invoked 1 (.route, 2) ::
        [.answered 1 (.route, 2) none, .completed none, .answered 0 (.pre, 1) (some "no"),
          .completed (some "no")] := by decide
  have hpre := hrun.1 _ _ _ _ htrace
  exact absurd hpre (by decide)

end LibEvmvc
