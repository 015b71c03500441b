import Mathlib.Data.List.Basic
import Mathlib.Data.List.Infix

set_option autoImplicit false

/-! # Programs in callback-passing style

A chain of asynchronous handlers is code that hands every handler a callback and goes on inside it.
The handler may call back while the call is still on the stack, or long after the caller has
returned, or never. `CbProg` is the shape of such code: a `call` carries both the callback and what
the caller does once the handler has *returned*, so "the callback fires during the call" and "the
callback fires later" are two different executions of one program.

Local variables that a callback captures by reference live in a `frame`. The frame dies when its
body returns; a callback that fires afterwards reads whatever the dead stack slot holds, which the
environment decides (`strayFlag`, `strayState`).

`CbProg.run` executes a program up to the point where it only waits for callbacks; `CbWorld.step`
lets the outside world fire one of them or touch the shared state. The last section develops the
simplest chain, `consultAll`: consult a list of parties one after the other and stop at the first
one that objects. -/

namespace LibEvmvc

/-! ## Programs -/

/-- Callback-passing code over handlers `H`, errors `E` and a shared state `S`. -/
inductive CbProg (H E S : Type) where
  /-- return to the caller -/
  | done
  /-- call the callback the whole program was started with, and return -/
  | complete (err : Option E)
  /-- call a handler with a callback; `after` runs when the handler returns -/
  | call (h : H) (cb : Option E → CbProg H E S) (after : CbProg H E S)
  /-- open a stack frame holding one flag, initially false -/
  | frame (body : Nat → CbProg H E S)
  /-- read the flag of frame `c` -/
  | get (c : Nat) (k : Bool → CbProg H E S)
  /-- set the flag of frame `c` to true -/
  | mark (c : Nat) (k : CbProg H E S)
  /-- read the shared state -/
  | look (k : S → CbProg H E S)
  /-- read the shared state through a reference that lives in frame `c` -/
  | deref (c : Nat) (k : S → CbProg H E S)
  /-- change the shared state -/
  | update (f : S → S) (k : CbProg H E S)

/-- When a handler calls its callback: during its call, some time after it has returned, or never.
    No handler calls back twice. -/
inductive Reply (E : Type) where
  | now (err : Option E)
  | later
  | never

/-- What one invocation of a handler does while its call is on the stack: an effect on the shared
    state, then its callback if it replies `now`, then another effect before it returns. -/
structure Behaviour (E S : Type) where
  before : S → S
  reply : Reply E
  after : S → S

/-- Everything the code does not decide: what handler `h` does when it is the `i`-th one invoked,
    and what is read through a reference into a dead frame. -/
structure CbEnv (H E S : Type) where
  behaviour : Nat → H → Behaviour E S
  strayFlag : Nat → Bool
  strayState : Nat → S

/-- What can be observed of a run, in order. -/
inductive CbEvent (H E : Type) where
  | invoked (i : Nat) (h : H)
  | answered (i : Nat) (h : H) (err : Option E)
  | completed (err : Option E)
  deriving DecidableEq, Repr

/-- A callback that has been handed out and not called yet. -/
structure Pending (H E S : Type) where
  index : Nat
  handler : H
  cb : Option E → CbProg H E S

structure CbWorld (H E S : Type) where
  shared : S
  cells : List (Option Bool)
  calls : Nat
  pending : List (Pending H E S)
  trace : List (CbEvent H E)

/-- The world a program is started in. -/
def CbWorld.start {H E S : Type} (s : S) : CbWorld H E S :=
  { shared := s, cells := [], calls := 0, pending := [], trace := [] }

variable {H E S : Type}

def CbWorld.log (w : CbWorld H E S) (ev : CbEvent H E) : CbWorld H E S :=
  { w with trace := w.trace ++ [ev] }

/-- The flag of frame `c`, or whatever its dead slot holds. -/
def CbWorld.flag (env : CbEnv H E S) (w : CbWorld H E S) (c : Nat) : Bool :=
  match w.cells[c]? with
  | some (some b) => b
  | _ => env.strayFlag c

/-- The shared state seen through a reference in frame `c`. -/
def CbWorld.via (env : CbEnv H E S) (w : CbWorld H E S) (c : Nat) : S :=
  match w.cells[c]? with
  | some (some _) => w.shared
  | _ => env.strayState c

/-- Setting a flag only reaches a live frame. -/
@[grind =] def CbWorld.mark (w : CbWorld H E S) (c : Nat) : CbWorld H E S :=
  match w.cells[c]? with
  | some (some _) => { w with cells := w.cells.set c (some true) }
  | _ => w

@[simp] theorem CbWorld.mark_trace (w : CbWorld H E S) (c : Nat) : (w.mark c).trace = w.trace := by
  unfold CbWorld.mark
  split <;> rfl

@[simp] theorem CbWorld.mark_pending (w : CbWorld H E S) (c : Nat) :
    (w.mark c).pending = w.pending := by
  unfold CbWorld.mark
  split <;> rfl

@[simp] theorem CbWorld.mark_shared (w : CbWorld H E S) (c : Nat) :
    (w.mark c).shared = w.shared := by
  unfold CbWorld.mark
  split <;> rfl

theorem CbWorld.mark_live (w : CbWorld H E S) (c : Nat) (b : Bool)
    (hc : w.cells[c]? = some (some b)) : (w.mark c).cells[c]? = some (some true) := by
  have hlt : c < w.cells.length := (List.getElem?_eq_some_iff.1 hc).1
  simp only [CbWorld.mark, hc]
  simp [hlt]

/-- The `i`-th invocation begins. -/
def CbWorld.enter (env : CbEnv H E S) (w : CbWorld H E S) (h : H) : CbWorld H E S :=
  { w with
    shared := (env.behaviour w.calls h).before w.shared
    calls := w.calls + 1
    trace := w.trace ++ [.invoked w.calls h] }

/-- Invocation `i`, of `h`, returns to its caller. -/
def CbWorld.leave (env : CbEnv H E S) (w : CbWorld H E S) (i : Nat) (h : H) : CbWorld H E S :=
  { w with shared := (env.behaviour i h).after w.shared }

/-- Invocation `i`, of `h`, keeps its callback for later. -/
def CbWorld.putAside (w : CbWorld H E S) (i : Nat) (h : H) (cb : Option E → CbProg H E S) :
    CbWorld H E S :=
  { w with pending := w.pending ++ [⟨i, h, cb⟩] }

/-- Run a program until it returns. A handler that replies during its call runs the callback on
    top of the caller's stack; one that replies later puts it aside. -/
@[grind =] def CbProg.run (env : CbEnv H E S) : CbProg H E S → CbWorld H E S → CbWorld H E S
  | .done, w => w
  | .complete err, w => w.log (.completed err)
  | .call h cb after, w =>
    match (env.behaviour w.calls h).reply with
    | .now err =>
      let inner := (cb err).run env ((w.enter env h).log (.answered w.calls h err))
      after.run env (inner.leave env w.calls h)
    | .later => after.run env (((w.enter env h).putAside w.calls h cb).leave env w.calls h)
    | .never => after.run env ((w.enter env h).leave env w.calls h)
  | .frame body, w =>
    let w' := (body w.cells.length).run env { w with cells := w.cells ++ [some false] }
    { w' with cells := w'.cells.set w.cells.length none }
  | .get c k, w => (k (w.flag env c)).run env w
  | .mark c k, w => k.run env (w.mark c)
  | .look k, w => (k w.shared).run env w
  | .deref c k, w => (k (w.via env c)).run env w
  | .update f k, w => k.run env { w with shared := f w.shared }

section Call

variable {env : CbEnv H E S} {w : CbWorld H E S} {h : H} {cb : Option E → CbProg H E S}
  {after : CbProg H E S}

theorem CbProg.run_call_now {err : Option E} (hr : (env.behaviour w.calls h).reply = .now err) :
    (CbProg.call h cb after).run env w
      = after.run env (CbWorld.leave env
          ((cb err).run env ((w.enter env h).log (.answered w.calls h err))) w.calls h) := by
  simp only [CbProg.run, hr]

theorem CbProg.run_call_later (hr : (env.behaviour w.calls h).reply = .later) :
    (CbProg.call h cb after).run env w
      = after.run env (((w.enter env h).putAside w.calls h cb).leave env w.calls h) := by
  simp only [CbProg.run, hr]

theorem CbProg.run_call_never (hr : (env.behaviour w.calls h).reply = .never) :
    (CbProg.call h cb after).run env w
      = after.run env ((w.enter env h).leave env w.calls h) := by
  simp only [CbProg.run, hr]

theorem CbProg.run_mark {c : Nat} {k : CbProg H E S} :
    (CbProg.mark c k).run env w = k.run env (w.mark c) := rfl

theorem CbProg.run_get_live {c : Nat} {b : Bool} {k : Bool → CbProg H E S}
    (hc : w.cells[c]? = some (some b)) : (CbProg.get c k).run env w = (k b).run env w := by
  simp only [CbProg.run, CbWorld.flag, hc]

theorem CbProg.run_deref_live {c : Nat} {b : Bool} {k : S → CbProg H E S}
    (hc : w.cells[c]? = some (some b)) :
    (CbProg.deref c k).run env w = (k w.shared).run env w := by
  simp only [CbProg.run, CbWorld.via, hc]

end Call

/-- What the outside world does between two runs: call an outstanding callback, or change the
    shared state. -/
inductive CbAction (E S : Type) where
  | fire (i : Nat) (err : Option E)
  | touch (f : S → S)

/-- A callback that fires is no longer outstanding, so it fires once at most. -/
@[grind =] def CbWorld.step (env : CbEnv H E S) (w : CbWorld H E S) : CbAction E S → CbWorld H E S
  | .fire i err =>
    match w.pending.find? (fun p => p.index = i) with
    | none => w
    | some p =>
      (p.cb err).run env
        { w with
          pending := w.pending.filter (fun q => q.index ≠ i)
          trace := w.trace ++ [.answered i p.handler err] }
  | .touch f => { w with shared := f w.shared }

/-- A whole schedule: the program is started, then the actions happen in order. -/
def CbProg.schedule (env : CbEnv H E S) (p : CbProg H E S) (s : S) (acts : List (CbAction E S)) :
    CbWorld H E S :=
  acts.foldl (CbWorld.step env) (p.run env (CbWorld.start s))

/-! ## Reading a trace -/

/-- The handlers invoked, in order. -/
def invocations (tr : List (CbEvent H E)) : List H :=
  tr.filterMap fun | .invoked _ h => some h | _ => none

/-- The results the final callback was called with, in order. -/
def completions (tr : List (CbEvent H E)) : List (Option E) :=
  tr.filterMap fun | .completed err => some err | _ => none

section Reading

variable (i : Nat) (h : H) (err : Option E) (t u : List (CbEvent H E))

@[simp] theorem invocations_nil : invocations ([] : List (CbEvent H E)) = [] := rfl

@[simp] theorem invocations_invoked :
    invocations (.invoked i h :: t) = h :: invocations t := rfl

@[simp] theorem invocations_answered :
    invocations (.answered i h err :: t) = invocations t := rfl

@[simp] theorem invocations_completed :
    invocations (.completed err :: t) = invocations t := rfl

@[simp] theorem completions_nil : completions ([] : List (CbEvent H E)) = [] := rfl

@[simp] theorem completions_invoked :
    completions (.invoked i h :: t) = completions t := rfl

@[simp] theorem completions_answered :
    completions (.answered i h err :: t) = completions t := rfl

@[simp] theorem completions_completed :
    completions (.completed err :: t) = err :: completions t := rfl

@[simp] theorem invocations_append :
    invocations (t ++ u) = invocations t ++ invocations u := by simp [invocations]

@[simp] theorem completions_append :
    completions (t ++ u) = completions t ++ completions u := by simp [completions]

end Reading

/-! ## What every run does -/

/-- A flag that has been set stays set while its frame lives: programs only ever set flags, and the
    frames they open are new ones. -/
theorem CbProg.run_marked (env : CbEnv H E S) (p : CbProg H E S) (w : CbWorld H E S) (c : Nat)
    (hc : w.cells[c]? = some (some true)) : (p.run env w).cells[c]? = some (some true) := by
  induction p generalizing w with
  | done => exact hc
  | complete err => exact hc
  | call h cb after ihcb ihafter =>
    simp only [CbProg.run]
    split
    · exact ihafter _ (ihcb _ _ hc)
    · exact ihafter _ hc
    · exact ihafter _ hc
  | frame body ih =>
    have hlt : c < w.cells.length := (List.getElem?_eq_some_iff.1 hc).1
    have hin := ih w.cells.length { w with cells := w.cells ++ [some false] }
      (by rw [List.getElem?_append_left hlt]; exact hc)
    simp only [CbProg.run]
    rw [List.getElem?_set_ne (by omega)]
    exact hin
  | get c' k ih => exact ih _ _ hc
  | mark c' k ih =>
    refine ih _ ?_
    unfold CbWorld.mark
    split
    · by_cases he : c' = c
      · subst he
        have hlt : c' < w.cells.length := (List.getElem?_eq_some_iff.1 hc).1
        simp [hlt]
      · simp only [List.getElem?_set_ne he, hc]
    · exact hc
  | look k ih => exact ih _ _ hc
  | deref c' k ih => exact ih _ _ hc
  | update f k ih => exact ih _ hc

/-- An invariant of the steps holds along every schedule. -/
theorem CbProg.schedule_induction (env : CbEnv H E S) (Inv : CbWorld H E S → Prop)
    (p : CbProg H E S) (s : S) (acts : List (CbAction E S))
    (hstart : Inv (p.run env (CbWorld.start s)))
    (hstep : ∀ w, Inv w → ∀ a ∈ acts, Inv (w.step env a)) :
    Inv (p.schedule env s acts) := by
  unfold CbProg.schedule
  generalize p.run env (CbWorld.start s) = w at hstart
  induction acts generalizing w with
  | nil => exact hstart
  | cons a acts ih =>
    simp only [List.foldl_cons]
    exact ih (fun w hw b hb => hstep w hw b (List.mem_cons_of_mem _ hb)) _
      (hstep w hstart a (List.mem_cons_self ..))

/-! ## Consulting a list of parties in turn -/

/-- The body of most callbacks: an error is handed on to `cb`, otherwise `k` is what comes next. -/
def onOk (cb : Option E → CbProg H E S) (k : CbProg H E S) : Option E → CbProg H E S
  | some e => cb (some e)
  | none => k

@[simp] theorem onOk_some (cb : Option E → CbProg H E S) (k : CbProg H E S) (e : E) :
    onOk cb k (some e) = cb (some e) := rfl

@[simp] theorem onOk_none (cb : Option E → CbProg H E S) (k : CbProg H E S) :
    onOk cb k none = k := rfl

/-- Consult `hs` one after the other: an objection goes to `cb` at once, an approval moves on to
    the next party, and `cb` hears `none` when nobody is left. -/
@[grind =] def consultAll : List H → (Option E → CbProg H E S) → CbProg H E S
  | [], cb => cb none
  | h :: hs, cb => .call h (onOk cb (consultAll hs cb)) .done

/-- Consulting two lists in a row is consulting their concatenation. -/
theorem consultAll_append (xs ys : List H) (cb : Option E → CbProg H E S) :
    consultAll (xs ++ ys) cb = consultAll xs (onOk cb (consultAll ys cb)) := by
  induction xs with
  | nil => rfl
  | cons x xs ih =>
    simp only [List.cons_append, consultAll, ih]
    congr 1

/-- The environment in which the `i`-th party consulted answers `verdict i`, during the call unless
    `defer i`. -/
def verdictEnv (verdict : Nat → Option E) (defer : Nat → Bool) (effect : Nat → S → S)
    (strayFlag : Nat → Bool) (strayState : Nat → S) : CbEnv H E S :=
  { behaviour := fun i _ =>
      { before := effect i
        reply := if defer i then .later else .now (verdict i)
        after := id }
    strayFlag, strayState }

/-- A schedule in which every deferred party answers its own verdict. -/
def Answers (verdict : Nat → Option E) (acts : List (CbAction E S)) : Prop :=
  ∀ i err, CbAction.fire i err ∈ acts → err = verdict i

/-- The trace of consulting `hs`, all of whom approve. -/
@[grind =] def approvals : Nat → List H → List (CbEvent H E)
  | _, [] => []
  | i, h :: hs => .invoked i h :: .answered i h none :: approvals (i + 1) hs

theorem approvals_concat (i : Nat) (hs : List H) (h : H) :
    (approvals i (hs ++ [h]) : List (CbEvent H E))
      = approvals i hs ++ [.invoked (i + hs.length) h, .answered (i + hs.length) h none] := by
  induction hs generalizing i with
  | nil => rfl
  | cons x hs ih =>
    simp only [List.cons_append, approvals, ih, List.length_cons]
    rw [show i + 1 + hs.length = i + (hs.length + 1) by omega]

@[simp] theorem invocations_approvals (i : Nat) (hs : List H) :
    invocations (approvals i hs : List (CbEvent H E)) = hs := by
  induction hs generalizing i with
  | nil => rfl
  | cons h hs ih => simp [approvals, ih]

@[simp] theorem completions_approvals (i : Nat) (hs : List H) :
    completions (approvals i hs : List (CbEvent H E)) = [] := by
  induction hs generalizing i with
  | nil => rfl
  | cons h hs ih => simp [approvals, ih]

/-- Where the consultation of `hs` can stand: `past` have approved and the next one is being waited
    for, or has objected, or nobody was left. -/
inductive Consulting (verdict : Nat → Option E) (hs : List H) : CbWorld H E S → Prop
  | waiting (w : CbWorld H E S) (past : List H) (h : H) (rest : List H)
      (hsplit : hs = past ++ h :: rest)
      (hpast : ∀ i < past.length, verdict i = none)
      (hcalls : w.calls = past.length + 1)
      (htrace : w.trace = approvals 0 past ++ [.invoked past.length h])
      (hpending : w.pending = [⟨past.length, h, onOk .complete (consultAll rest .complete)⟩]) :
      Consulting verdict hs w
  | rejected (w : CbWorld H E S) (past : List H) (h : H) (rest : List H) (e : E)
      (hsplit : hs = past ++ h :: rest)
      (hpast : ∀ i < past.length, verdict i = none) (hverdict : verdict past.length = some e)
      (htrace : w.trace = approvals 0 past ++
        [.invoked past.length h, .answered past.length h (some e), .completed (some e)])
      (hpending : w.pending = []) : Consulting verdict hs w
  | accepted (w : CbWorld H E S) (hpast : ∀ i < hs.length, verdict i = none)
      (htrace : w.trace = approvals 0 hs ++ [.completed none])
      (hpending : w.pending = []) : Consulting verdict hs w

section Consult

variable (verdict : Nat → Option E) (defer : Nat → Bool) (effect : Nat → S → S)
  (strayFlag : Nat → Bool) (strayState : Nat → S)

/-- Once everybody in `past` has approved, running the rest of the consultation brings it to one of
    its standing points. -/
theorem consultAll_run (past rest : List H) (w : CbWorld H E S)
    (hpast : ∀ i < past.length, verdict i = none) (hcalls : w.calls = past.length)
    (htrace : w.trace = approvals 0 past) (hpending : w.pending = []) :
    Consulting verdict (past ++ rest)
      ((consultAll rest .complete).run
        (verdictEnv verdict defer effect strayFlag strayState) w) := by
  induction rest generalizing past w with
  | nil =>
    refine .accepted _ (by simpa using hpast) ?_ hpending
    simp [consultAll, CbProg.run, CbWorld.log, htrace]
  | cons h rest ih =>
    simp only [consultAll, CbProg.run]
    by_cases hd : defer w.calls
    · -- the party puts the callback aside
      simp only [verdictEnv, hd, if_true]
      refine .waiting _ past h rest rfl hpast ?_ ?_ ?_ <;>
        simp [CbWorld.enter, CbWorld.putAside, CbWorld.leave, hcalls, htrace, hpending]
    · simp only [verdictEnv, hd]
      cases hv : verdict w.calls with
      | some e =>
        refine .rejected _ past h rest e rfl hpast (by rw [← hcalls, hv]) ?_ ?_ <;>
          simp [CbProg.run, CbWorld.enter, CbWorld.leave, CbWorld.log, hcalls, htrace, hpending]
      | none =>
        -- the approval moves on to the next party, still on the stack of this one
        have hgo := ih (past ++ [h])
          ((w.enter (verdictEnv verdict defer effect strayFlag strayState) h).log
            (.answered w.calls h none))
          (by
            intro i hi
            rcases Nat.lt_or_ge i past.length with h1 | h1
            · exact hpast i h1
            · have : i = w.calls := by simp at hi; omega
              rw [this, hv])
          (by simp [CbWorld.enter, CbWorld.log, hcalls])
          (by
            rw [approvals_concat]
            simp [CbWorld.enter, CbWorld.log, hcalls, htrace])
          (by simp [CbWorld.enter, CbWorld.log, hpending])
        simpa [verdictEnv, CbWorld.leave] using hgo

/-- A deferred answer takes the consultation from one standing point to the next. -/
theorem Consulting.step (hs : List H) (w : CbWorld H E S) (h : Consulting verdict hs w)
    (a : CbAction E S) (ha : ∀ i err, a = .fire i err → err = verdict i) :
    Consulting verdict hs
      (w.step (verdictEnv verdict defer effect strayFlag strayState) a) := by
  cases a with
  | touch f =>
    cases h with
    | waiting past p rest hsplit hpast hcalls htrace hpending =>
      exact .waiting _ past p rest hsplit hpast hcalls htrace hpending
    | rejected past p rest e hsplit hpast hverdict htrace hpending =>
      exact .rejected _ past p rest e hsplit hpast hverdict htrace hpending
    | accepted hpast htrace hpending => exact .accepted _ hpast htrace hpending
  | fire i err =>
    have herr : err = verdict i := ha i err rfl
    cases h with
    | rejected past p rest e hsplit hpast hverdict htrace hpending =>
      simp only [CbWorld.step, hpending, List.find?_nil]
      exact .rejected _ past p rest e hsplit hpast hverdict htrace hpending
    | accepted hpast htrace hpending =>
      simp only [CbWorld.step, hpending, List.find?_nil]
      exact .accepted _ hpast htrace hpending
    | waiting past p rest hsplit hpast hcalls htrace hpending =>
      -- only the party that is waited for can answer
      by_cases hi : past.length = i
      · subst hi
        simp only [CbWorld.step, hpending, List.find?_cons, decide_true, List.filter_cons, ne_eq,
          not_true_eq_false, decide_false, Bool.false_eq_true, if_false, List.filter_nil]
        cases hv : verdict past.length with
        | some e =>
          rw [herr, hv]
          refine .rejected _ past p rest e hsplit hpast hv ?_ ?_ <;>
            simp [CbProg.run, CbWorld.log, htrace]
        | none =>
          rw [herr, hv, hsplit]
          have hgo := consultAll_run verdict defer effect strayFlag strayState (past ++ [p]) rest
            { w with
              pending := []
              trace := w.trace ++ [.answered past.length p none] }
            (by
              intro i hi
              rcases Nat.lt_or_ge i past.length with h1 | h1
              · exact hpast i h1
              · have : i = past.length := by simp at hi; omega
                rw [this, hv])
            (by simp [hcalls])
            (by
              rw [approvals_concat]
              simp [htrace])
            rfl
          simpa using hgo
      · simp only [CbWorld.step, hpending, List.find?_cons, hi, decide_false, List.find?_nil]
        exact .waiting _ past p rest hsplit hpast hcalls htrace hpending

/-- **Every schedule of a consultation stands at one of its standing points.** -/
theorem consultAll_schedule (hs : List H) (s : S) (acts : List (CbAction E S))
    (hacts : Answers verdict acts) :
    Consulting verdict hs
      ((consultAll hs .complete).schedule
        (verdictEnv verdict defer effect strayFlag strayState) s acts) := by
  refine CbProg.schedule_induction _ _ _ _ _ ?_ ?_
  · simpa using consultAll_run verdict defer effect strayFlag strayState [] hs (CbWorld.start s)
      (by simp) rfl rfl rfl
  · intro w hw a ha
    exact hw.step verdict defer effect strayFlag strayState hs w a
      (fun i err he => hacts i err (he ▸ ha))

/-- Whoever is waited for after a run of the consultation was invoked by that run. -/
theorem consultAll_run_pending (rest : List H) (w : CbWorld H E S) (hpending : w.pending = []) :
    ∀ q ∈ ((consultAll rest .complete).run
      (verdictEnv verdict defer effect strayFlag strayState) w).pending, w.calls ≤ q.index := by
  induction rest generalizing w with
  | nil => simp [consultAll, CbProg.run, CbWorld.log, hpending]
  | cons h rest ih =>
    simp only [consultAll, CbProg.run]
    by_cases hd : defer w.calls
    · simp [verdictEnv, hd, CbWorld.enter, CbWorld.putAside, CbWorld.leave, hpending]
    · simp only [verdictEnv, hd]
      cases hv : verdict w.calls with
      | some e => simp [CbProg.run, CbWorld.enter, CbWorld.leave, CbWorld.log, hpending]
      | none =>
        intro q hq
        have := ih ((w.enter (verdictEnv verdict defer effect strayFlag strayState) h).log
          (.answered w.calls h none)) (by simp [CbWorld.enter, CbWorld.log, hpending]) q
          (by simpa [verdictEnv, CbWorld.leave] using hq)
        simp only [CbWorld.enter, CbWorld.log] at this
        omega

/-- Let the parties `m`, `m + 1`, …, `m + k - 1` answer, in this order. -/
def answerFrom (m k : Nat) : List (CbAction E S) :=
  (List.range' m k).map fun i => .fire i (verdict i)

/-- Answers that nobody waits for change nothing. -/
theorem answerFrom_idle (env : CbEnv H E S) (m k : Nat) (w : CbWorld H E S) (h : w.pending = []) :
    (answerFrom verdict m k).foldl (CbWorld.step env) w = w := by
  induction k generalizing m with
  | zero => rfl
  | succ k ih =>
    have hstep : w.step env (.fire m (verdict m)) = w := by
      simp [CbWorld.step, h]
    simp only [answerFrom, List.range'_succ, List.map_cons, List.foldl_cons, hstep]
    exact ih (m + 1)

/-- Nobody is waited for any more once every party from the one waited for on has answered. -/
theorem Consulting.settles (hs : List H) (k m : Nat) (w : CbWorld H E S)
    (h : Consulting verdict hs w) (hm : ∀ p ∈ w.pending, m ≤ p.index) (hk : hs.length ≤ m + k) :
    ((answerFrom verdict m k).foldl
      (CbWorld.step (verdictEnv verdict defer effect strayFlag strayState)) w).pending = [] := by
  induction k generalizing m w with
  | zero =>
    simp only [answerFrom, List.range'_zero, List.map_nil, List.foldl_nil]
    cases h with
    | waiting past p rest hsplit hpast hcalls htrace hpending =>
      have := hm _ (by rw [hpending]; exact List.mem_singleton_self _)
      simp [hsplit] at hk this
      omega
    | rejected past p rest e hsplit hpast hverdict htrace hpending => exact hpending
    | accepted hpast htrace hpending => exact hpending
  | succ k ih =>
    have hnext := h.step verdict defer effect strayFlag strayState hs w (.fire m (verdict m))
      (fun i err he => by cases he; rfl)
    simp only [answerFrom, List.range'_succ, List.map_cons, List.foldl_cons]
    refine ih (m + 1) _ hnext ?_ (by omega)
    -- the answer of party `m` leaves somebody after `m` waiting, if anybody
    intro q hq
    simp only [CbWorld.step] at hq
    split at hq
    · next hfind =>
      have hne : q.index ≠ m := by
        simpa using List.find?_eq_none.1 hfind q hq
      have := hm q hq
      omega
    · next p hfind =>
      cases h with
      | rejected past p' rest e hsplit hpast hverdict htrace hpending => simp [hpending] at hfind
      | accepted hpast htrace hpending => simp [hpending] at hfind
      | waiting past p' rest hsplit hpast hcalls htrace hpending =>
        rw [hpending] at hfind hq
        have hmem := List.mem_of_find?_eq_some hfind
        have hidx : p.index = m := by simpa using (List.find?_eq_some_iff_append.1 hfind).1
        rw [List.mem_singleton] at hmem
        subst hmem
        subst hidx
        cases hv : verdict past.length with
        | some e => simp [hv, CbProg.run, CbWorld.log] at hq
        | none =>
          have := consultAll_run_pending verdict defer effect strayFlag strayState rest
            { w with
              pending := []
              trace := w.trace ++ [.answered past.length p' none] }
            rfl q (by simpa [hv] using hq)
          rwa [hcalls] at this

end Consult

end LibEvmvc
