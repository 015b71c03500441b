import Mathlib.Logic.Function.Basic
import LibEvmvc.Foundation.Bytes
import LibEvmvc.Foundation.UMap

set_option autoImplicit false

/-! # Timers

A timer is a wrapper around a libevent event. The event holds a reference to its own wrapper, so that
a timer nobody keeps still runs; a registry of names holds another one. `stop` takes the event away
and erases what the registry has under the wrapper's name, and the destructor of a wrapper stops it
once more.

A wrapper is told apart by the place at which it was made. The references of the program (those its
callbacks capture included) are `handles`; a callback that runs holds its wrapper too. The loop may
run any pending event at any time, also inside of another callback. -/

namespace LibEvmvc

/-- `event_wrapper<void>`. `armed`: the event is there, and with it the reference `_ewt`; `pending`:
    libevent will run it; `released`: the destructor has run. -/
structure EventWrapper where
  name : Bytes
  persist : Bool
  tv : Nat × Nat
  armed : Bool
  pending : Bool
  released : Bool

/-- The registry, and all that keeps a wrapper alive. -/
structure Timers where
  evBase : Bool
  made : Nat
  wrapper : Nat → EventWrapper
  namedEvents : UMap (id : Bytes → Bytes) Nat
  handles : List Nat
  running : List Nat
  uid : Nat

/-- The seconds and microseconds of a time in milliseconds. -/
def timeval (ms : Nat) : Nat × Nat := (ms / 1000, (ms - ms / 1000 * 1000) * 1000)

namespace Timers

/-- A program that has set no timer yet. -/
def init (evBase : Bool) : Timers :=
  { evBase := evBase, made := 0, wrapper := fun _ => ⟨[], false, (0, 0), false, false, false⟩,
    namedEvents := UMap.empty _ _, handles := [], running := [], uid := 0 }

/-! ## References -/

/-- Some `shared_ptr` points to the wrapper. -/
def Held (s : Timers) (i : Nat) : Prop :=
  i ∈ s.namedEvents.entries.map Prod.snd ∨ (s.wrapper i).armed = true ∨ i ∈ s.handles ∨
    i ∈ s.running

instance (s : Timers) (i : Nat) : Decidable (s.Held i) :=
  inferInstanceAs (Decidable (_ ∨ _))

/-- Change one wrapper. -/
def modify (s : Timers) (i : Nat) (f : EventWrapper → EventWrapper) : Timers :=
  { s with wrapper := Function.update s.wrapper i (f (s.wrapper i)) }

/-- `delete _ewt`, `event_del` and `event_free`. -/
def disarm (s : Timers) (i : Nat) : Timers :=
  s.modify i fun w => { w with armed := false, pending := false }

/-- `event_wrapper::stop` up to the last reference it drops: the one to what it has found in the
    registry. -/
def stopBody (s : Timers) (i : Nat) : Timers × Option Nat :=
  let s := s.disarm i
  match s.namedEvents.get? (s.wrapper i).name with
  | none => (s, none)
  | some self => ({ s with namedEvents := s.namedEvents.erase (s.wrapper i).name }, some self)

/-- A reference to a wrapper is gone. The last one runs `~event_wrapper`, which calls `stop`, which
    may drop the last reference to another wrapper: each round takes an entry out of the registry. -/
def releaseRounds : Nat → Timers → Nat → Timers
  | 0, s, _ => s
  | n + 1, s, i =>
    if ¬ s.Held i ∧ (s.wrapper i).released = false then
      match (s.modify i fun w => { w with released := true }).stopBody i with
      | (s, none) => s
      | (s, some self) => releaseRounds n s self
    else s

/-- `shared_ptr::reset`, after the reference itself has been taken away. -/
def release (s : Timers) (i : Nat) : Timers := s.releaseRounds (s.namedEvents.entries.length + 1) i

/-- `event_wrapper::stop`. -/
def stop (s : Timers) (i : Nat) : Timers :=
  match s.stopBody i with
  | (s, none) => s
  | (s, some self) => s.release self

/-! ## Setting -/

/-- `next_event_name`. -/
def nextEventName (s : Timers) : Bytes × Timers :=
  (bytes "da724ca0-308c-11e9-9071-5b3166957f05_" ++ numToStr (s.uid + 1),
    { s with uid := s.uid + 1 })

/-- `register_event`. -/
def registerEvent (s : Timers) (i : Nat) : Except Bytes Unit × Timers :=
  let name := (s.wrapper i).name
  match s.namedEvents.get? name with
  | some _ => (.error (bytes "Event: '" ++ name ++ bytes "' is already registered!"), s)
  | none => (.ok (), { s with namedEvents := s.namedEvents.emplace name i })

/-- What `set_timeout` and `set_interval` share: the event waits before its wrapper is registered, and
    stays when that fails. The caller gets a reference. -/
def setTimer (s : Timers) (name : Bytes) (persist : Bool) (ms : Nat) :
    Except Bytes (Option Nat) × Timers :=
  if s.evBase = false then (.ok none, s)
  else
    let i := s.made
    let ev : EventWrapper := ⟨name, persist, timeval ms, true, true, false⟩
    let s := { s with made := i + 1, wrapper := Function.update s.wrapper i ev }
    match s.registerEvent i with
    | (.error e, s) => (.error e, s)
    | (.ok (), s) => (.ok (some i), { s with handles := i :: s.handles })

/-- `set_timeout`; `persist` is a flag its event type may have. -/
def setTimeout (s : Timers) (name : Bytes) (persist : Bool) (ms : Nat) :
    Except Bytes (Option Nat) × Timers :=
  s.setTimer (bytes "to:" ++ name) persist ms

/-- `set_interval`. -/
def setInterval (s : Timers) (name : Bytes) (ms : Nat) : Except Bytes (Option Nat) × Timers :=
  s.setTimer (bytes "iv:" ++ name) true ms

/-! ## Asking and clearing -/

/-- `event_exists`. -/
def eventExists (s : Timers) (name : Bytes) : Bool := (s.namedEvents.get? name).isSome

/-- `timeout_exists`. -/
def timeoutExists (s : Timers) (name : Bytes) : Bool := s.eventExists (bytes "to:" ++ name)

/-- `interval_exists`. -/
def intervalExists (s : Timers) (name : Bytes) : Bool := s.eventExists (bytes "iv:" ++ name)

/-- What `clear_timeout` and `clear_interval` do with a name. -/
def clearNamed (s : Timers) (name : Bytes) : Timers :=
  match s.namedEvents.get? name with
  | none => s
  | some ev => s.stop ev

/-- `clear_timeout` by name. -/
def clearTimeout (s : Timers) (name : Bytes) : Timers := s.clearNamed (bytes "to:" ++ name)

/-- `clear_interval` by name. -/
def clearInterval (s : Timers) (name : Bytes) : Timers := s.clearNamed (bytes "iv:" ++ name)

/-- What the three that clear many share: the entries that pass leave the registry, all of them are
    stopped, and the vector that has kept them alive goes. -/
def clearWhere (s : Timers) (o : IterOrder Bytes Nat) (p : Bytes × Nat → Bool) : Timers :=
  let evs := ((s.namedEvents.iterate o).filter p).map Prod.snd
  let s := { s with namedEvents := s.namedEvents.filter fun e => !p e }
  let s := evs.foldl stop s
  evs.foldl release s

/-- `clear_events`. -/
def clearEvents (s : Timers) (o : IterOrder Bytes Nat) : Timers := s.clearWhere o fun _ => true

/-- The name of an entry's wrapper begins like this. -/
def namedLike (s : Timers) (tag : Bytes) (e : Bytes × Nat) : Bool :=
  ((s.wrapper e.2).name.take 3) == tag

/-- `clear_timeouts`. -/
def clearTimeouts (s : Timers) (o : IterOrder Bytes Nat) : Timers :=
  s.clearWhere o (s.namedLike (bytes "to:"))

/-- `clear_intervals`. -/
def clearIntervals (s : Timers) (o : IterOrder Bytes Nat) : Timers :=
  s.clearWhere o (s.namedLike (bytes "iv:"))

/-! ## The loop -/

/-- libevent runs an event: one that does not persist is no longer pending. -/
def fire (s : Timers) (i : Nat) : Timers :=
  if (s.wrapper i).pending then
    let s := s.modify i fun w => { w with pending := w.persist }
    { s with running := i :: s.running }
  else s

/-- The innermost callback returns: a wrapper that does not persist is stopped, and `self` goes. -/
def finish (s : Timers) : Timers :=
  match s.running with
  | [] => s
  | i :: rest =>
    let s := if (s.wrapper i).persist then s else s.stop i
    { s with running := rest }.release i

end Timers

/-- What the program and the loop can do. A timer without a name gets one from `next_event_name`; a
    wrapper is cleared, kept or dropped through a reference; that `wait` is called on one is no act. -/
inductive TimerAct where
  | setTimeout (name : Option Bytes) (persist : Bool) (ms : Nat)
  | setInterval (name : Option Bytes) (ms : Nat)
  | keep (i : Nat)
  | drop (i : Nat)
  | clear (i : Nat)
  | clearTimeout (name : Bytes)
  | clearInterval (name : Bytes)
  | clearEvents
  | clearTimeouts
  | clearIntervals
  | fire (i : Nat)
  | finish
  deriving DecidableEq, Repr

namespace Timers

/-- The program has a reference to the wrapper: one it keeps, or the argument of a callback. -/
def Known (s : Timers) (i : Nat) : Prop := i ∈ s.handles ∨ i ∈ s.running

instance (s : Timers) (i : Nat) : Decidable (s.Known i) := inferInstanceAs (Decidable (_ ∨ _))

/-- The name a timer is set with. -/
def nameOrNext (s : Timers) : Option Bytes → Bytes × Timers
  | some name => (name, s)
  | none => s.nextEventName

/-- One step. What the program has no reference for does not happen. -/
def step (o : IterOrder Bytes Nat) (s : Timers) : TimerAct → Timers
  | .setTimeout name persist ms =>
    let (name, s) := s.nameOrNext name
    (s.setTimeout name persist ms).2
  | .setInterval name ms =>
    let (name, s) := s.nameOrNext name
    (s.setInterval name ms).2
  | .keep i => if s.Known i then { s with handles := i :: s.handles } else s
  | .drop i =>
    if i ∈ s.handles then { s with handles := s.handles.erase i }.release i else s
  | .clear i => if s.Known i then s.stop i else s
  | .clearTimeout name => s.clearTimeout name
  | .clearInterval name => s.clearInterval name
  | .clearEvents => s.clearEvents o
  | .clearTimeouts => s.clearTimeouts o
  | .clearIntervals => s.clearIntervals o
  | .fire i => s.fire i
  | .finish => s.finish

/-- The state after a run. -/
def run (o : IterOrder Bytes Nat) (evBase : Bool) (as : List TimerAct) : Timers :=
  as.foldl (step o) (init evBase)

/-- The callback that begins in a step. -/
def beginsNow (s : Timers) : TimerAct → List Nat
  | .fire i => if (s.wrapper i).pending then [i] else []
  | _ => []

/-- The wrappers whose callbacks begin during a run, in order. -/
def begins (o : IterOrder Bytes Nat) : Timers → List TimerAct → List Nat
  | _, [] => []
  | s, a :: as => s.beginsNow a ++ begins o (s.step o a) as

/-- The steps that stop a wrapper. -/
def Stops (s : Timers) : TimerAct → Nat → Prop
  | .clear j, i => j = i ∧ s.Known i
  | .clearTimeout name, i => s.namedEvents.get? (bytes "to:" ++ name) = some i
  | .clearInterval name, i => s.namedEvents.get? (bytes "iv:" ++ name) = some i
  | .clearEvents, i => ∃ n, s.namedEvents.get? n = some i
  | .clearTimeouts, i => ∃ n, s.namedEvents.get? (bytes "to:" ++ n) = some i
  | .clearIntervals, i => ∃ n, s.namedEvents.get? (bytes "iv:" ++ n) = some i
  | .finish, i => s.running.head? = some i ∧ (s.wrapper i).persist = false
  | _, _ => False

end Timers

end LibEvmvc
