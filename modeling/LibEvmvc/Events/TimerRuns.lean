import LibEvmvc.Events.TimerRefs
import LibEvmvc.Foundation.Runs

set_option autoImplicit false

/-! # Runs of timers

In every run the registry names armed timers, a callback begins on a wrapper that is alive, and the
destructor of a wrapper runs exactly when its last reference is gone. A callback of a timer that does
not persist begins at most once, and none begins after a stop.

The registry has all armed timers exactly as long as no timer is set under a name that is taken and no
wrapper is stopped (by the program, after its callback or in its destructor) while another one has its
name. Fresh names are enough for that. -/

namespace LibEvmvc

namespace Timers

variable {s : Timers} {o : IterOrder Bytes Nat}

/-! ## Every step keeps the invariant -/

/-- A timer is made and waits; the registry does not know it yet. -/
def added (s : Timers) (name : Bytes) (persist : Bool) (ms : Nat) : Timers :=
  { s with
    made := s.made + 1
    wrapper := Function.update s.wrapper s.made ⟨name, persist, timeval ms, true, true, false⟩ }

/-- The registry knows it, and the caller has it. -/
def registered (s : Timers) (name : Bytes) (persist : Bool) (ms : Nat) : Timers :=
  { s.added name persist ms with
    namedEvents := s.namedEvents.emplace name s.made
    handles := s.made :: s.handles }

theorem wrapper_added (name : Bytes) (persist : Bool) (ms j : Nat) :
    (s.added name persist ms).wrapper j =
      if j = s.made then ⟨name, persist, timeval ms, true, true, false⟩ else s.wrapper j := by
  simp only [added, Function.update_apply]

/-- What setting a timer can do. -/
theorem setTimer_eq (name : Bytes) (persist : Bool) (ms : Nat) :
    (s.setTimer name persist ms).2 =
      if s.evBase = false then s
      else if s.namedEvents.get? name = none then s.registered name persist ms
      else s.added name persist ms := by
  cases hev : s.evBase with
  | false => simp [setTimer, hev]
  | true =>
    cases hget : s.namedEvents.get? name with
    | none => simp [setTimer, registerEvent, hev, added, registered, hget]
    | some j => simp [setTimer, registerEvent, hev, added, hget]

theorem held_added (name : Bytes) (persist : Bool) (ms j : Nat) :
    (s.added name persist ms).Held j ↔ s.Held j ∨ j = s.made := by
  simp only [Held, wrapper_added]
  by_cases hj : j = s.made
  · simp [hj]
  · simp [hj, added]

theorem added_sound (h : s.Sound) (name : Bytes) (persist : Bool) (ms : Nat) :
    (s.added name persist ms).Sound where
  named n j hget := by
    have hold := h.named n j hget
    have hj : j ≠ s.made := (h.held j (held_of_armed hold.2)).1.ne
    rwa [wrapper_added, if_neg hj]
  pending j hp := by
    rw [wrapper_added] at hp ⊢
    split
    · rfl
    · next hj => exact h.pending j (by rwa [if_neg hj] at hp)
  held j hj := by
    rw [wrapper_added]
    rcases (held_added name persist ms j).1 hj with hheld | rfl
    · have hlt := (h.held j hheld).1
      rw [if_neg hlt.ne]
      exact ⟨Nat.lt_succ_of_lt hlt, (h.held j hheld).2⟩
    · exact ⟨Nat.lt_succ_self _, by rw [if_pos rfl]⟩
  alive j hj hr := by
    rw [held_added]
    rcases Nat.lt_succ_iff_lt_or_eq.1 hj with hlt | rfl
    · rw [wrapper_added, if_neg hlt.ne] at hr
      exact (h.alive j hlt hr).imp_left .inl
    · exact .inl (.inr rfl)

theorem registered_sound (h : s.Sound) {name : Bytes} (hfree : s.namedEvents.get? name = none)
    (persist : Bool) (ms : Nat) : (s.registered name persist ms).Sound := by
  have hadd := added_sound h name persist ms
  have hget (n : Bytes) : (s.registered name persist ms).namedEvents.get? n =
      if n = name then some s.made else s.namedEvents.get? n := by
    simp only [registered, UMap.get?_emplace, hfree, Option.getD_none, id]
  have hnew : ((s.added name persist ms).wrapper s.made).name = name ∧
      ((s.added name persist ms).wrapper s.made).armed = true := by
    rw [wrapper_added, if_pos rfl]
    exact ⟨rfl, rfl⟩
  have hnamed (n : Bytes) (j : Nat) (hn : (s.registered name persist ms).namedEvents.get? n = some j) :
      ((s.added name persist ms).wrapper j).name = n ∧
        ((s.added name persist ms).wrapper j).armed = true := by
    rw [hget] at hn
    split at hn
    · next he =>
      obtain rfl := Option.some.inj hn
      rwa [he]
    · exact hadd.named n j hn
  have hheld (j : Nat) : (s.registered name persist ms).Held j ↔ (s.added name persist ms).Held j := by
    rw [hadd.held_iff]
    constructor
    · rintro (hmem | harmed | hmem | hrun)
      · obtain ⟨e, he, rfl⟩ := List.mem_map.1 hmem
        exact .inl (hnamed e.1 e.2 (UMap.get?_of_mem he)).2
      · exact .inl harmed
      · rcases List.mem_cons.1 hmem with rfl | hmem
        · exact .inl hnew.2
        · exact .inr (.inl hmem)
      · exact .inr (.inr hrun)
    · rintro (harmed | hmem | hrun)
      · exact .inr (.inl harmed)
      · exact .inr (.inr (.inl (List.mem_cons_of_mem _ hmem)))
      · exact .inr (.inr (.inr hrun))
  exact ⟨hnamed, hadd.pending, fun j hj => hadd.held j ((hheld j).1 hj),
    fun j hj hr => by rw [hheld]; exact hadd.alive j hj hr⟩

theorem setTimer_sound (h : s.Sound) (name : Bytes) (persist : Bool) (ms : Nat) :
    (s.setTimer name persist ms).2.Sound := by
  rw [setTimer_eq]
  split
  · exact h
  · split
    · next hfree => exact registered_sound h hfree persist ms
    · exact added_sound h name persist ms

theorem nameOrNext_sound (h : s.Sound) (name : Option Bytes) : (s.nameOrNext name).2.Sound := by
  cases name with
  | some name => exact h
  | none => exact ⟨h.named, h.pending, h.held, h.alive⟩

theorem clearNamed_sound (h : s.Sound) (name : Bytes) : (s.clearNamed name).Sound := by
  unfold clearNamed
  cases hget : s.namedEvents.get? name with
  | none => exact h
  | some ev => exact h.stop (.inr (by rw [(h.named name ev hget).1, hget]))

/-- One more reference to a wrapper that is alive. -/
theorem kept_sound {i : Nat} (h : s.Sound) (hi : s.Held i) :
    ({ s with handles := i :: s.handles } : Timers).Sound := by
  have hheld (j : Nat) : ({ s with handles := i :: s.handles } : Timers).Held j ↔ s.Held j := by
    simp only [Held, List.mem_cons]
    constructor
    · rintro (hmem | harmed | (rfl | hmem) | hrun)
      · exact .inl hmem
      · exact .inr (.inl harmed)
      · exact hi
      · exact .inr (.inr (.inl hmem))
      · exact .inr (.inr (.inr hrun))
    · exact Or.imp_right (Or.imp_right (Or.imp_left .inr))
  exact ⟨h.named, h.pending, fun j hj => h.held j ((hheld j).1 hj),
    fun j hj hr => by rw [hheld]; exact h.alive j hj hr⟩

/-- References to one wrapper are taken away. -/
theorem lost_sound {i : Nat} (h : s.Sound) (handles running : List Nat)
    (hsub : ∀ j, j ∈ handles ∨ j ∈ running → s.Known j)
    (hother : ∀ j, j ≠ i → s.Known j → j ∈ handles ∨ j ∈ running) :
    ({ s with handles := handles, running := running } : Timers).SoundBut (· = i) := by
  refine ⟨h.named, h.pending, ?_, ?_⟩
  · rintro j (hmem | harmed | hknown)
    · exact h.held j (.inl hmem)
    · exact h.held j (held_of_armed harmed)
    · exact h.held j (held_of_known (hsub j hknown))
  · intro j hj hr
    by_cases hji : j = i
    · exact .inr hji
    · left
      rcases h.alive j hj hr with (hmem | harmed | hknown) | hfalse
      · exact .inl hmem
      · exact .inr (.inl harmed)
      · exact .inr (.inr (hother j hji hknown))
      · exact hfalse.elim

theorem dropped_sound {i : Nat} (h : s.Sound) :
    ({ s with handles := s.handles.erase i } : Timers).SoundBut (· = i) := by
  refine lost_sound h (s.handles.erase i) s.running ?_ ?_
  · exact fun j hj => hj.imp_left List.mem_of_mem_erase
  · exact fun j hj hknown => hknown.imp_left (List.mem_erase_of_ne hj).2

theorem popped_sound {i : Nat} {rest : List Nat} (h : s.Sound) (hrun : s.running = i :: rest) :
    ({ s with running := rest } : Timers).SoundBut (· = i) := by
  refine lost_sound h s.handles rest ?_ ?_
  · exact fun j hj => hj.imp_right fun hmem => by rw [hrun]; exact List.mem_cons_of_mem _ hmem
  · intro j hj hknown
    refine hknown.imp_right fun hmem => ?_
    rw [hrun] at hmem
    exact (List.mem_cons.1 hmem).resolve_left hj

/-- A callback has begun. -/
def begun (s : Timers) (i : Nat) : Timers :=
  { s.modify i (fun w => { w with pending := w.persist }) with running := i :: s.running }

theorem fire_eq (i : Nat) : s.fire i = if (s.wrapper i).pending = true then s.begun i else s := rfl

theorem wrapper_begun (i j : Nat) :
    (s.begun i).wrapper j =
      { s.wrapper j with
        pending := if j = i then (s.wrapper j).persist else (s.wrapper j).pending } := by
  rw [begun, wrapper_modify]
  split <;> rfl

theorem begun_sound {i : Nat} (h : s.Sound) (hp : (s.wrapper i).pending = true) :
    (s.begun i).Sound := by
  have harmed : (s.wrapper i).armed = true := h.pending i hp
  have hheld (j : Nat) : (s.begun i).Held j ↔ s.Held j := by
    simp only [Held, wrapper_begun]
    constructor
    · rintro (hmem | ha | hmem | hrun)
      · exact .inl hmem
      · exact .inr (.inl ha)
      · exact .inr (.inr (.inl hmem))
      · rcases List.mem_cons.1 hrun with rfl | hrun
        · exact held_of_armed harmed
        · exact .inr (.inr (.inr hrun))
    · exact Or.imp_right (Or.imp_right (Or.imp_right (List.mem_cons_of_mem _)))
  refine ⟨fun n j hn => ?_, fun j hpj => ?_, fun j hj => ?_, fun j hj hr => ?_⟩
  · rw [wrapper_begun]
    exact h.named n j hn
  · rw [wrapper_begun] at hpj ⊢
    by_cases hji : j = i
    · rwa [hji]
    · exact h.pending j (by simpa [hji] using hpj)
  · rw [wrapper_begun]
    exact h.held j ((hheld j).1 hj)
  · rw [wrapper_begun] at hr
    rw [hheld]
    exact h.alive j hj hr

theorem fire_sound (h : s.Sound) (i : Nat) : (s.fire i).Sound := by
  rw [fire_eq]
  split
  · next hp => exact begun_sound h hp
  · exact h

theorem finish_sound (h : s.Sound) : s.finish.Sound := by
  unfold finish
  split
  · exact h
  · next i rest hrun =>
    have hknown : s.Known i := .inr (by rw [hrun]; exact List.mem_cons_self)
    split
    · exact (popped_sound h hrun).release fun j hj => .inr hj
    · have hstop := h.stop (.inl hknown)
      exact (popped_sound hstop (h.running_stop.trans hrun)).release fun j hj => .inr hj

/-- **Every step keeps the invariant.** -/
theorem step_sound (h : s.Sound) (a : TimerAct) : (s.step o a).Sound := by
  cases a with
  | setTimeout name persist ms => exact setTimer_sound (nameOrNext_sound h name) _ persist ms
  | setInterval name ms => exact setTimer_sound (nameOrNext_sound h name) _ true ms
  | keep i =>
    rw [step]
    split
    · next hknown => exact kept_sound h (held_of_known hknown)
    · exact h
  | drop i =>
    rw [step]
    split
    · exact (dropped_sound h).release fun j hj => .inr hj
    · exact h
  | clear i =>
    rw [step]
    split
    · next hknown => exact h.stop (.inl hknown)
    · exact h
  | clearTimeout name => exact clearNamed_sound h _
  | clearInterval name => exact clearNamed_sound h _
  | clearEvents => exact (h.clearWhere o _).1
  | clearTimeouts => exact (h.clearWhere o _).1
  | clearIntervals => exact (h.clearWhere o _).1
  | fire i => exact fire_sound h i
  | finish => exact finish_sound h

theorem foldl_sound (h : s.Sound) (as : List TimerAct) : (as.foldl (step o) s).Sound :=
  as.foldlRecOn (step o) h fun _ hs a _ => step_sound hs a

/-! ## What a step does to older wrappers -/

/-- A wrapper keeps its name and whether it persists, and what is not armed or pending stays so. -/
structure Later (s s' : Timers) : Prop where
  made : s.made ≤ s'.made
  name : ∀ i < s.made, (s'.wrapper i).name = (s.wrapper i).name
  persist : ∀ i < s.made, (s'.wrapper i).persist = (s.wrapper i).persist
  armed : ∀ i < s.made, (s'.wrapper i).armed = true → (s.wrapper i).armed = true
  pending : ∀ i < s.made, (s'.wrapper i).pending = true → (s.wrapper i).pending = true
  released : ∀ i < s.made, (s'.wrapper i).released = false → (s.wrapper i).released = false

theorem Later.refl (s : Timers) : Later s s :=
  ⟨le_rfl, fun _ _ => rfl, fun _ _ => rfl, fun _ _ h => h, fun _ _ h => h, fun _ _ h => h⟩

theorem Later.trans {s t u : Timers} (h : Later s t) (h' : Later t u) : Later s u where
  made := h.made.trans h'.made
  name i hi := (h'.name i (hi.trans_le h.made)).trans (h.name i hi)
  persist i hi := (h'.persist i (hi.trans_le h.made)).trans (h.persist i hi)
  armed i hi ha := h.armed i hi (h'.armed i (hi.trans_le h.made) ha)
  pending i hi hp := h.pending i hi (h'.pending i (hi.trans_le h.made) hp)
  released i hi hr := h.released i hi (h'.released i (hi.trans_le h.made) hr)

/-- What references there are does not matter to it. -/
theorem Later.lost {s u : Timers} {handles running : List Nat}
    (h : Later { s with handles := handles, running := running } u) : Later s u :=
  ⟨h.made, h.name, h.persist, h.armed, h.pending, h.released⟩

/-- A change of the references alone. -/
theorem Later.of_wrapper {s s' : Timers} (hmade : s.made = s'.made) (hw : s'.wrapper = s.wrapper) :
    Later s s' := by
  refine ⟨hmade.le, ?_, ?_, ?_, ?_, ?_⟩ <;> intro i _ <;> rw [hw] <;> exact id

theorem Later.unlinked (s : Timers) (i : Nat) : Later s (s.unlinked i) := by
  refine ⟨le_rfl, ?_, ?_, ?_, ?_, ?_⟩ <;> intro j _ <;> rw [wrapper_unlinked] <;> split <;> simp

theorem Later.release {P : Nat → Prop} (h : s.SoundBut P) (i : Nat) : Later s (s.release i) := by
  refine ⟨h.made_release.ge, ?_, ?_, ?_, ?_, ?_⟩ <;> intro j _ <;> rw [h.wrapper_release] <;>
    simp +contextual

theorem Later.stop {P : Nat → Prop} (h : s.SoundBut P) (i : Nat) : Later s (s.stop i) := by
  rw [h.stop_eq]
  split
  · exact (Later.unlinked s i).trans (Later.release h.unlinked i)
  · exact Later.unlinked s i

theorem Later.clearWhere (h : s.Sound) (p : Bytes × Nat → Bool) : Later s (s.clearWhere o p) := by
  obtain ⟨-, hmade, -, hw⟩ := h.clearWhere o p
  refine ⟨hmade.ge, ?_, ?_, ?_, ?_, ?_⟩ <;> intro j _ <;> obtain ⟨r, hkept, hr⟩ := hw j <;> rw [hr]
  · simp +contextual
  · simp +contextual
  · intro hrel
    by_contra hnot
    exact Bool.noConfusion (hrel.symm.trans (hkept (by simpa using hnot)))

theorem Later.clearNamed (h : s.Sound) (name : Bytes) : Later s (s.clearNamed name) := by
  unfold Timers.clearNamed
  cases s.namedEvents.get? name with
  | none => exact Later.refl s
  | some ev => exact Later.stop h ev

theorem Later.setTimer (s : Timers) (name : Bytes) (persist : Bool) (ms : Nat) :
    Later s (s.setTimer name persist ms).2 := by
  have hadd : Later s (s.added name persist ms) := by
    refine ⟨Nat.le_succ _, ?_, ?_, ?_, ?_, ?_⟩ <;> intro i hi <;> rw [wrapper_added, if_neg hi.ne] <;>
      exact id
  rw [setTimer_eq]
  split
  · exact Later.refl s
  · split
    · exact hadd.trans (Later.of_wrapper rfl rfl)
    · exact hadd

theorem Later.nameOrNext (s : Timers) (name : Option Bytes) : Later s (s.nameOrNext name).2 := by
  cases name with
  | some name => exact Later.refl s
  | none => exact Later.of_wrapper rfl rfl

theorem Later.fire (s : Timers) (i : Nat) : Later s (s.fire i) := by
  rw [fire_eq]
  split
  · next hp =>
    refine ⟨le_rfl, ?_, ?_, ?_, ?_, ?_⟩ <;> intro j _ <;> rw [wrapper_begun]
    · exact id
    · show (if j = i then _ else _) = true → _
      split
      · next hj =>
        intro _
        rwa [hj]
      · exact id
    · exact id
  · exact Later.refl s

theorem Later.finish (h : s.Sound) : Later s s.finish := by
  unfold Timers.finish
  split
  · exact Later.refl s
  · next i rest hrun =>
    split
    · exact (Later.release (popped_sound h hrun) i).lost
    · have hstop := h.stop (.inl (.inr (by rw [hrun]; exact List.mem_cons_self)) : s.Known i ∨ _)
      have hpop := popped_sound hstop (h.running_stop.trans hrun)
      exact (Later.stop h i).trans (Later.release hpop i).lost

theorem Later.step (h : s.Sound) (a : TimerAct) : Later s (s.step o a) := by
  cases a with
  | setTimeout name persist ms => exact (Later.nameOrNext s name).trans (Later.setTimer _ _ persist ms)
  | setInterval name ms => exact (Later.nameOrNext s name).trans (Later.setTimer _ _ true ms)
  | keep i =>
    rw [Timers.step]
    split
    · exact Later.of_wrapper rfl rfl
    · exact Later.refl s
  | drop i =>
    rw [Timers.step]
    split
    · exact (Later.release (dropped_sound h) i).lost
    · exact Later.refl s
  | clear i =>
    rw [Timers.step]
    split
    · exact Later.stop h i
    · exact Later.refl s
  | clearTimeout name => exact Later.clearNamed h _
  | clearInterval name => exact Later.clearNamed h _
  | clearEvents => exact Later.clearWhere h _
  | clearTimeouts => exact Later.clearWhere h _
  | clearIntervals => exact Later.clearWhere h _
  | fire i => exact Later.fire s i
  | finish => exact Later.finish h

theorem Later.run (h : s.Sound) (as : List TimerAct) : Later s (as.foldl (Timers.step o) s) := by
  induction as generalizing s with
  | nil => exact Later.refl s
  | cons a as ih => exact (Later.step h a).trans (ih (step_sound h a))

/-! ## Callbacks -/

theorem mem_beginsNow {a : TimerAct} {i : Nat} (h : i ∈ s.beginsNow a) :
    a = .fire i ∧ (s.wrapper i).pending = true := by
  cases a with
  | fire j =>
    rw [beginsNow] at h
    split at h
    · next hp =>
      obtain rfl := List.mem_singleton.1 h
      exact ⟨rfl, hp⟩
    · exact absurd h List.not_mem_nil
  | _ => exact absurd h List.not_mem_nil

theorem beginsNow_count_le (s : Timers) (a : TimerAct) (i : Nat) : (s.beginsNow a).count i ≤ 1 := by
  cases a with
  | fire j =>
    rw [beginsNow]
    split
    · exact (List.count_le_length).trans le_rfl
    · simp
  | _ => simp [beginsNow]

/-- What is not pending does not begin again. -/
theorem not_mem_begins (h : s.Sound) {i : Nat} (hi : i < s.made) (hp : (s.wrapper i).pending = false)
    (as : List TimerAct) : i ∉ begins o s as := by
  induction as generalizing s with
  | nil => exact List.not_mem_nil
  | cons a as ih =>
    have hlater : Later s (s.step o a) := Later.step h a
    rw [begins, List.mem_append, not_or]
    constructor
    · intro hmem
      rw [(mem_beginsNow hmem).2] at hp
      exact Bool.noConfusion hp
    · refine ih (step_sound h a) (hi.trans_le hlater.made) ?_
      by_contra hpending
      rw [hlater.pending i hi (by simpa using hpending)] at hp
      exact Bool.noConfusion hp

theorem count_begins_le (h : s.Sound) {i : Nat} (as : List TimerAct)
    (hone : ((as.foldl (step o) s).wrapper i).persist = false) : (begins o s as).count i ≤ 1 := by
  induction as generalizing s with
  | nil => simp [begins]
  | cons a as ih =>
    rw [begins, List.count_append]
    by_cases hmem : i ∈ s.beginsNow a
    · obtain ⟨rfl, hp⟩ := mem_beginsNow hmem
      have hi : i < s.made := (h.held i (held_of_armed (h.pending i hp))).1
      have hpersist : (s.wrapper i).persist = false := by
        rw [← (Later.run (o := o) h (.fire i :: as)).persist i hi]
        exact hone
      -- its event is not pending any more, so it does not begin again
      have hrest : i ∉ begins o (s.step o (.fire i)) as := by
        refine not_mem_begins (step_sound h _) (hi.trans_le (Later.step h _).made) ?_ as
        show ((s.fire i).wrapper i).pending = false
        rw [fire_eq, if_pos hp, wrapper_begun]
        simpa using hpersist
      rw [List.count_eq_zero_of_not_mem hrest]
      exact beginsNow_count_le s _ i
    · rw [List.count_eq_zero_of_not_mem hmem, Nat.zero_add]
      exact ih (step_sound h a) hone

/-! ## Stops -/

theorem stopped (h : s.Sound) (i : Nat) :
    ((s.stop i).wrapper i).pending = false ∧
      (s.stop i).namedEvents.get? (s.wrapper i).name = none := by
  have hget : (s.unlinked i).namedEvents.get? (s.wrapper i).name = none := by
    rw [namedEvents_unlinked, UMap.get?_erase]
    simp
  have hname : ((s.unlinked i).wrapper i).name = (s.wrapper i).name := by simp
  rw [h.stop_eq]
  split
  · rw [h.unlinked.wrapper_release, h.unlinked.namedEvents_release fun _ => by rw [hname, hget]]
    exact ⟨by simp, hget⟩
  · exact ⟨by simp, hget⟩

theorem clearWhere_stops (h : s.Sound) {p : Bytes × Nat → Bool} {n : Bytes} {i : Nat}
    (hget : s.namedEvents.get? n = some i) (hp : p (n, i) = true) :
    ((s.clearWhere o p).wrapper i).pending = false ∧
      (s.clearWhere o p).namedEvents.get? (s.wrapper i).name = none := by
  obtain ⟨-, -, hreg, hw⟩ := h.clearWhere o p
  constructor
  · obtain ⟨r, -, hr⟩ := hw i
    rw [hr]
    simp only [decide_eq_true ((mem_cleared o p i).2 ⟨n, hget, hp⟩), Bool.not_true, Bool.and_false]
  · rw [(h.named n i hget).1, Option.eq_none_iff_forall_ne_some]
    intro j hj
    obtain ⟨hj, hpj⟩ := (hreg n j).1 hj
    obtain rfl : i = j := by simpa [hget] using hj
    rw [hp] at hpj
    exact Bool.noConfusion hpj

theorem namedLike_of_get? (h : s.Sound) {tag n : Bytes} {i : Nat} (htag : tag.length = 3)
    (hget : s.namedEvents.get? (tag ++ n) = some i) : s.namedLike tag (tag ++ n, i) = true := by
  rw [namedLike, (h.named _ i hget).1, ← htag, List.take_left]
  exact beq_self_eq_true tag

/-- After a stop the wrapper is not pending, and its name is free. -/
theorem stops_step (h : s.Sound) {a : TimerAct} {i : Nat} (ha : s.Stops a i) :
    ((s.step o a).wrapper i).pending = false ∧
      (s.step o a).namedEvents.get? (s.wrapper i).name = none := by
  cases a with
  | setTimeout name persist ms => exact absurd ha id
  | setInterval name ms => exact absurd ha id
  | keep j => exact absurd ha id
  | drop j => exact absurd ha id
  | fire j => exact absurd ha id
  | clear j =>
    obtain ⟨rfl, hknown⟩ := ha
    rw [step, if_pos hknown]
    exact stopped h j
  | clearTimeout name =>
    have hget : s.namedEvents.get? (bytes "to:" ++ name) = some i := ha
    simp only [step, clearTimeout, clearNamed, hget]
    exact stopped h i
  | clearInterval name =>
    have hget : s.namedEvents.get? (bytes "iv:" ++ name) = some i := ha
    simp only [step, clearInterval, clearNamed, hget]
    exact stopped h i
  | clearEvents =>
    obtain ⟨n, hget⟩ := ha
    exact clearWhere_stops h hget rfl
  | clearTimeouts =>
    obtain ⟨n, hget⟩ := ha
    exact clearWhere_stops h hget (namedLike_of_get? h rfl hget)
  | clearIntervals =>
    obtain ⟨n, hget⟩ := ha
    exact clearWhere_stops h hget (namedLike_of_get? h rfl hget)
  | finish =>
    obtain ⟨hhead, hpersist⟩ := ha
    obtain ⟨rest, hrun⟩ : ∃ rest, s.running = i :: rest := by
      cases hr : s.running with
      | nil => simp [hr] at hhead
      | cons j rest =>
        rw [hr] at hhead
        exact ⟨rest, by rw [Option.some.inj hhead]⟩
    have hknown : s.Known i := .inr (by rw [hrun]; exact List.mem_cons_self)
    have hpop := popped_sound (h.stop (.inl hknown)) (h.running_stop.trans hrun)
    obtain ⟨hpending, hget⟩ := stopped h i
    have hname : ((s.stop i).wrapper i).name = (s.wrapper i).name :=
      (Later.stop h i).name i (h.held i (held_of_known hknown)).1
    have hfinish : s.finish = ({ s.stop i with running := rest } : Timers).release i := by
      simp [finish, hrun, hpersist]
    show (s.finish.wrapper i).pending = false ∧ s.finish.namedEvents.get? _ = none
    rw [hfinish, hpop.wrapper_release, hpop.namedEvents_release fun _ => by rw [← hget, ← hname]]
    exact ⟨hpending, hget⟩

theorem stops_made (h : s.Sound) {a : TimerAct} {i : Nat} (ha : s.Stops a i) : i < s.made := by
  have hget (n : Bytes) (hn : s.namedEvents.get? n = some i) : i < s.made :=
    (h.held i (held_of_armed (h.named n i hn).2)).1
  cases a with
  | clear j => exact (h.held i (held_of_known ha.2)).1
  | clearTimeout name => exact hget _ ha
  | clearInterval name => exact hget _ ha
  | clearEvents => exact ha.elim hget
  | clearTimeouts => exact ha.elim fun n hn => hget _ hn
  | clearIntervals => exact ha.elim fun n hn => hget _ hn
  | finish => exact (h.held i (held_of_known (.inr (List.mem_of_mem_head? ha.1)))).1
  | _ => exact absurd ha id

/-! ## What holds of every run -/

theorem run_sound (o : IterOrder Bytes Nat) (b : Bool) (as : List TimerAct) : (run o b as).Sound :=
  foldl_sound (init_sound b) as

theorem run_concat (o : IterOrder Bytes Nat) (b : Bool) (as : List TimerAct) (a : TimerAct) :
    run o b (as ++ [a]) = (run o b as).step o a := by
  rw [run, List.foldl_append]
  rfl

/-- **In every state of every run** what the registry has is armed, alive and under its own name, only
    timers that are armed and alive can be run, and a destructor has run exactly if nothing refers to
    the wrapper any more. -/
theorem timers_alive (o : IterOrder Bytes Nat) (b : Bool) (as : List TimerAct) :
    let s := run o b as
    (∀ n i, s.namedEvents.get? n = some i →
      (s.wrapper i).name = n ∧ (s.wrapper i).armed = true ∧ (s.wrapper i).released = false) ∧
    (∀ i, (s.wrapper i).pending = true →
      (s.wrapper i).armed = true ∧ (s.wrapper i).released = false) ∧
    ∀ i < s.made, (s.wrapper i).released = true ↔ ¬ s.Held i := by
  have h : (run o b as).Sound := run_sound o b as
  intro s
  refine ⟨fun n i hn => ?_, fun i hp => ?_, fun i hi => ⟨fun hr hheld => ?_, fun hheld => ?_⟩⟩
  · obtain ⟨hname, harmed⟩ := h.named n i hn
    exact ⟨hname, harmed, (h.held i (held_of_armed harmed)).2⟩
  · have harmed := h.pending i hp
    exact ⟨harmed, (h.held i (held_of_armed harmed)).2⟩
  · rw [(h.held i hheld).2] at hr
    exact Bool.false_ne_true hr
  · by_contra hr
    exact (h.alive i hi (by simpa using hr)).elim hheld id

/-- **The callback of a timer that does not persist begins at most once.** -/
theorem one_shot_at_most_once (o : IterOrder Bytes Nat) (b : Bool) (as : List TimerAct) (i : Nat)
    (hone : ((run o b as).wrapper i).persist = false) : (begins o (init b) as).count i ≤ 1 :=
  count_begins_le (init_sound b) as hone

theorem one_shot_begins_once :
    begins (IterOrder.insertion _ _) (init true)
        [.setTimeout (some (bytes "a")) false 20, .fire 0, .fire 0, .finish, .fire 0] = [0] ∧
      (begins (IterOrder.insertion _ _) (init true)
        [.setTimeout (some (bytes "a")) false 20, .fire 0, .fire 0, .finish, .fire 0]).count 0 ≤ 1 :=
  ⟨by decide, one_shot_at_most_once _ _ _ _ (by decide)⟩

/-- **A timer that has been stopped never begins again**, whatever follows, and its name is free. -/
theorem stopped_never_begins (o : IterOrder Bytes Nat) (b : Bool) (as bs : List TimerAct)
    (a : TimerAct) (i : Nat) (ha : (run o b as).Stops a i) :
    (run o b (as ++ [a])).eventExists ((run o b as).wrapper i).name = false ∧
      i ∉ begins o (run o b (as ++ [a])) bs := by
  have h : (run o b as).Sound := run_sound o b as
  obtain ⟨hpending, hget⟩ := stops_step (o := o) h ha
  rw [run_concat]
  refine ⟨by rw [eventExists, hget]; rfl, ?_⟩
  exact not_mem_begins (step_sound h a) ((stops_made h ha).trans_le (Later.step h a).made) hpending bs

theorem interval_cleared_ends :
    begins (IterOrder.insertion _ _) (init true)
        [.setInterval (some (bytes "a")) 20, .fire 0, .finish, .fire 0] = [0, 0] ∧
      0 ∉ begins (IterOrder.insertion _ _) (run (IterOrder.insertion _ _) true
        ([.setInterval (some (bytes "a")) 20, .fire 0, .finish] ++ [.clearInterval (bytes "a")]))
        [.fire 0] :=
  ⟨by decide, (stopped_never_begins (IterOrder.insertion _ _) true
    [.setInterval (some (bytes "a")) 20, .fire 0, .finish] [.fire 0] (.clearInterval (bytes "a")) 0
    rfl).2⟩

end Timers

end LibEvmvc
