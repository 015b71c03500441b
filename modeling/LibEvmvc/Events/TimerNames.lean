import LibEvmvc.Events.TimerRuns

set_option autoImplicit false

/-! # Names of timers

All armed timers are registered exactly as long as no step takes a name from one that has it: `set`
does it when the name is taken, for its event waits already; `stop` does it when the registry has
another wrapper under the name, which happens to a wrapper that is stopped, or destroyed, after its
name was given to a new one.

Names that no wrapper alive has keep clear of that, and the names `next_event_name` makes are such. -/

namespace LibEvmvc

namespace Timers

variable {s : Timers} {o : IterOrder Bytes Nat} {P : Nat → Prop} {i : Nat}

/-- Every armed timer is registered. -/
def Complete (s : Timers) : Prop :=
  ∀ i, (s.wrapper i).armed = true → s.namedEvents.get? (s.wrapper i).name = some i

/-- The registry has no other wrapper under the name of this one. -/
def NamesakeFree (s : Timers) (i : Nat) : Prop :=
  ∀ j, s.namedEvents.get? (s.wrapper i).name = some j → j = i

/-- The step takes no name from a timer that has it. -/
def Clean (s : Timers) : TimerAct → Prop
  | .setTimeout name _ _ =>
    s.evBase = true → s.namedEvents.get? (bytes "to:" ++ (s.nameOrNext name).1) = none
  | .setInterval name _ =>
    s.evBase = true → s.namedEvents.get? (bytes "iv:" ++ (s.nameOrNext name).1) = none
  | .drop i =>
    i ∈ s.handles → ¬ ({ s with handles := s.handles.erase i } : Timers).Held i → s.NamesakeFree i
  | .clear i => s.Known i → s.NamesakeFree i
  | .finish =>
    match s.running with
    | [] => True
    | i :: rest =>
      (s.wrapper i).persist = false ∨ ¬ ({ s with running := rest } : Timers).Held i →
        s.NamesakeFree i
  | _ => True

/-! ## Steps and the registry -/

theorem complete_unlinked (h : s.SoundBut P) (hc : s.Complete) :
    (s.unlinked i).Complete ↔ s.NamesakeFree i := by
  have hget (n : Bytes) (j : Nat) : (s.unlinked i).namedEvents.get? n = some j ↔
      n ≠ (s.wrapper i).name ∧ s.namedEvents.get? n = some j := by
    rw [namedEvents_unlinked, UMap.get?_erase]
    simp only [id]
    split
    · next hn => simp [hn]
    · next hn => simp [hn]
  constructor
  · intro hcomplete j hj
    by_contra hne
    obtain ⟨hname, harmed⟩ := h.named _ j hj
    have hreg := hcomplete j (by simpa [hne] using harmed)
    rw [wrapper_unlinked, if_neg hne, hget, hname] at hreg
    exact hreg.1 rfl
  · intro hfree j harmed
    rw [wrapper_unlinked] at harmed ⊢
    split at harmed
    · simp at harmed
    · next hne =>
      rw [if_neg hne, hget]
      have hreg := hc j harmed
      refine ⟨fun hname => hne (hfree j ?_), hreg⟩
      rw [← hname]
      exact hreg

theorem complete_release (h : s.SoundBut P) :
    (s.release i).Complete ↔
      s.Complete ∧ (¬ s.Held i → (s.wrapper i).released = false → s.NamesakeFree i) := by
  rw [h.release_eq]
  split
  · next hdead =>
    have harmed := not_armed_of_not_held hdead.1
    have hget (n : Bytes) (j : Nat) : (s.gone i).namedEvents.get? n = some j ↔
        n ≠ (s.wrapper i).name ∧ s.namedEvents.get? n = some j := by
      rw [namedEvents_gone, UMap.get?_erase]
      simp only [id]
      split
      · next hn => simp [hn]
      · next hn => simp [hn]
    have hw (j : Nat) (hj : (s.wrapper j).armed = true) : (s.gone i).wrapper j = s.wrapper j := by
      rw [wrapper_gone, if_neg]
      rintro rfl
      rw [harmed] at hj
      exact Bool.noConfusion hj
    constructor
    · intro hcomplete
      have hreg (j : Nat) (hj : (s.wrapper j).armed = true) :
          (s.wrapper j).name ≠ (s.wrapper i).name ∧
            s.namedEvents.get? (s.wrapper j).name = some j := by
        have hgone := hcomplete j (by rwa [hw j hj])
        rwa [hw j hj, hget] at hgone
      refine ⟨fun j hj => (hreg j hj).2, fun _ _ j hj => ?_⟩
      obtain ⟨hname, hjarmed⟩ := h.named _ j hj
      exact absurd hname (hreg j hjarmed).1
    · rintro ⟨hc, hfree⟩ j hj
      rw [wrapper_gone] at hj ⊢
      split at hj
      · simp at hj
      · next hne =>
        rw [if_neg hne, hget]
        have hreg := hc j hj
        refine ⟨fun hname => hne (hfree hdead.1 hdead.2 j ?_), hreg⟩
        rw [← hname]
        exact hreg
  · next hdead =>
    exact ⟨fun hc => ⟨hc, fun hheld hrel => absurd ⟨hheld, hrel⟩ hdead⟩, And.left⟩

/-- A name that is free has no namesakes. -/
theorem namesakeFree_of_none (h : s.namedEvents.get? (s.wrapper i).name = none) :
    s.NamesakeFree i := fun j hj => absurd hj (by simp [h])

theorem complete_stop (h : s.SoundBut P) (hc : s.Complete) :
    (s.stop i).Complete ↔ s.NamesakeFree i := by
  rw [h.stop_eq]
  split
  · rw [complete_release h.unlinked, complete_unlinked h hc, and_iff_left]
    intro _ _
    refine namesakeFree_of_none ?_
    rw [namedEvents_unlinked, UMap.get?_erase]
    simp
  · exact complete_unlinked h hc

theorem complete_setTimer (h : s.Sound) (hc : s.Complete) (name : Bytes) (persist : Bool) (ms : Nat) :
    (s.setTimer name persist ms).2.Complete ↔
      (s.evBase = true → s.namedEvents.get? name = none) := by
  have hlt (j : Nat) (hj : (s.wrapper j).armed = true) : j ≠ s.made :=
    (h.held j (held_of_armed hj)).1.ne
  rw [setTimer_eq]
  split
  · next hbase => simp [hc, hbase]
  · next hbase =>
    have hbase' : s.evBase = true := by simpa using hbase
    split
    · next hfree =>
      refine iff_of_true (fun j hj => ?_) fun _ => hfree
      have hw : (s.registered name persist ms).wrapper j = (s.added name persist ms).wrapper j := rfl
      rw [hw, wrapper_added] at hj ⊢
      simp only [registered, UMap.get?_emplace, hfree, Option.getD_none, id]
      split
      · next hmade => simp [hmade]
      · next hmade =>
        rw [if_neg hmade] at hj
        have hreg := hc j hj
        rw [if_neg, hreg]
        intro hname
        rw [hname, hfree] at hreg
        exact Option.some_ne_none _ hreg.symm
    · next htaken =>
      refine iff_of_false (fun hcomplete => ?_) fun hfree => htaken (hfree hbase')
      have hreg := hcomplete s.made (by rw [wrapper_added, if_pos rfl])
      rw [wrapper_added, if_pos rfl] at hreg
      have hold : s.namedEvents.get? name = some s.made := hreg
      exact hlt s.made (h.named name s.made hold).2 rfl

theorem complete_clearWhere (h : s.Sound) (hc : s.Complete) (p : Bytes × Nat → Bool) :
    (s.clearWhere o p).Complete := by
  obtain ⟨-, -, hreg, hw⟩ := h.clearWhere o p
  intro j hj
  obtain ⟨r, -, hr⟩ := hw j
  rw [hr] at hj ⊢
  simp only [Bool.and_eq_true, Bool.not_eq_true', decide_eq_false_iff_not] at hj
  refine (hreg _ j).2 ⟨hc j hj.1, ?_⟩
  by_contra hp
  exact hj.2 ((mem_cleared o p j).2 ⟨_, hc j hj.1, by simpa using hp⟩)

/-- A reference taken away from a wrapper that was held. -/
theorem complete_lost {handles running : List Nat} (hc : s.Complete) (hi : (s.wrapper i).released = false)
    (h : ({ s with handles := handles, running := running } : Timers).SoundBut (· = i)) :
    (({ s with handles := handles, running := running } : Timers).release i).Complete ↔
      (¬ ({ s with handles := handles, running := running } : Timers).Held i → s.NamesakeFree i) := by
  rw [complete_release h]
  exact ⟨fun hall hheld => hall.2 hheld hi, fun hfree => ⟨hc, fun hheld _ => hfree hheld⟩⟩

theorem complete_finish (h : s.Sound) (hc : s.Complete) : s.finish.Complete ↔ s.Clean .finish := by
  unfold finish Clean
  cases hrun : s.running with
  | nil => simp [hc]
  | cons i rest =>
    have hknown : s.Known i := .inr (by rw [hrun]; exact List.mem_cons_self)
    have hrel := (h.held i (held_of_known hknown)).2
    simp only
    cases hpersist : (s.wrapper i).persist with
    | true =>
      rw [if_pos rfl, complete_lost hc hrel (popped_sound h hrun)]
      simp
    | false =>
      rw [if_neg (by simp)]
      have hpop := popped_sound (h.stop (.inl hknown)) (h.running_stop.trans hrun)
      have hname : ((s.stop i).wrapper i).name = (s.wrapper i).name :=
        (Later.stop h i).name i (h.held i (held_of_known hknown)).1
      rw [complete_release hpop, and_iff_left]
      · show (s.stop i).Complete ↔ _
        simp [complete_stop h hc]
      · intro _ _
        refine namesakeFree_of_none ?_
        show (s.stop i).namedEvents.get? ((s.stop i).wrapper i).name = none
        rw [hname]
        exact (stopped h i).2

/-- **All armed timers stay registered exactly if the step is clean.** -/
theorem complete_step_iff (h : s.Sound) (hc : s.Complete) (a : TimerAct) :
    (s.step o a).Complete ↔ s.Clean a := by
  cases a with
  | setTimeout name persist ms =>
    have hnext := nameOrNext_sound h name
    cases name with
    | some name => exact complete_setTimer h hc _ persist ms
    | none => exact complete_setTimer hnext hc _ persist ms
  | setInterval name ms =>
    have hnext := nameOrNext_sound h name
    cases name with
    | some name => exact complete_setTimer h hc _ true ms
    | none => exact complete_setTimer hnext hc _ true ms
  | keep i =>
    refine iff_of_true ?_ trivial
    rw [step]
    split <;> exact hc
  | drop i =>
    rw [step, Clean]
    split
    · next hi =>
      rw [complete_lost hc (h.held i (held_of_known (.inl hi))).2 (dropped_sound h)]
      simp [hi]
    · next hi => simp [hc, hi]
  | clear i =>
    rw [step, Clean]
    split
    · next hknown => simp [complete_stop h hc, hknown]
    · next hknown => simp [hc, hknown]
  | clearTimeout name =>
    refine iff_of_true ?_ trivial
    rw [step, clearTimeout, clearNamed]
    cases hget : s.namedEvents.get? (bytes "to:" ++ name) with
    | none => exact hc
    | some ev =>
      refine (complete_stop h hc).2 fun j hj => ?_
      rw [(h.named _ ev hget).1, hget] at hj
      exact (Option.some.inj hj).symm
  | clearInterval name =>
    refine iff_of_true ?_ trivial
    rw [step, clearInterval, clearNamed]
    cases hget : s.namedEvents.get? (bytes "iv:" ++ name) with
    | none => exact hc
    | some ev =>
      refine (complete_stop h hc).2 fun j hj => ?_
      rw [(h.named _ ev hget).1, hget] at hj
      exact (Option.some.inj hj).symm
  | clearEvents => exact iff_of_true (complete_clearWhere h hc _) trivial
  | clearTimeouts => exact iff_of_true (complete_clearWhere h hc _) trivial
  | clearIntervals => exact iff_of_true (complete_clearWhere h hc _) trivial
  | fire i =>
    refine iff_of_true ?_ trivial
    rw [step, fire_eq]
    split
    · intro j hj
      rw [wrapper_begun] at hj ⊢
      exact hc j hj
    · exact hc
  | finish => exact complete_finish h hc

theorem init_complete (b : Bool) : (init b).Complete := fun i h => absurd h (by simp [init])

/-- **The registry has all armed timers in every state of a run exactly if every step is clean.** -/
theorem registry_complete_iff (o : IterOrder Bytes Nat) (b : Bool) (as : List TimerAct) :
    EachState (step o) Complete (init b) as ↔ EachStep (step o) Clean (init b) as := by
  refine eachState_iff (fun s (h : Sound s ∧ Complete s) => h.2) ?_ ?_
    ⟨init_sound b, init_complete b⟩ as
  · exact fun s a h ha => ⟨step_sound h.1 a, (complete_step_iff h.1 h.2 a).2 ha⟩
  · exact fun s a h ha hc => ha ((complete_step_iff h.1 h.2 a).1 hc)

/-- A name is given anew after its timer was cleared, and the last reference to the old timer goes only
    then: the new one is armed, but the registry does not know it. -/
example :
    let s := run (IterOrder.insertion _ _) true
      [.setTimeout (some (bytes "a")) false 5, .clearTimeout (bytes "a"),
        .setTimeout (some (bytes "a")) false 5, .drop 0]
    (s.wrapper 1).armed = true ∧ s.timeoutExists (bytes "a") = false := by
  decide

/-! ## Where all armed timers are registered -/

/-- A timer that was set before `clear_events` does not begin after it, nor one with the name after
    `clear_timeout` or `clear_interval`. -/
theorem Complete.cleared (hc : s.Complete) (h : s.Sound) {a : TimerAct} {q : Bytes → Prop}
    (ha : ∀ i, s.namedEvents.get? (s.wrapper i).name = some i → q (s.wrapper i).name → s.Stops a i)
    (bs : List TimerAct) : ∀ i < s.made, q (s.wrapper i).name → i ∉ begins o (s.step o a) bs := by
  intro i hi hq
  refine not_mem_begins (step_sound h a) (hi.trans_le (Later.step h a).made) ?_ bs
  by_cases harmed : (s.wrapper i).armed = true
  · exact (stops_step h (ha i (hc i harmed) hq)).1
  · by_contra hpending
    exact harmed (h.pending i ((Later.step h a).pending i hi (by simpa using hpending)))

theorem Complete.eventExists_iff (hc : s.Complete) (h : s.Sound) (name : Bytes) :
    s.eventExists name = true ↔ ∃ i, (s.wrapper i).armed = true ∧ (s.wrapper i).name = name := by
  rw [eventExists, Option.isSome_iff_exists]
  constructor
  · rintro ⟨i, hi⟩
    exact ⟨i, (h.named name i hi).symm⟩
  · rintro ⟨i, harmed, rfl⟩
    exact ⟨i, hc i harmed⟩

/-! ## Fresh names -/

/-- What the names of `next_event_name` begin with. -/
def anonTag : Bytes := bytes "da724ca0-308c-11e9-9071-5b3166957f05_"

/-- A wrapper that is alive has the name. -/
def Taken (s : Timers) (name : Bytes) : Prop :=
  ∃ i < s.made, (s.wrapper i).released = false ∧ (s.wrapper i).name = name

/-- A name the program gives is not like those of `next_event_name`, and no wrapper alive has it. -/
def Fresh (s : Timers) : TimerAct → Prop
  | .setTimeout (some name) _ _ => ¬ anonTag <+: name ∧ ¬ s.Taken (bytes "to:" ++ name)
  | .setInterval (some name) _ => ¬ anonTag <+: name ∧ ¬ s.Taken (bytes "iv:" ++ name)
  | _ => True

/-- Wrappers that are alive have different names, and the names of `next_event_name` to come are
    new. -/
structure Distinct (s : Timers) : Prop where
  one : ∀ i < s.made, ∀ j < s.made, (s.wrapper i).released = false →
    (s.wrapper j).released = false → (s.wrapper i).name = (s.wrapper j).name → i = j
  anon : ∀ i < s.made, ∀ k, (s.wrapper i).name = bytes "to:" ++ (anonTag ++ numToStr k) ∨
    (s.wrapper i).name = bytes "iv:" ++ (anonTag ++ numToStr k) → k ≤ s.uid

/-- A wrapper that is alive has no namesake in the registry. -/
theorem Distinct.namesakeFree (hd : s.Distinct) (h : s.Sound) (hi : s.Held i) : s.NamesakeFree i := by
  intro j hj
  obtain ⟨hname, harmed⟩ := h.named _ j hj
  have hjheld := h.held j (held_of_armed harmed)
  have hiheld := h.held i hi
  exact hd.one j hjheld.1 i hiheld.1 hjheld.2 hiheld.2 hname

/-- A name that is not taken is not registered. -/
theorem get?_of_not_taken (h : s.Sound) {name : Bytes} (hname : ¬ s.Taken name) :
    s.namedEvents.get? name = none := by
  rw [Option.eq_none_iff_forall_ne_some]
  intro j hj
  obtain ⟨hjname, harmed⟩ := h.named name j hj
  obtain ⟨hmade, hrel⟩ := h.held j (held_of_armed harmed)
  exact hname ⟨j, hmade, hrel, hjname⟩

/-- The name `next_event_name` makes is new. -/
theorem Distinct.not_taken_next (hd : s.Distinct) {tag : Bytes}
    (htag : tag = bytes "to:" ∨ tag = bytes "iv:") :
    ¬ s.Taken (tag ++ (s.nameOrNext none).1) := by
  rintro ⟨i, hi, -, hname⟩
  have hle := hd.anon i hi (s.uid + 1) <| by
    rcases htag with rfl | rfl
    · exact .inl hname
    · exact .inr hname
  omega

theorem Distinct.clean (hd : s.Distinct) (h : s.Sound) {a : TimerAct} (ha : s.Fresh a) :
    s.Clean a := by
  cases a with
  | setTimeout name persist ms =>
    intro _
    cases name with
    | some name => exact get?_of_not_taken h ha.2
    | none => exact get?_of_not_taken h (hd.not_taken_next (.inl rfl))
  | setInterval name ms =>
    intro _
    cases name with
    | some name => exact get?_of_not_taken h ha.2
    | none => exact get?_of_not_taken h (hd.not_taken_next (.inr rfl))
  | drop i => exact fun hi _ => hd.namesakeFree h (held_of_known (.inl hi))
  | clear i => exact fun hknown => hd.namesakeFree h (held_of_known hknown)
  | finish =>
    unfold Clean
    cases hrun : s.running with
    | nil => trivial
    | cons i rest =>
      exact fun _ => hd.namesakeFree h (held_of_known (.inr (by rw [hrun]; exact List.mem_cons_self)))
  | _ => trivial

/-! ### Names stay distinct -/

/-- How many wrappers and names there have been. -/
def counts (s : Timers) : Nat × Nat := (s.made, s.uid)

theorem counts_releaseRounds (n : Nat) (s : Timers) (i : Nat) :
    (s.releaseRounds n i).counts = s.counts := by
  induction n generalizing s i with
  | zero => rfl
  | succ n ih =>
    rw [releaseRounds]
    split
    · rw [stopBody_eq]
      cases (s.modify i fun w => { w with released := true }).namedEvents.get? _ with
      | none => rfl
      | some self => exact ih _ self
    · rfl

theorem counts_release (s : Timers) (i : Nat) : (s.release i).counts = s.counts :=
  counts_releaseRounds _ s i

theorem counts_stop (s : Timers) (i : Nat) : (s.stop i).counts = s.counts := by
  rw [stop, stopBody_eq]
  cases s.namedEvents.get? (s.wrapper i).name with
  | none => rfl
  | some self => exact counts_release _ self

theorem counts_foldl {f : Timers → Nat → Timers} (hf : ∀ s i, (f s i).counts = s.counts)
    (evs : List Nat) (s : Timers) : (evs.foldl f s).counts = s.counts := by
  induction evs generalizing s with
  | nil => rfl
  | cons i evs ih => exact (ih (f s i)).trans (hf s i)

theorem counts_clearWhere (s : Timers) (p : Bytes × Nat → Bool) :
    (s.clearWhere o p).counts = s.counts := by
  rw [clearWhere]
  exact (counts_foldl counts_release _ _).trans (counts_foldl counts_stop _ _)

theorem counts_clearNamed (s : Timers) (name : Bytes) : (s.clearNamed name).counts = s.counts := by
  unfold clearNamed
  cases s.namedEvents.get? name with
  | none => rfl
  | some ev => exact counts_stop s ev

theorem counts_finish (s : Timers) : s.finish.counts = s.counts := by
  unfold finish
  split
  · rfl
  · next i rest hrun =>
    split
    · exact counts_release _ i
    · exact (counts_release _ i).trans (counts_stop s i)

theorem Distinct.later {s' : Timers} (hd : s.Distinct) (h : Later s s') (hcounts : s'.counts = s.counts) :
    s'.Distinct := by
  obtain ⟨hmade, huid⟩ := Prod.mk.inj hcounts
  constructor
  · intro i hi j hj hir hjr hname
    rw [hmade] at hi hj
    rw [h.name i hi, h.name j hj] at hname
    exact hd.one i hi j hj (h.released i hi hir) (h.released j hj hjr) hname
  · intro i hi k hname
    rw [hmade] at hi
    rw [huid]
    rw [h.name i hi] at hname
    exact hd.anon i hi k hname

/-- A new wrapper under a name that nobody has. -/
theorem Distinct.setTimer (hd : s.Distinct) {name : Bytes} (hnew : ¬ s.Taken name)
    (hanon : ∀ k, name = bytes "to:" ++ (anonTag ++ numToStr k) ∨
      name = bytes "iv:" ++ (anonTag ++ numToStr k) → k ≤ s.uid) (persist : Bool) (ms : Nat) :
    (s.setTimer name persist ms).2.Distinct := by
  have hadd : (s.added name persist ms).Distinct := by
    constructor
    · intro i hi j hj hir hjr hsame
      rw [wrapper_added] at hir hsame
      rw [wrapper_added] at hjr hsame
      split at hir <;> split at hjr
      · next hie hje => rw [hie, hje]
      · next hie hje =>
        rw [if_pos hie, if_neg hje] at hsame
        exact absurd ⟨j, lt_of_le_of_ne (Nat.le_of_lt_succ hj) hje, hjr, hsame.symm⟩ hnew
      · next hie hje =>
        rw [if_neg hie, if_pos hje] at hsame
        exact absurd ⟨i, lt_of_le_of_ne (Nat.le_of_lt_succ hi) hie, hir, hsame⟩ hnew
      · next hie hje =>
        rw [if_neg hie, if_neg hje] at hsame
        exact hd.one i (lt_of_le_of_ne (Nat.le_of_lt_succ hi) hie) j
          (lt_of_le_of_ne (Nat.le_of_lt_succ hj) hje) hir hjr hsame
    · intro i hi k hk
      rw [wrapper_added] at hk
      split at hk
      · exact hanon k hk
      · next hie => exact hd.anon i (lt_of_le_of_ne (Nat.le_of_lt_succ hi) hie) k hk
  rw [setTimer_eq]
  split
  · exact hd
  · split
    · exact ⟨hadd.one, hadd.anon⟩
    · exact hadd

/-- A timer of the program is not named like those of `next_event_name`. -/
theorem not_anon {tag name : Bytes} (htag : tag = bytes "to:" ∨ tag = bytes "iv:")
    (hname : ¬ anonTag <+: name) (k : Nat) :
    ¬ (tag ++ name = bytes "to:" ++ (anonTag ++ numToStr k) ∨
      tag ++ name = bytes "iv:" ++ (anonTag ++ numToStr k)) := by
  have hlen : tag.length = 3 := by rcases htag with rfl | rfl <;> rfl
  rintro (h | h)
  · exact hname ⟨_, ((List.append_inj h hlen).2).symm⟩
  · exact hname ⟨_, ((List.append_inj h hlen).2).symm⟩

theorem Distinct.setNext (hd : s.Distinct) {tag : Bytes} (htag : tag = bytes "to:" ∨ tag = bytes "iv:")
    (persist : Bool) (ms : Nat) :
    ((s.nameOrNext none).2.setTimer (tag ++ (s.nameOrNext none).1) persist ms).2.Distinct := by
  have hlen : tag.length = 3 := by rcases htag with rfl | rfl <;> rfl
  have hnext : (s.nameOrNext none).2.Distinct :=
    ⟨hd.one, fun i hi k hk => Nat.le_succ_of_le (hd.anon i hi k hk)⟩
  refine hnext.setTimer (hd.not_taken_next htag) ?_ persist ms
  have hk (k : Nat) {tag' : Bytes}
      (h : tag ++ (anonTag ++ numToStr (s.uid + 1)) = tag' ++ (anonTag ++ numToStr k))
      (hlen' : tag'.length = 3) : k ≤ s.uid + 1 := by
    have hnum := List.append_cancel_left (List.append_inj h (hlen.trans hlen'.symm)).2
    exact (numToStr_injective hnum).ge
  rintro k (h | h)
  · exact hk k h rfl
  · exact hk k h rfl

theorem Distinct.step (hd : s.Distinct) (h : s.Sound) {a : TimerAct} (ha : s.Fresh a) :
    (s.step o a).Distinct := by
  have hlater : Later s (s.step o a) := Later.step h a
  cases a with
  | setTimeout name persist ms =>
    cases name with
    | some name => exact hd.setTimer ha.2 (fun k hk => absurd hk (not_anon (.inl rfl) ha.1 k)) persist ms
    | none => exact hd.setNext (.inl rfl) persist ms
  | setInterval name ms =>
    cases name with
    | some name => exact hd.setTimer ha.2 (fun k hk => absurd hk (not_anon (.inr rfl) ha.1 k)) true ms
    | none => exact hd.setNext (.inr rfl) true ms
  | keep i =>
    refine hd.later hlater ?_
    rw [Timers.step]
    split <;> rfl
  | drop i =>
    refine hd.later hlater ?_
    rw [Timers.step]
    split
    · exact counts_release _ i
    · rfl
  | clear i =>
    refine hd.later hlater ?_
    rw [Timers.step]
    split
    · exact counts_stop s i
    · rfl
  | clearTimeout name => exact hd.later hlater (counts_clearNamed s _)
  | clearInterval name => exact hd.later hlater (counts_clearNamed s _)
  | clearEvents => exact hd.later hlater (counts_clearWhere s _)
  | clearTimeouts => exact hd.later hlater (counts_clearWhere s _)
  | clearIntervals => exact hd.later hlater (counts_clearWhere s _)
  | fire i =>
    refine hd.later hlater ?_
    rw [Timers.step, fire_eq]
    split <;> rfl
  | finish => exact hd.later hlater (counts_finish s)

theorem init_distinct (b : Bool) : (init b).Distinct :=
  ⟨fun i hi => absurd hi (Nat.not_lt_zero i), fun i hi => absurd hi (Nat.not_lt_zero i)⟩

/-- **With fresh names the registry has exactly the armed timers**, so `timeout_exists` and
    `interval_exists` tell whether there is one, and after `clear_events`, `clear_timeout` or
    `clear_interval` no callback of an older timer, or of an older one with that name, begins. -/
theorem fresh_names_cleared (o : IterOrder Bytes Nat) (b : Bool) (as bs : List TimerAct)
    (hfresh : EachStep (step o) Fresh (init b) as) :
    let s := run o b as
    (∀ name, s.timeoutExists name = true ↔
      ∃ i, (s.wrapper i).armed = true ∧ (s.wrapper i).name = bytes "to:" ++ name) ∧
    (∀ name, s.intervalExists name = true ↔
      ∃ i, (s.wrapper i).armed = true ∧ (s.wrapper i).name = bytes "iv:" ++ name) ∧
    (∀ i < s.made, i ∉ begins o (s.step o .clearEvents) bs) ∧
    (∀ name, ∀ i < s.made, (s.wrapper i).name = bytes "to:" ++ name →
      i ∉ begins o (s.step o (.clearTimeout name)) bs) ∧
    ∀ name, ∀ i < s.made, (s.wrapper i).name = bytes "iv:" ++ name →
      i ∉ begins o (s.step o (.clearInterval name)) bs := by
  obtain ⟨h, hc, -⟩ : (run o b as).Sound ∧ (run o b as).Complete ∧
      (run o b as).Distinct := by
    refine EachStep.invariant (J := fun s => Sound s ∧ Complete s ∧ Distinct s) (fun s a hs ha => ?_)
      ⟨init_sound b, init_complete b, init_distinct b⟩ hfresh
    obtain ⟨h, hc, hd⟩ := hs
    exact ⟨step_sound h a, (complete_step_iff h hc a).2 (hd.clean h ha), hd.step h ha⟩
  refine ⟨fun name => hc.eventExists_iff h _, fun name => hc.eventExists_iff h _, fun i hi => ?_,
    fun name i hi hname => ?_, fun name i hi hname => ?_⟩
  · exact hc.cleared h (a := .clearEvents) (q := fun _ => True) (fun i hi _ => ⟨_, hi⟩) bs i hi trivial
  · refine hc.cleared h (a := .clearTimeout name) (q := (· = bytes "to:" ++ name)) ?_ bs i hi hname
    intro i hi hn
    rwa [hn] at hi
  · refine hc.cleared h (a := .clearInterval name) (q := (· = bytes "iv:" ++ name)) ?_ bs i hi hname
    intro i hi hn
    rwa [hn] at hi

theorem fresh_timeout_exists :
    (run (IterOrder.insertion _ _) true
        [.setTimeout (some (bytes "a")) false 5, .setInterval none 7, .fire 0]).timeoutExists
        (bytes "a") = true ↔
      ∃ i, ((run (IterOrder.insertion _ _) true
          [.setTimeout (some (bytes "a")) false 5, .setInterval none 7, .fire 0]).wrapper i).armed = true ∧
        ((run (IterOrder.insertion _ _) true
          [.setTimeout (some (bytes "a")) false 5, .setInterval none 7, .fire 0]).wrapper i).name =
            bytes "to:" ++ bytes "a" := by
  have hnew : ¬ (init true).Taken (bytes "to:" ++ bytes "a") := by
    rintro ⟨i, hi, -⟩
    exact Nat.not_lt_zero i hi
  have hfresh : EachStep (step (IterOrder.insertion _ _)) Fresh (init true)
      [.setTimeout (some (bytes "a")) false 5, .setInterval none 7, .fire 0] :=
    ⟨⟨by decide, hnew⟩, trivial, trivial, trivial⟩
  exact (fresh_names_cleared _ true _ [] hfresh).1 (bytes "a")

end Timers

end LibEvmvc
