import LibEvmvc.Events.Timers

set_option autoImplicit false

/-! # References to timers

What the registry has is armed and has the name it is under, and the destructor of a wrapper has run
exactly if nothing refers to it. An operation first takes references away and then releases what they
pointed to, so in between the invariant is kept up to some wrappers (`SoundBut`).

A destructor never sets off another one: what it finds in the registry is armed, and its event holds
it. -/

namespace LibEvmvc

namespace Timers

/-- The invariant up to wrappers whose last reference may just have gone. -/
structure SoundBut (P : Nat → Prop) (s : Timers) : Prop where
  named : ∀ n i, s.namedEvents.get? n = some i →
    (s.wrapper i).name = n ∧ (s.wrapper i).armed = true
  pending : ∀ i, (s.wrapper i).pending = true → (s.wrapper i).armed = true
  held : ∀ i, s.Held i → i < s.made ∧ (s.wrapper i).released = false
  alive : ∀ i, i < s.made → (s.wrapper i).released = false → s.Held i ∨ P i

/-- The invariant of all timers. -/
abbrev Sound (s : Timers) : Prop := s.SoundBut fun _ => False

theorem SoundBut.mono {P Q : Nat → Prop} {s : Timers} (h : s.SoundBut Q)
    (hPQ : ∀ i, Q i → s.Held i ∨ P i) : s.SoundBut P where
  named := h.named
  pending := h.pending
  held := h.held
  alive i hi hr := (h.alive i hi hr).elim .inl (hPQ i)

theorem init_sound (b : Bool) : (init b).Sound where
  named n i h := absurd h (by simp [init])
  pending i h := absurd h (by simp [init])
  held i h := absurd h (by simp [init, Held, UMap.empty])
  alive i h := absurd h (by simp [init])

/-- What is in the registry is held by its event. -/
theorem SoundBut.held_iff {P : Nat → Prop} {s : Timers} (h : s.SoundBut P) (i : Nat) :
    s.Held i ↔ (s.wrapper i).armed = true ∨ i ∈ s.handles ∨ i ∈ s.running := by
  constructor
  · rintro (hmem | hrest)
    · obtain ⟨e, he, rfl⟩ := List.mem_map.1 hmem
      exact .inl (h.named e.1 e.2 (UMap.get?_of_mem he)).2
    · exact hrest
  · exact .inr

theorem held_of_armed {s : Timers} {i : Nat} (h : (s.wrapper i).armed = true) : s.Held i :=
  .inr (.inl h)

theorem held_of_known {s : Timers} {i : Nat} (h : s.Known i) : s.Held i := .inr (.inr h)

/-! ## Stopping and releasing -/

/-- What a stop leaves: no event, and nothing under the name. -/
def unlinked (s : Timers) (i : Nat) : Timers :=
  { s.disarm i with namedEvents := s.namedEvents.erase (s.wrapper i).name }

/-- What the destructor leaves. -/
def gone (s : Timers) (i : Nat) : Timers :=
  (s.modify i fun w => { w with released := true }).unlinked i

section

variable {P Q : Nat → Prop} {s : Timers} {i : Nat}

@[simp] theorem wrapper_modify (f : EventWrapper → EventWrapper) (j : Nat) :
    (s.modify i f).wrapper j = if j = i then f (s.wrapper j) else s.wrapper j := by
  simp only [modify, Function.update_apply]
  split
  · next h => rw [h]
  · rfl

@[simp] theorem wrapper_unlinked (j : Nat) :
    (s.unlinked i).wrapper j =
      if j = i then { s.wrapper j with armed := false, pending := false } else s.wrapper j :=
  wrapper_modify (fun w => { w with armed := false, pending := false }) j

theorem wrapper_gone (j : Nat) :
    (s.gone i).wrapper j =
      if j = i then { s.wrapper j with armed := false, pending := false, released := true }
      else s.wrapper j := by
  simp only [gone, wrapper_unlinked, wrapper_modify]
  split <;> rfl

@[simp] theorem namedEvents_unlinked :
    (s.unlinked i).namedEvents = s.namedEvents.erase (s.wrapper i).name := rfl

@[simp] theorem handles_unlinked : (s.unlinked i).handles = s.handles := rfl

@[simp] theorem running_unlinked : (s.unlinked i).running = s.running := rfl

theorem namedEvents_gone : (s.gone i).namedEvents = s.namedEvents.erase (s.wrapper i).name := by
  simp [gone, modify]

theorem stopBody_eq : s.stopBody i = (s.unlinked i, s.namedEvents.get? (s.wrapper i).name) := by
  have hname : ((s.disarm i).wrapper i).name = (s.wrapper i).name := by simp [disarm]
  cases hget : s.namedEvents.get? (s.wrapper i).name with
  | none =>
    have hnone : (s.disarm i).namedEvents.get? (s.wrapper i).name = none := hget
    simp only [stopBody, hname, hnone]
    rw [unlinked, UMap.erase_eq_self hget]
    rfl
  | some self =>
    have hsome : (s.disarm i).namedEvents.get? (s.wrapper i).name = some self := hget
    simp only [stopBody, hname, hsome]
    rfl

theorem releaseRounds_of_held (n : Nat) (h : s.Held i) : s.releaseRounds n i = s := by
  cases n with
  | zero => rfl
  | succ n => rw [releaseRounds, if_neg (by simp [h])]

/-- **A destructor sets off no other one.** -/
theorem SoundBut.release_eq (h : s.SoundBut P) :
    s.release i = if ¬ s.Held i ∧ (s.wrapper i).released = false then s.gone i else s := by
  rw [release, releaseRounds]
  split
  · next hdead =>
    rw [stopBody_eq]
    cases hget : (s.modify i fun w => { w with released := true }).namedEvents.get?
        ((s.modify i fun w => { w with released := true }).wrapper i).name with
    | none => rfl
    | some self =>
      -- what is found has an event, so it is another wrapper, and it is still held
      have harmed := (h.named _ self hget).2
      have hne : self ≠ i := by
        rintro rfl
        exact hdead.1 (held_of_armed harmed)
      refine releaseRounds_of_held _ (held_of_armed ?_)
      simp [hne, harmed]
  · rfl

theorem SoundBut.stop_eq (h : s.SoundBut P) :
    s.stop i =
      if s.namedEvents.get? (s.wrapper i).name = some i then (s.unlinked i).release i
      else s.unlinked i := by
  rw [stop, stopBody_eq]
  cases hget : s.namedEvents.get? (s.wrapper i).name with
  | none => simp
  | some self =>
    by_cases hself : self = i
    · simp [hself]
    · have harmed := (h.named _ self hget).2
      rw [if_neg (by simpa using hself)]
      exact releaseRounds_of_held _ (held_of_armed (by simp [hself, harmed]))

/-! ## The invariant is kept -/

theorem held_unlinked (h : s.SoundBut P) {j : Nat} (hj : j ≠ i) :
    (s.unlinked i).Held j ↔ s.Held j := by
  rw [h.held_iff]
  constructor
  · rintro (hmem | hrest)
    · obtain ⟨e, he, rfl⟩ := List.mem_map.1 hmem
      exact .inl (h.named e.1 e.2 (UMap.get?_of_mem (UMap.mem_of_mem_erase he))).2
    · simpa [hj] using hrest
  · intro hrest
    exact .inr (by simpa [hj] using hrest)

theorem held_of_held_unlinked (h : s.SoundBut P) {j : Nat} (hj : (s.unlinked i).Held j) :
    s.Held j := by
  by_cases hji : j = i
  · subst hji
    rcases hj with hmem | harmed | hrest
    · obtain ⟨e, he, hej⟩ := List.mem_map.1 hmem
      exact .inl (List.mem_map.2 ⟨e, UMap.mem_of_mem_erase he, hej⟩)
    · simp at harmed
    · exact .inr (.inr hrest)
  · exact (held_unlinked h hji).1 hj

theorem named_unlinked (h : s.SoundBut P) {n : Bytes} {j : Nat}
    (hget : (s.unlinked i).namedEvents.get? n = some j) :
    s.namedEvents.get? n = some j ∧ n ≠ (s.wrapper i).name ∧ j ≠ i := by
  rw [namedEvents_unlinked, UMap.get?_erase] at hget
  split at hget
  · exact absurd hget (by simp)
  · next hn =>
    refine ⟨hget, hn, ?_⟩
    rintro rfl
    exact hn (h.named n _ hget).1.symm

/-- A stop takes references to one wrapper away. -/
theorem SoundBut.unlinked (h : s.SoundBut P) : (s.unlinked i).SoundBut fun j => P j ∨ j = i where
  named n j hget := by
    obtain ⟨hold, -, hj⟩ := named_unlinked h hget
    simpa [hj] using h.named n j hold
  pending j hp := by
    rw [wrapper_unlinked] at hp ⊢
    split at hp
    · simp at hp
    · next hj => rw [if_neg hj]; exact h.pending j hp
  held j hj := by
    obtain ⟨hmade, hrel⟩ := h.held j (held_of_held_unlinked h hj)
    refine ⟨hmade, ?_⟩
    rw [wrapper_unlinked]
    split <;> exact hrel
  alive j hmade hrel := by
    by_cases hj : j = i
    · exact .inr (.inr hj)
    · rw [held_unlinked h hj]
      rw [wrapper_unlinked, if_neg hj] at hrel
      exact (h.alive j hmade hrel).imp_right .inl

/-- The destructor has run: the wrapper is as alive as its references. -/
theorem SoundBut.gone (h : s.SoundBut Q) (hi : ¬ s.Held i) (hQ : ∀ j, Q j → P j ∨ j = i) :
    (s.gone i).SoundBut P := by
  have hone : (s.unlinked i).SoundBut fun j => Q j ∨ j = i := h.unlinked
  have hsame (j : Nat) : (s.gone i).Held j ↔ (s.unlinked i).Held j := by
    simp only [Held, wrapper_gone, wrapper_unlinked, namedEvents_gone, namedEvents_unlinked]
    split <;> rfl
  have hnot : ¬ (s.unlinked i).Held i := fun hheld => hi (held_of_held_unlinked h hheld)
  constructor
  · intro n j hget
    rw [namedEvents_gone] at hget
    have hj := (named_unlinked h (by rwa [namedEvents_unlinked])).2.2
    have hnamed := hone.named n j (by rwa [namedEvents_unlinked])
    rw [wrapper_unlinked, if_neg hj] at hnamed
    rwa [wrapper_gone, if_neg hj]
  · intro j hp
    rw [wrapper_gone] at hp ⊢
    split at hp
    · simp at hp
    · next hj => rw [if_neg hj]; exact h.pending j hp
  · intro j hj
    rw [hsame] at hj
    obtain ⟨hmade, hrel⟩ := hone.held j hj
    have hji : j ≠ i := by
      rintro rfl
      exact hnot hj
    rw [wrapper_unlinked, if_neg hji] at hrel
    exact ⟨hmade, by rwa [wrapper_gone, if_neg hji]⟩
  · intro j hmade hrel
    rw [hsame]
    rw [wrapper_gone] at hrel
    split at hrel
    · simp at hrel
    · next hji =>
      rcases hone.alive j hmade (by rwa [wrapper_unlinked, if_neg hji]) with hheld | hQj | rfl
      · exact .inl hheld
      · exact .inr ((hQ j hQj).resolve_right hji)
      · exact absurd rfl hji

theorem SoundBut.release (h : s.SoundBut Q) (hQ : ∀ j, Q j → P j ∨ j = i) :
    (s.release i).SoundBut P := by
  rw [h.release_eq]
  split
  · next hdead => exact h.gone hdead.1 hQ
  · next hdead =>
    constructor
    · exact h.named
    · exact h.pending
    · exact h.held
    · intro j hmade hrel
      rcases h.alive j hmade hrel with hheld | hQj
      · exact .inl hheld
      · rcases hQ j hQj with hPj | rfl
        · exact .inr hPj
        · exact .inl (by_contra fun hnot => hdead ⟨hnot, hrel⟩)

/-- A wrapper that somebody holds is stopped. -/
theorem SoundBut.stop (h : s.SoundBut P)
    (hi : s.Known i ∨ s.namedEvents.get? (s.wrapper i).name = some i) : (s.stop i).SoundBut P := by
  rw [h.stop_eq]
  split
  · exact h.unlinked.release fun j hj => hj
  · next hother =>
    refine h.unlinked.mono ?_
    rintro j (hPj | rfl)
    · exact .inr hPj
    · exact .inl (held_of_known (hi.resolve_right hother))

/-! ## What a release leaves alone -/

theorem not_armed_of_not_held (hi : ¬ s.Held i) : (s.wrapper i).armed = false := by
  simpa using fun harmed => hi (held_of_armed harmed)

/-- A wrapper that loses its last reference has no event any more. -/
theorem SoundBut.wrapper_release (h : s.SoundBut P) (j : Nat) :
    (s.release i).wrapper j =
      { s.wrapper j with
        released := (s.wrapper j).released || (decide (j = i) && !decide (s.Held i)) } := by
  rw [h.release_eq]
  split
  · next hdead =>
    rw [wrapper_gone]
    split
    · next hj =>
      subst hj
      have harmed := not_armed_of_not_held hdead.1
      have hpending : (s.wrapper j).pending = false := by
        simpa [harmed] using h.pending j
      simp [hdead.1, harmed, hpending]
    · next hj => simp [hj]
  · next hdead =>
    by_cases hj : j = i
    · subst hj
      by_cases hheld : s.Held j
      · simp [hheld]
      · have hrel : (s.wrapper j).released = true := by simpa [hheld] using hdead
        rw [hrel, Bool.true_or, ← hrel]
    · simp [hj]

theorem SoundBut.running_release (h : s.SoundBut P) : (s.release i).running = s.running := by
  rw [h.release_eq]
  split <;> rfl

theorem SoundBut.made_release (h : s.SoundBut P) : (s.release i).made = s.made := by
  rw [h.release_eq]
  split <;> rfl

theorem SoundBut.running_stop (h : s.SoundBut P) : (s.stop i).running = s.running := by
  rw [h.stop_eq]
  split
  · rw [h.unlinked.running_release, running_unlinked]
  · rfl

/-- A destructor with no namesake in the registry leaves the registry alone. -/
theorem SoundBut.namedEvents_release (h : s.SoundBut P)
    (hi : ¬ s.Held i → s.namedEvents.get? (s.wrapper i).name = none) :
    (s.release i).namedEvents = s.namedEvents := by
  rw [h.release_eq]
  split
  · next hdead => rw [namedEvents_gone, UMap.erase_eq_self (hi hdead.1)]
  · rfl

/-! ## Clearing many -/

/-- Wrappers whose events have been taken away. -/
def silenced (s : Timers) (evs : List Nat) : Timers :=
  { s with
    wrapper := fun j =>
      if j ∈ evs then { s.wrapper j with armed := false, pending := false } else s.wrapper j }

/-- Stopping wrappers that the registry does not know any more. -/
theorem SoundBut.foldl_stop (h : s.SoundBut P) (evs : List Nat)
    (hnone : ∀ i ∈ evs, s.namedEvents.get? (s.wrapper i).name = none) :
    evs.foldl Timers.stop s = s.silenced evs ∧
      (s.silenced evs).SoundBut fun j => P j ∨ j ∈ evs := by
  induction evs generalizing P s with
  | nil => exact ⟨by simp [silenced], by simpa [silenced] using h⟩
  | cons i evs ih =>
    rw [List.forall_mem_cons] at hnone
    have hstop : s.stop i = s.unlinked i := by
      rw [h.stop_eq, if_neg (by simp [hnone.1])]
    have hreg : (s.unlinked i).namedEvents = s.namedEvents := UMap.erase_eq_self hnone.1
    have hname (j : Nat) : ((s.unlinked i).wrapper j).name = (s.wrapper j).name := by
      rw [wrapper_unlinked]
      split <;> rfl
    obtain ⟨hfold, hsound⟩ := ih h.unlinked fun j hj => by rw [hreg, hname]; exact hnone.2 j hj
    have hall : (s.unlinked i).silenced evs = s.silenced (i :: evs) := by
      have hw (j : Nat) : ((s.unlinked i).silenced evs).wrapper j =
          (s.silenced (i :: evs)).wrapper j := by
        simp only [silenced, wrapper_unlinked, List.mem_cons]
        by_cases hj : j = i <;> by_cases hmem : j ∈ evs <;> simp [hj, hmem]
      rw [silenced, silenced, Timers.mk.injEq]
      exact ⟨rfl, rfl, funext hw, hreg, rfl, rfl, rfl⟩
    rw [List.foldl_cons, hstop, hfold, hall]
    rw [hall] at hsound
    refine ⟨rfl, hsound.mono fun j hj => .inr ?_⟩
    simpa [or_assoc] using hj

/-- The vector goes, and with it the last references to some wrappers. -/
theorem SoundBut.foldl_release (evs : List Nat) (h : s.SoundBut fun j => P j ∨ j ∈ evs)
    (hnone : ∀ i ∈ evs, s.namedEvents.get? (s.wrapper i).name = none) :
    (evs.foldl Timers.release s).SoundBut P ∧
      (evs.foldl Timers.release s).namedEvents = s.namedEvents ∧
      (evs.foldl Timers.release s).made = s.made ∧
      ∀ j, ∃ r, ((s.wrapper j).released = true → r = true) ∧
        (evs.foldl Timers.release s).wrapper j = { s.wrapper j with released := r } := by
  induction evs generalizing s with
  | nil => exact ⟨by simpa using h, rfl, rfl, fun j => ⟨_, id, rfl⟩⟩
  | cons i evs ih =>
    rw [List.forall_mem_cons] at hnone
    have hreg : (s.release i).namedEvents = s.namedEvents :=
      h.namedEvents_release fun _ => hnone.1
    have hrel : (s.release i).SoundBut fun j => P j ∨ j ∈ evs :=
      h.release fun j hj => by simpa [or_assoc, or_comm, or_left_comm] using hj
    obtain ⟨hsound, hnamed, hmade, hw⟩ := ih hrel fun j hj => by
      rw [hreg, h.wrapper_release]
      exact hnone.2 j hj
    rw [List.foldl_cons]
    refine ⟨hsound, hnamed.trans hreg, hmade.trans h.made_release, fun j => ?_⟩
    obtain ⟨r, hkept, hr⟩ := hw j
    refine ⟨r, fun hrel => hkept ?_, by rw [hr, h.wrapper_release]⟩
    rw [h.wrapper_release]
    simp [hrel]

/-- What the registry has is the place of a wrapper under its own name. -/
theorem mem_cleared (o : IterOrder Bytes Nat) (p : Bytes × Nat → Bool) (j : Nat) :
    j ∈ ((s.namedEvents.iterate o).filter p).map Prod.snd ↔
      ∃ n, s.namedEvents.get? n = some j ∧ p (n, j) = true := by
  simp only [List.mem_map, List.mem_filter, UMap.mem_iterate]
  constructor
  · rintro ⟨⟨n, j⟩, ⟨hmem, hp⟩, rfl⟩
    exact ⟨n, UMap.get?_of_mem hmem, hp⟩
  · rintro ⟨n, hget, hp⟩
    obtain ⟨⟨n', j'⟩, hmem, hn, hj⟩ := UMap.mem_of_get? hget
    simp only [id] at hn hj
    subst hn hj
    exact ⟨⟨n', j'⟩, ⟨hmem, hp⟩, rfl⟩

/-- **What clearing many does**: the entries that pass are gone, and their wrappers have no event any
    more; nothing else has changed. -/
theorem SoundBut.clearWhere (h : s.Sound) (o : IterOrder Bytes Nat) (p : Bytes × Nat → Bool) :
    (s.clearWhere o p).Sound ∧ (s.clearWhere o p).made = s.made ∧
      (∀ n j, (s.clearWhere o p).namedEvents.get? n = some j ↔
        s.namedEvents.get? n = some j ∧ p (n, j) = false) ∧
      ∀ j, ∃ r, ((s.wrapper j).released = true → r = true) ∧ (s.clearWhere o p).wrapper j =
        { s.wrapper j with
          armed := (s.wrapper j).armed &&
            !decide (j ∈ ((s.namedEvents.iterate o).filter p).map Prod.snd)
          pending := (s.wrapper j).pending &&
            !decide (j ∈ ((s.namedEvents.iterate o).filter p).map Prod.snd)
          released := r } := by
  set evs := ((s.namedEvents.iterate o).filter p).map Prod.snd with hevs
  set left : Timers := { s with namedEvents := s.namedEvents.filter fun e => !p e } with hleft
  have hget (n : Bytes) (j : Nat) :
      left.namedEvents.get? n = some j ↔ s.namedEvents.get? n = some j ∧ p (n, j) = false := by
    rw [hleft, UMap.get?_filter, UMap.get?_eq_some_iff]
    constructor
    · rintro ⟨⟨n', j'⟩, hmem, hn, hj, hp⟩
      simp only [id] at hn hj
      subst hn hj
      exact ⟨⟨_, hmem, rfl, rfl⟩, by simpa using hp⟩
    · rintro ⟨⟨⟨n', j'⟩, hmem, hn, hj⟩, hp⟩
      simp only [id] at hn hj
      subst hn hj
      exact ⟨_, hmem, rfl, rfl, by simpa using hp⟩
  have hsound : left.Sound := by
    have hheld (j : Nat) : left.Held j ↔ s.Held j := by
      rw [h.held_iff]
      refine ⟨?_, .inr⟩
      rintro (hmem | hrest)
      · obtain ⟨e, he, rfl⟩ := List.mem_map.1 hmem
        exact .inl (h.named e.1 e.2 (UMap.get?_of_mem (List.mem_filter.1 he).1)).2
      · exact hrest
    exact ⟨fun n j hn => h.named n j ((hget n j).1 hn).1, h.pending,
      fun j hj => h.held j ((hheld j).1 hj), fun j hm hr => by rw [hheld]; exact h.alive j hm hr⟩
  -- a wrapper that is cleared was under its own name
  have hnone : ∀ i ∈ evs, left.namedEvents.get? (left.wrapper i).name = none := by
    intro i hi
    obtain ⟨n, hn, hp⟩ := (mem_cleared o p i).1 hi
    rw [hleft]
    show left.namedEvents.get? (s.wrapper i).name = none
    rw [(h.named n i hn).1, Option.eq_none_iff_forall_ne_some]
    intro j hj
    obtain ⟨hj, hpj⟩ := (hget n j).1 hj
    obtain rfl : i = j := by simpa [hn] using hj
    simp [hp] at hpj
  obtain ⟨hfold, hsil⟩ := hsound.foldl_stop evs hnone
  have hnamesil : ∀ i ∈ evs,
      (left.silenced evs).namedEvents.get? ((left.silenced evs).wrapper i).name = none := by
    intro i hi
    have hsame : ((left.silenced evs).wrapper i).name = (left.wrapper i).name := by
      simp only [silenced]
      split <;> rfl
    rw [hsame]
    exact hnone i hi
  obtain ⟨hres, hreg, hmade, hw⟩ := hsil.foldl_release evs hnamesil
  have hrun : s.clearWhere o p = evs.foldl Timers.release (left.silenced evs) := by
    rw [Timers.clearWhere, ← hfold]
  rw [hrun]
  refine ⟨hres, hmade, fun n j => by rw [hreg]; exact hget n j, fun j => ?_⟩
  obtain ⟨r, hkept, hr⟩ := hw j
  have hwj : (left.silenced evs).wrapper j =
      if j ∈ evs then { s.wrapper j with armed := false, pending := false } else s.wrapper j := rfl
  refine ⟨r, fun hrel => hkept ?_, hr.trans ?_⟩
  · rw [hwj]
    split <;> exact hrel
  rw [hwj]
  by_cases hj : j ∈ evs <;> simp [hj]

end

end Timers

end LibEvmvc
