import Mathlib.Data.List.Perm.Basic

set_option autoImplicit false

/-! # Searching in tiers

A search that goes through a list of tiers, and for each of them through a list of items, and takes the
first item that is of the tier. The items often come in an order that nobody fixes, such as the order
of a hash map: what is found does not depend on it exactly if the items of the first tier that has any
are worth the same (`searchTiers_perm_iff`). -/

namespace LibEvmvc

variable {T A B : Type}

/-- What the first item of the first tier that has one is worth. -/
def searchTiers (p : T → A → Prop) [DecidableRel p] (f : A → B) (as : List A) (ts : List T) : Option B :=
  ts.findSome? fun t => as.findSome? fun a => if p t a then some (f a) else none

/-- In the first tier that has an item, all items are worth the same. -/
def OneInFirst (p : T → A → Prop) (f : A → B) (as : List A) (ts : List T) : Prop :=
  ∀ above t below, ts = above ++ t :: below → (∀ u ∈ above, ∀ a ∈ as, ¬ p u a) →
    ∀ a ∈ as, ∀ b ∈ as, p t a → p t b → f a = f b

variable {p : T → A → Prop} [DecidableRel p] {f : A → B} {as : List A}

theorem searchTiers_nil : searchTiers p f as [] = none := rfl

theorem findSome?_tier_none {t : T} (h : ∀ a ∈ as, ¬ p t a) :
    (as.findSome? fun a => if p t a then some (f a) else none) = none := by
  rw [List.findSome?_eq_none_iff]
  exact fun a ha => if_neg (h a ha)

theorem findSome?_tier_some {t : T} {b : B}
    (h : (as.findSome? fun a => if p t a then some (f a) else none) = some b) :
    ∃ a ∈ as, p t a ∧ f a = b := by
  obtain ⟨a, ha, hval⟩ := List.exists_of_findSome?_eq_some h
  split at hval
  · next hp => exact ⟨a, ha, hp, Option.some.inj hval⟩
  · cases hval

/-- A tier without items is passed over. -/
theorem searchTiers_cons_none {t : T} {ts : List T} (h : ∀ a ∈ as, ¬ p t a) :
    searchTiers p f as (t :: ts) = searchTiers p f as ts := by
  rw [searchTiers, List.findSome?_cons, findSome?_tier_none h]
  rfl

/-- The tier that has items, the first of which is `a`. -/
theorem searchTiers_cons_head {t : T} {ts : List T} {a : A} (h : p t a) :
    searchTiers p f (a :: as) (t :: ts) = some (f a) := by
  rw [searchTiers, List.findSome?_cons, List.findSome?_cons, if_pos h]

variable (f) in
/-- Where a tier has items, one of them is found. -/
theorem searchTiers_cons_some {t : T} (ts : List T) {a : A} (ha : a ∈ as) (hp : p t a) :
    ∃ b ∈ as, p t b ∧ searchTiers p f as (t :: ts) = some (f b) := by
  cases hfind : as.findSome? fun a => if p t a then some (f a) else none with
  | none =>
    have hnone := List.findSome?_eq_none_iff.1 hfind a ha
    rw [if_pos hp] at hnone
    cases hnone
  | some v =>
    obtain ⟨b, hb, hpb, rfl⟩ := findSome?_tier_some hfind
    exact ⟨b, hb, hpb, by rw [searchTiers, List.findSome?_cons, hfind]⟩

theorem searchTiers_eq_none {ts : List T} :
    searchTiers p f as ts = none ↔ ∀ t ∈ ts, ∀ a ∈ as, ¬ p t a := by
  induction ts with
  | nil => simp [searchTiers_nil]
  | cons t ts ih =>
    by_cases h : ∀ a ∈ as, ¬ p t a
    · rw [searchTiers_cons_none h, ih, List.forall_mem_cons]
      exact (and_iff_right h).symm
    · push Not at h
      obtain ⟨a, ha, hp⟩ := h
      obtain ⟨b, -, -, hsome⟩ := searchTiers_cons_some f ts ha hp
      rw [hsome]
      exact ⟨fun h => (by cases h), fun hall => absurd hp (hall t List.mem_cons_self a ha)⟩

omit [DecidableRel p] in
theorem oneInFirst_cons_none {t : T} {ts : List T} (h : ∀ a ∈ as, ¬ p t a) :
    OneInFirst p f as (t :: ts) ↔ OneInFirst p f as ts := by
  constructor
  · intro hone above u below hts habove
    refine hone (t :: above) u below (by rw [hts]; rfl) ?_
    rw [List.forall_mem_cons]
    exact ⟨h, habove⟩
  · intro hone above u below hts habove
    cases above with
    | nil =>
      obtain ⟨rfl, -⟩ := List.cons.inj hts
      exact fun a ha _ _ hp => absurd hp (h a ha)
    | cons u' above =>
      exact hone above u below (List.cons.inj hts).2 fun v hv => habove v (List.mem_cons_of_mem _ hv)

omit [DecidableRel p] in
theorem oneInFirst_cons_some {t : T} {ts : List T} {a : A} (ha : a ∈ as) (hp : p t a) :
    OneInFirst p f as (t :: ts) ↔ ∀ b ∈ as, p t b → f b = f a := by
  constructor
  · exact fun hone b hb hpb => hone [] t ts rfl (by simp) b hb a ha hpb hp
  · intro hall above u below hts habove b hb c hc hpb hpc
    cases above with
    | nil =>
      obtain ⟨rfl, -⟩ := List.cons.inj hts
      rw [hall b hb hpb, hall c hc hpc]
    | cons t' above =>
      obtain ⟨rfl, -⟩ := List.cons.inj hts
      exact absurd hp (habove t List.mem_cons_self a ha)

/-- **What is found in every order of the items is `spec`, a choice of one item of the first tier that
has any, exactly if there all of them are worth the same.** -/
theorem searchTiers_perm_iff {spec : T → Option B} (ts : List T)
    (hnone : ∀ t, spec t = none ↔ ∀ a ∈ as, ¬ p t a)
    (hsome : ∀ t b, spec t = some b → ∃ a ∈ as, p t a ∧ f a = b) :
    (∀ as', as'.Perm as → searchTiers p f as' ts = ts.findSome? spec) ↔ OneInFirst p f as ts := by
  induction ts with
  | nil =>
    refine ⟨fun _ above t below h => ?_, fun _ _ _ => rfl⟩
    cases above with
    | nil => cases h
    | cons => cases h
  | cons t ts ih =>
    by_cases h : ∀ a ∈ as, ¬ p t a
    · rw [oneInFirst_cons_none h, ← ih]
      refine forall₂_congr fun as' hperm => ?_
      rw [searchTiers_cons_none fun a ha => h a (hperm.mem_iff.1 ha), List.findSome?_cons, (hnone t).2 h]
    · obtain ⟨b, hb⟩ : ∃ b, spec t = some b := by
        cases hspec : spec t with
        | none => exact absurd ((hnone t).1 hspec) h
        | some b => exact ⟨b, rfl⟩
      obtain ⟨a, ha, hp, rfl⟩ := hsome t b hb
      rw [oneInFirst_cons_some ha hp, List.findSome?_cons, hb]
      constructor
      · -- an order in which the item comes first
        intro hall c hc hpc
        obtain ⟨l, r, rfl⟩ := List.append_of_mem hc
        have hfound := hall (c :: (l ++ r)) List.perm_middle.symm
        rw [searchTiers_cons_head hpc] at hfound
        exact Option.some.inj hfound
      · intro hall as' hperm
        obtain ⟨c, hc, hpc, hfound⟩ :=
          searchTiers_cons_some f ts (hperm.mem_iff.2 ha) hp
        rw [hfound, hall c (hperm.mem_iff.1 hc) hpc]

/-- The tiers of two lists, one list after the other. -/
theorem searchTiers_append (ts us : List T) :
    searchTiers p f as (ts ++ us) = (searchTiers p f as ts).or (searchTiers p f as us) :=
  List.findSome?_append

theorem searchTiers_some {ts : List T} {b : B} (h : searchTiers p f as ts = some b) :
    ∃ t ∈ ts, ∃ a ∈ as, p t a ∧ f a = b := by
  obtain ⟨t, ht, hval⟩ := List.exists_of_findSome?_eq_some h
  exact ⟨t, ht, findSome?_tier_some hval⟩

/-- In one tier, an item is found if it is the only one. -/
theorem searchTiers_single {t : T} {a : A} (ha : a ∈ as) (hp : p t a) (hone : ∀ b ∈ as, p t b → b = a) :
    searchTiers p f as [t] = some (f a) := by
  obtain ⟨b, hb, hpb, hfound⟩ := searchTiers_cons_some f [] ha hp
  rw [hfound, hone b hb hpb]

/-- Only what the tests say of the tiers and the items counts. -/
theorem searchTiers_congr {q : T → A → Prop} [DecidableRel q] {ts : List T}
    (h : ∀ t ∈ ts, ∀ a ∈ as, p t a ↔ q t a) : searchTiers p f as ts = searchTiers q f as ts := by
  induction ts with
  | nil => rfl
  | cons t ts ih =>
    rw [List.forall_mem_cons] at h
    have htier : (as.findSome? fun a => if p t a then some (f a) else none)
        = as.findSome? fun a => if q t a then some (f a) else none := by
      have hhead := h.1
      clear h ih
      induction as with
      | nil => rfl
      | cons a as ih =>
        rw [List.forall_mem_cons] at hhead
        rw [List.findSome?_cons, List.findSome?_cons, ih hhead.2, if_congr hhead.1 rfl rfl]
    have hrest := ih h.2
    unfold searchTiers at hrest ⊢
    rw [List.findSome?_cons, List.findSome?_cons, htier, hrest]

section Map

variable {C D : Type} {q : T → C → Prop} [DecidableRel q] {g : C → D} {m : A → C} {n : B → D}

theorem findSome?_tier_map {t : T} (hq : ∀ a ∈ as, q t (m a) ↔ p t a) (hg : ∀ a, g (m a) = n (f a)) :
    ((as.map m).findSome? fun c => if q t c then some (g c) else none)
      = (as.findSome? fun a => if p t a then some (f a) else none).map n := by
  induction as with
  | nil => rfl
  | cons a as ih =>
    rw [List.forall_mem_cons] at hq
    rw [List.map_cons, List.findSome?_cons, List.findSome?_cons]
    by_cases hp : p t a
    · rw [if_pos (hq.1.2 hp), if_pos hp, hg]
      rfl
    · rw [if_neg fun hqa => hp (hq.1.1 hqa), if_neg hp]
      exact ih hq.2

/-- Searching what is made of the items. -/
theorem searchTiers_map {ts : List T} (hq : ∀ t ∈ ts, ∀ a ∈ as, q t (m a) ↔ p t a)
    (hg : ∀ a, g (m a) = n (f a)) :
    searchTiers q g (as.map m) ts = (searchTiers p f as ts).map n := by
  induction ts with
  | nil => rfl
  | cons t ts ih =>
    rw [List.forall_mem_cons] at hq
    have hrest := ih hq.2
    unfold searchTiers at hrest ⊢
    rw [List.findSome?_cons, List.findSome?_cons, findSome?_tier_map hq.1 hg, hrest]
    cases as.findSome? fun a => if p t a then some (f a) else none with
    | none => rfl
    | some b => rfl

end Map

/-- Where each tier has one item at most, the order of the items does not matter. -/
theorem searchTiers_perm {as' : List A} (hperm : as'.Perm as) {ts : List T}
    (hone : ∀ t ∈ ts, ∀ a ∈ as, ∀ b ∈ as, p t a → p t b → a = b) :
    searchTiers p f as' ts = searchTiers p f as ts := by
  induction ts with
  | nil => rfl
  | cons t ts ih =>
    rw [List.forall_mem_cons] at hone
    by_cases h : ∀ a ∈ as, ¬ p t a
    · rw [searchTiers_cons_none h, searchTiers_cons_none fun a ha => h a (hperm.mem_iff.1 ha), ih hone.2]
    · push Not at h
      obtain ⟨a, ha, hp⟩ := h
      obtain ⟨b, hb, hpb, hfound⟩ := searchTiers_cons_some f ts ha hp
      obtain ⟨b', hb', hpb', hfound'⟩ :=
        searchTiers_cons_some f ts (hperm.mem_iff.2 ha) hp
      rw [hfound, hfound', hone.1 b' (hperm.mem_iff.1 hb') b hb hpb' hpb]

end LibEvmvc
