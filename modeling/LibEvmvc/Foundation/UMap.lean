import Mathlib.Data.List.Basic
import Mathlib.Data.List.Nodup
import Mathlib.Data.List.Perm.Basic

set_option autoImplicit false

/-! # Unordered maps

A hash map whose keys are compared through `canon`: the identity for plain keys, a case fold for
keys that ignore case. A map keeps the spelling of a key it was first given. The entries are kept in
the order they were added, which nothing but the model sees: code that walks a map sees them in the
order an `IterOrder` picks. -/

namespace LibEvmvc

variable {K C V : Type} [DecidableEq C]

/-- A map from `K` to `V` with at most one entry per canonical key. -/
structure UMap (canon : K → C) (V : Type) where
  entries : List (K × V)
  nodup : (entries.map fun e => canon e.1).Nodup

/-- The order in which a hash map hands out its entries: some permutation of them. -/
structure IterOrder (K V : Type) where
  order : List (K × V) → List (K × V)
  perm : ∀ l, (order l).Perm l

/-- The order in which the entries were added. -/
def IterOrder.insertion (K V : Type) : IterOrder K V := ⟨id, fun _ => List.Perm.refl _⟩

namespace UMap

variable {canon : K → C}

def empty (canon : K → C) (V : Type) : UMap canon V := ⟨[], List.nodup_nil⟩

/-- `find`. -/
def get? (m : UMap canon V) (k : K) : Option V :=
  (m.entries.find? fun e => canon e.1 = canon k).map Prod.snd

/-- `emplace`: a key that is there already keeps its value. -/
def emplace (m : UMap canon V) (k : K) (v : V) : UMap canon V :=
  if h : (m.get? k).isSome then m
  else
    { entries := m.entries ++ [(k, v)]
      nodup := by
        rw [List.map_append, List.nodup_append]
        refine ⟨m.nodup, by simp, ?_⟩
        rintro c hc d hd rfl
        obtain ⟨e, he, rfl⟩ := List.mem_map.1 hc
        have hkey : canon e.1 = canon k := by simpa using hd
        simp only [get?, Option.isSome_map, List.find?_isSome, decide_eq_true_eq] at h
        exact h ⟨e, he, hkey⟩ }

/-- Change the value under a key, if it is there. -/
def modify (m : UMap canon V) (k : K) (f : V → V) : UMap canon V :=
  { entries := m.entries.map fun e => if canon e.1 = canon k then (e.1, f e.2) else e
    nodup := by
      have hkeys : (m.entries.map fun e => if canon e.1 = canon k then (e.1, f e.2) else e).map
          (fun e => canon e.1) = m.entries.map fun e => canon e.1 := by
        rw [List.map_map]
        refine List.map_congr_left fun e _ => ?_
        simp only [Function.comp]
        split <;> rfl
      rw [hkeys]
      exact m.nodup }

/-- `erase`. -/
def erase (m : UMap canon V) (k : K) : UMap canon V :=
  { entries := m.entries.filter fun e => canon e.1 ≠ canon k
    nodup := m.nodup.sublist (List.filter_sublist.map _) }

/-- `operator[]` and an assignment. -/
def assign (m : UMap canon V) (k : K) (v : V) : UMap canon V := (m.emplace k v).modify k fun _ => v

/-- The entries that pass a test. -/
def filter (m : UMap canon V) (p : K × V → Bool) : UMap canon V :=
  { entries := m.entries.filter p
    nodup := m.nodup.sublist (List.filter_sublist.map _) }

/-- The entries as a walk over the map meets them. -/
def iterate (m : UMap canon V) (o : IterOrder K V) : List (K × V) := o.order m.entries

@[simp] theorem get?_empty (k : K) : (empty canon V).get? k = none := rfl

theorem mem_of_get? {m : UMap canon V} {k : K} {v : V} (h : m.get? k = some v) :
    ∃ e ∈ m.entries, canon e.1 = canon k ∧ e.2 = v := by
  obtain ⟨e, he, rfl⟩ := Option.map_eq_some_iff.1 h
  exact ⟨e, List.mem_of_find?_eq_some he, by simpa using List.find?_some he, rfl⟩

/-- An entry is what looking its key up finds. -/
theorem get?_of_mem {m : UMap canon V} {e : K × V} (h : e ∈ m.entries) :
    m.get? e.1 = some e.2 := by
  obtain ⟨entries, hnodup⟩ := m
  simp only [get?] at *
  induction entries with
  | nil => simp at h
  | cons x entries ih =>
    rw [List.map_cons, List.nodup_cons] at hnodup
    rcases List.mem_cons.1 h with rfl | hmem
    · simp
    · have hne : canon x.1 ≠ canon e.1 := by
        intro he
        exact hnodup.1 (he ▸ List.mem_map_of_mem (f := fun e => canon e.1) hmem)
      rw [List.find?_cons_of_neg (by simpa using hne)]
      exact ih hnodup.2 hmem

theorem get?_congr (m : UMap canon V) {k k' : K} (h : canon k = canon k') :
    m.get? k = m.get? k' := by
  simp only [get?, h]

theorem get?_emplace (m : UMap canon V) (k k' : K) (v : V) :
    (m.emplace k v).get? k' =
      if canon k' = canon k then some ((m.get? k).getD v) else m.get? k' := by
  unfold emplace
  split
  · next h =>
    obtain ⟨u, hu⟩ := Option.isSome_iff_exists.1 h
    split
    · next hk => rw [m.get?_congr hk, hu, Option.getD_some]
    · rfl
  · next h =>
    have hnone : m.get? k = none := by simpa using h
    split
    · next hk =>
      have hfind : m.entries.find? (fun e => canon e.1 = canon k) = none := by
        simpa only [get?, Option.map_eq_none_iff] using hnone
      simp [get?, List.find?_append, hfind, hk]
    · next hk =>
      have hlast : ¬ canon k = canon k' := fun he => hk he.symm
      simp [get?, List.find?_append, hlast]

theorem get?_modify (m : UMap canon V) (k k' : K) (f : V → V) :
    (m.modify k f).get? k' =
      if canon k' = canon k then (m.get? k').map f else m.get? k' := by
  obtain ⟨entries, hnodup⟩ := m
  simp only [modify, get?]
  clear hnodup
  induction entries with
  | nil => simp
  | cons e entries ih =>
    by_cases he : canon e.1 = canon k'
    · by_cases hk : canon k' = canon k
      · simp [he, hk]
      · have hek : ¬ canon e.1 = canon k := fun h => hk (he.symm.trans h)
        simp [he, hk]
    · rw [List.map_cons, List.find?_cons_of_neg, List.find?_cons_of_neg (by simpa using he)]
      · exact ih
      · split <;> simpa using he

theorem get?_assign (m : UMap canon V) (k k' : K) (v : V) :
    (m.assign k v).get? k' = if canon k' = canon k then some v else m.get? k' := by
  rw [assign, get?_modify, get?_emplace]
  split <;> rfl

theorem get?_erase (m : UMap canon V) (k k' : K) :
    (m.erase k).get? k' = if canon k' = canon k then none else m.get? k' := by
  simp only [erase, get?, List.find?_filter]
  by_cases hk : canon k' = canon k
  · simp [hk]
  · rw [if_neg hk]
    congr 2
    funext e
    by_cases he : canon e.1 = canon k'
    · simp [he, hk]
    · simp [he]

theorem mem_emplace {m : UMap canon V} {k : K} {v : V} {e : K × V} :
    e ∈ (m.emplace k v).entries ↔ e ∈ m.entries ∨ (m.get? k = none ∧ e = (k, v)) := by
  unfold emplace
  split
  · next h =>
    have hsome : m.get? k ≠ none := Option.isSome_iff_ne_none.1 h
    simp [hsome]
  · next h =>
    have hnone : m.get? k = none := by simpa using h
    simp [hnone]

theorem key_of_mem_modify {m : UMap canon V} {k : K} {f : V → V} {e : K × V}
    (h : e ∈ (m.modify k f).entries) : ∃ e' ∈ m.entries, e'.1 = e.1 := by
  obtain ⟨e', he', rfl⟩ := List.mem_map.1 h
  refine ⟨e', he', ?_⟩
  split <;> rfl

theorem mem_of_mem_erase {m : UMap canon V} {k : K} {e : K × V}
    (h : e ∈ (m.erase k).entries) : e ∈ m.entries :=
  List.mem_of_mem_filter h

theorem erase_eq_self {m : UMap canon V} {k : K} (h : m.get? k = none) : m.erase k = m := by
  obtain ⟨entries, hnodup⟩ := m
  have hfind : entries.find? (fun e => canon e.1 = canon k) = none := by
    simpa only [get?, Option.map_eq_none_iff] using h
  simp only [erase, UMap.mk.injEq]
  refine List.filter_eq_self.2 fun e he => ?_
  simpa using List.find?_eq_none.1 hfind e he

theorem get?_eq_some_iff {m : UMap canon V} {k : K} {v : V} :
    m.get? k = some v ↔ ∃ e ∈ m.entries, canon e.1 = canon k ∧ e.2 = v := by
  constructor
  · exact mem_of_get?
  · rintro ⟨e, he, hk, rfl⟩
    rw [← m.get?_congr hk]
    exact get?_of_mem he

/-- A key is found after a filter if its entry passes. -/
theorem get?_filter {m : UMap canon V} {p : K × V → Bool} {k : K} {v : V} :
    (m.filter p).get? k = some v ↔
      ∃ e ∈ m.entries, canon e.1 = canon k ∧ e.2 = v ∧ p e = true := by
  rw [get?_eq_some_iff]
  constructor
  · rintro ⟨e, he, hk, hv⟩
    obtain ⟨hmem, hp⟩ := List.mem_filter.1 he
    exact ⟨e, hmem, hk, hv, hp⟩
  · rintro ⟨e, he, hk, hv, hp⟩
    exact ⟨e, List.mem_filter.2 ⟨he, hp⟩, hk, hv⟩

omit [DecidableEq C] in
/-- Walking a map meets its entries, in whatever order. -/
theorem mem_iterate (m : UMap canon V) (o : IterOrder K V) (e : K × V) :
    e ∈ m.iterate o ↔ e ∈ m.entries :=
  (o.perm m.entries).mem_iff

end UMap

end LibEvmvc
