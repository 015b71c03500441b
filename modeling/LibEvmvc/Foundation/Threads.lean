import Mathlib.Data.List.Nodup

set_option autoImplicit false

/-! # Lists threaded by links

The order of the items of a list is stored a second time in links: each item has one to the item behind it
and one to the item in front of it (`Threaded`). What takes an item out of the list, or puts one in, sets at
most four links. -/

namespace LibEvmvc

variable {A : Type} {next prev next' prev' : A → Option A}

/-- The links of each item of the list are to its neighbours. -/
def Threaded (next prev : A → Option A) (l : List A) : Prop :=
  ∀ x a y, l = x ++ a :: y → next a = y.head? ∧ prev a = x.getLast?

theorem threaded_nil : Threaded next prev [] := by
  intro x a y h
  exact absurd h.symm (List.append_ne_nil_of_right_ne_nil x (List.cons_ne_nil a y))

theorem Threaded.congr {l : List A} (h : Threaded next prev l) (hnext : ∀ a ∈ l, next' a = next a)
    (hprev : ∀ a ∈ l, prev' a = prev a) : Threaded next' prev' l := by
  intro x a y hl
  have hmem : a ∈ l := hl ▸ List.mem_append_right x List.mem_cons_self
  rw [hnext a hmem, hprev a hmem]
  exact h x a y hl

/-- An item of the first or of the second part. -/
theorem append_eq_cases {x y u v : List A} {a : A} (h : x ++ y = u ++ a :: v) :
    (∃ w, x = u ++ a :: w ∧ v = w ++ y) ∨ ∃ w, u = x ++ w ∧ y = w ++ a :: v := by
  rcases List.append_eq_append_iff.1 h with ⟨w, hu, hy⟩ | ⟨w, hx, hv⟩
  · exact .inr ⟨w, hu, hy⟩
  · cases w with
    | nil =>
      rw [List.append_nil] at hx
      exact .inr ⟨[], by rw [hx, List.append_nil], hv.symm⟩
    | cons b w =>
      obtain ⟨rfl, rfl⟩ := List.cons.inj hv
      exact .inl ⟨w, hx, rfl⟩

/-- The last item of a list is none with others behind it. -/
theorem getLast?_ne_of_nodup {u w : List A} {m : A} (h : (u ++ m :: w).Nodup) (hw : w ≠ []) :
    (u ++ m :: w).getLast? ≠ some m := by
  obtain ⟨b, w, rfl⟩ := List.exists_cons_of_ne_nil hw
  rw [List.getLast?_append_cons, List.getLast?_cons_cons]
  intro hlast
  exact (List.nodup_cons.1 (List.nodup_append'.1 h).2.1).1 (List.mem_of_getLast? hlast)

/-- The first item of a list is none with others in front of it. -/
theorem head?_ne_of_nodup {u w : List A} {m : A} (h : (u ++ m :: w).Nodup) (hu : u ≠ []) :
    (u ++ m :: w).head? ≠ some m := by
  obtain ⟨b, u, rfl⟩ := List.exists_cons_of_ne_nil hu
  intro hfirst
  obtain rfl : b = m := Option.some.inj hfirst
  exact (List.nodup_cons.1 h).1 (List.mem_append_right u List.mem_cons_self)

/-! ## Taking an item out -/

section Surgery

variable {x y : List A} {a : A}

/-- Only the links of the neighbours change. -/
theorem Threaded.remove [DecidableEq A] (h : Threaded next prev (x ++ a :: y)) (hnodup : (x ++ a :: y).Nodup)
    (hnext : ∀ m ∈ x ++ y, next' m = if prev a = some m then next a else next m)
    (hprev : ∀ m ∈ x ++ y, prev' m = if next a = some m then prev a else prev m) :
    Threaded next' prev' (x ++ y) := by
  obtain ⟨hanext, haprev⟩ := h x a y rfl
  obtain ⟨hx, hay, hapart⟩ := List.nodup_append'.1 hnodup
  have hy := (List.nodup_cons.1 hay).2
  intro u m v hsplit
  have hmem : m ∈ x ++ y := hsplit ▸ List.mem_append_right u List.mem_cons_self
  rw [hnext m hmem, hprev m hmem, hanext, haprev]
  rcases append_eq_cases hsplit with ⟨w, rfl, rfl⟩ | ⟨w, rfl, rfl⟩
  · -- in front of the item
    obtain ⟨hmnext, hmprev⟩ := h u m (w ++ a :: y) (by rw [List.append_assoc, List.cons_append])
    have hfirst : y.head? ≠ some m := by
      intro hm
      exact hapart (List.mem_append_right u List.mem_cons_self) (List.mem_cons_of_mem a (List.mem_of_head? hm))
    rw [if_neg hfirst, hmnext, hmprev]
    refine ⟨?_, rfl⟩
    cases w with
    | nil =>
      rw [List.getLast?_concat, if_pos rfl]
      rfl
    | cons b w =>
      rw [if_neg (getLast?_ne_of_nodup hx (List.cons_ne_nil b w))]
      rfl
  · -- behind it
    obtain ⟨hmnext, hmprev⟩ := h (x ++ a :: w) m v (by rw [List.append_assoc, List.cons_append])
    have hlast : x.getLast? ≠ some m := by
      intro hm
      exact hapart (List.mem_of_getLast? hm)
        (List.mem_cons_of_mem a (List.mem_append_right w List.mem_cons_self))
    rw [if_neg hlast, hmnext, hmprev]
    refine ⟨rfl, ?_⟩
    cases w with
    | nil =>
      rw [List.nil_append, List.head?_cons, if_pos rfl, List.append_nil]
    | cons b w =>
      rw [if_neg (head?_ne_of_nodup hy (List.cons_ne_nil b w)), List.getLast?_append_cons,
        List.getLast?_cons_cons, List.getLast?_append_cons]

/-! ## Putting an item in -/

/-- Only the links of the item and of its neighbours are set. -/
theorem Threaded.insert [DecidableEq A] (h : Threaded next prev (x ++ y)) (hnodup : (x ++ a :: y).Nodup)
    (hanext : next' a = y.head?) (haprev : prev' a = x.getLast?)
    (hnext : ∀ m ∈ x ++ y, next' m = if x.getLast? = some m then some a else next m)
    (hprev : ∀ m ∈ x ++ y, prev' m = if y.head? = some m then some a else prev m) :
    Threaded next' prev' (x ++ a :: y) := by
  obtain ⟨hx, hay, hapart⟩ := List.nodup_append'.1 hnodup
  have hy := (List.nodup_cons.1 hay).2
  intro u m v hsplit
  rcases append_eq_cases hsplit with ⟨w, rfl, rfl⟩ | ⟨w, rfl, htail⟩
  · -- in front of the item
    have hmem : m ∈ (u ++ m :: w) ++ y := List.mem_append_left y (List.mem_append_right u List.mem_cons_self)
    obtain ⟨hmnext, hmprev⟩ := h u m (w ++ y) (by rw [List.append_assoc, List.cons_append])
    have hfirst : y.head? ≠ some m := by
      intro hm
      exact hapart (List.mem_append_right u List.mem_cons_self) (List.mem_cons_of_mem a (List.mem_of_head? hm))
    rw [hnext m hmem, hprev m hmem, if_neg hfirst, hmnext, hmprev]
    refine ⟨?_, rfl⟩
    cases w with
    | nil =>
      rw [List.getLast?_concat, if_pos rfl]
      rfl
    | cons b w =>
      rw [if_neg (getLast?_ne_of_nodup hx (List.cons_ne_nil b w))]
      rfl
  · cases w with
    | nil =>
      obtain ⟨rfl, rfl⟩ := List.cons.inj htail
      rw [List.append_nil]
      exact ⟨hanext, haprev⟩
    | cons b w =>
      -- behind it
      obtain rfl : a = b := (List.cons.inj htail).1
      obtain rfl : y = w ++ m :: v := (List.cons.inj htail).2
      have hmem : m ∈ x ++ (w ++ m :: v) :=
        List.mem_append_right x (List.mem_append_right w List.mem_cons_self)
      obtain ⟨hmnext, hmprev⟩ := h (x ++ w) m v (by rw [List.append_assoc])
      have hlast : x.getLast? ≠ some m := by
        intro hm
        exact hapart (List.mem_of_getLast? hm)
          (List.mem_cons_of_mem a (List.mem_append_right w List.mem_cons_self))
      rw [hnext m hmem, hprev m hmem, if_neg hlast, hmnext, hmprev]
      refine ⟨rfl, ?_⟩
      cases w with
      | nil =>
        rw [List.nil_append, List.head?_cons, if_pos rfl, List.getLast?_concat]
      | cons c w =>
        rw [if_neg (head?_ne_of_nodup hy (List.cons_ne_nil c w)), List.getLast?_append_cons,
          List.getLast?_append_cons, List.getLast?_cons_cons]

end Surgery

/-! ## Going along the links

The loops take one round for each item they pass, and `none` if the rounds are used up. -/

/-- `f` comes to a result if it may take rounds enough. -/
def ComesTo {B : Type} (f : Nat → Option B) (b : B) : Prop := ∃ rounds, ∀ n, rounds ≤ n → f n = some b

theorem ComesTo.unique {B : Type} {f : Nat → Option B} {b b' : B} (h : ComesTo f b) (h' : ComesTo f b') :
    b = b' := by
  obtain ⟨n, hn⟩ := h
  obtain ⟨n', hn'⟩ := h'
  exact Option.some.inj ((hn (max n n') (Nat.le_max_left n n')).symm.trans (hn' _ (Nat.le_max_right n n')))

theorem ComesTo.iff {B : Type} {f : Nat → Option B} {b b' : B} (h : ComesTo f b) : ComesTo f b' ↔ b = b' := by
  constructor
  · exact h.unique
  · rintro rfl
    exact h

/-- On to the next item, until one is found or there is none. -/
def seek (step : A → Option A) (found : A → Bool) : Nat → Option A → Option (Option A)
  | 0, _ => none
  | _ + 1, none => some none
  | n + 1, some a => if found a then some (some a) else seek step found n (step a)

/-- On to the last item there is. -/
def goFar (step : A → Option A) : Nat → A → Option A
  | 0, _ => none
  | n + 1, a =>
    match step a with
    | none => some a
    | some b => goFar step n b

theorem Threaded.reverse {l : List A} (h : Threaded next prev l) : Threaded prev next l.reverse := by
  intro x a y hl
  have hl' : l = y.reverse ++ a :: x.reverse := by
    rw [← l.reverse_reverse, hl, List.reverse_append, List.reverse_cons, List.append_assoc,
      List.singleton_append]
  obtain ⟨hnext, hprev⟩ := h y.reverse a x.reverse hl'
  rw [List.getLast?_reverse] at hprev
  rw [List.head?_reverse] at hnext
  exact ⟨hprev, hnext⟩

section Walk

variable {x y : List A} {a : A}

theorem Threaded.seek_find (h : Threaded next prev (x ++ y)) (found : A → Bool) :
    ComesTo (fun n => seek next found n y.head?) (y.find? found) := by
  refine ⟨y.length + 1, ?_⟩
  induction y generalizing x with
  | nil =>
    intro n hn
    obtain ⟨n, rfl⟩ := Nat.exists_eq_add_of_le' hn
    rfl
  | cons b y ih =>
    intro n hn
    obtain ⟨n, rfl⟩ := Nat.exists_eq_add_of_le' hn
    have hnext := (h x b y rfl).1
    have hrest : Threaded next prev ((x ++ [b]) ++ y) := by rwa [List.append_assoc, List.singleton_append]
    have hloop : seek next found (n + (y.length + 1)) y.head? = some (y.find? found) :=
      ih hrest _ (Nat.le_add_left _ _)
    have hround : seek next found (n + (y.length + 1) + 1) (some b)
        = if found b then some (some b) else seek next found (n + (y.length + 1)) (next b) := rfl
    rw [List.head?_cons, List.find?_cons]
    refine hround.trans ?_
    rw [hnext, hloop]
    cases found b with
    | true => rfl
    | false => rfl

theorem Threaded.goFar_last (h : Threaded next prev (x ++ a :: y)) :
    ComesTo (fun n => goFar next n a) (y.getLast?.getD a) := by
  refine ⟨y.length + 1, ?_⟩
  induction y generalizing x a with
  | nil =>
    intro n hn
    obtain ⟨n, rfl⟩ := Nat.exists_eq_add_of_le' hn
    have hnext : next a = none := (h x a [] rfl).1
    show goFar next (n + 0 + 1) a = some a
    rw [goFar, hnext]
  | cons b y ih =>
    intro n hn
    obtain ⟨n, rfl⟩ := Nat.exists_eq_add_of_le' hn
    have hnext : next a = some b := (h x a (b :: y) rfl).1
    have hrest : Threaded next prev ((x ++ [a]) ++ b :: y) := by rwa [List.append_assoc, List.singleton_append]
    show goFar next (n + (y.length + 1) + 1) a = _
    rw [goFar, hnext]
    refine (ih hrest (n + (y.length + 1)) (Nat.le_add_left _ _)).trans ?_
    rw [List.getLast?_cons]
    rfl

end Walk

end LibEvmvc
