import Mathlib.Data.List.Rotate

set_option autoImplicit false

/-! # Taking turns

Places stand in a circle, and some of them are open. A turn goes to the first open place after the one
that had the turn before. The open places, in the order in which they come next (`waiting`), are
rotated by each turn (`waiting_turn`), and who takes turns in that way takes them evenly
(`count_turns`). -/

namespace LibEvmvc

/-! ## The circle -/

/-- The place after `i`. After the last of the `n` places comes the first. -/
def nextPlace (n i : Nat) : Nat := if n ≤ i + 1 then 0 else i + 1

/-- The places from `i` on, once around. -/
def circle (n i : Nat) : List Nat := (List.range n).rotate i

variable {n i j : Nat} {pre post : List Nat}

theorem nextPlace_lt (hn : 0 < n) (i : Nat) : nextPlace n i < n := by
  rw [nextPlace]
  split <;> omega

@[simp] theorem mem_circle : j ∈ circle n i ↔ j < n := by simp [circle]

theorem nodup_circle (n i : Nat) : (circle n i).Nodup := List.nodup_rotate.2 List.nodup_range

theorem head?_circle (hi : i < n) : (circle n i).head? = some i := by
  rw [circle, List.head?_rotate (by simpa using hi), List.getElem?_range hi]

theorem circle_mod (n i : Nat) : circle n (i % n) = circle n i := by
  have h := List.rotate_mod (List.range n) i
  rwa [List.length_range] at h

theorem circle_nextPlace (hi : i < n) : circle n (nextPlace n i) = circle n (i + 1) := by
  rw [nextPlace]
  split
  · next hle =>
    have hlast : i + 1 = n := by omega
    rw [← circle_mod n (i + 1), hlast, Nat.mod_self]
  · rfl

/-- A circle that is cut behind one of its places begins with the next one. -/
theorem circle_split (h : circle n i = pre ++ j :: post) :
    circle n (nextPlace n j) = post ++ (pre ++ [j]) := by
  have hj : j < n := by
    rw [← mem_circle (i := i), h]
    simp
  have hlen : pre.length < (circle n i).length := by rw [h]; simp
  have hplace : j = (pre.length + i) % n := by
    have hget : (circle n i)[pre.length]? = some j := by rw [h]; simp
    have hpre : pre.length < (List.range n).length := by simpa [circle] using hlen
    have hmod : (pre.length + i) % n < n := Nat.mod_lt _ (by omega)
    rw [circle, List.getElem?_rotate hpre, List.length_range, List.getElem?_range hmod] at hget
    exact (Option.some.inj hget).symm
  have hturn : circle n (j + 1) = circle n (i + (pre.length + 1)) := by
    rw [← circle_mod n (j + 1), ← circle_mod n (i + (pre.length + 1)), hplace, Nat.mod_add_mod]
    congr 2
    omega
  have hcut : circle n i = (pre ++ [j]) ++ post := by rw [h]; simp
  calc circle n (nextPlace n j) = circle n (i + (pre.length + 1)) := by rw [circle_nextPlace hj, hturn]
    _ = (circle n i).rotate (pre ++ [j]).length := by simp [circle, List.rotate_rotate]
    _ = post ++ (pre ++ [j]) := by rw [hcut, List.rotate_append_length_eq]

theorem nextPlace_inner {k : Nat} (h : circle n i = pre ++ j :: k :: post) : nextPlace n j = k := by
  have hj : j < n := by
    rw [← mem_circle (i := i), h]
    simp
  have hhead := head?_circle (nextPlace_lt (Nat.zero_lt_of_lt hj) j)
  rw [circle_split h, List.cons_append, List.head?_cons] at hhead
  exact (Option.some.inj hhead).symm

theorem nextPlace_last (hi : i < n) (h : circle n i = pre ++ [j]) : nextPlace n j = i := by
  have hhead := head?_circle (nextPlace_lt (Nat.zero_lt_of_lt hi) j)
  rw [circle_split h, List.nil_append, ← h, head?_circle hi] at hhead
  exact (Option.some.inj hhead).symm

/-- Once around, the first place does not come again. -/
theorem ne_first (hi : i < n) {k : Nat} (h : circle n i = pre ++ j :: k :: post) : k ≠ i := by
  have hcut : circle n i = (pre ++ [j]) ++ k :: post := by rw [h]; simp
  have hfirst : i ∈ pre ++ [j] := by
    have hhead := head?_circle hi
    rw [hcut, List.head?_append_of_ne_nil _ (by simp)] at hhead
    exact List.mem_of_mem_head? hhead
  have hnodup := nodup_circle n i
  rw [hcut, List.nodup_append] at hnodup
  exact fun hk => hnodup.2.2 i hfirst k List.mem_cons_self hk.symm

/-! ## Whose turn is next -/

/-- The open places, in the order in which they come after `i`. -/
def waiting (n : Nat) (isOpen : Nat → Bool) (i : Nat) : List Nat :=
  (circle n (nextPlace n i)).filter isOpen

variable {isOpen : Nat → Bool}

theorem mem_waiting : j ∈ waiting n isOpen i ↔ j < n ∧ isOpen j = true := by
  rw [waiting, List.mem_filter, mem_circle]

theorem nodup_waiting (n : Nat) (isOpen : Nat → Bool) (i : Nat) : (waiting n isOpen i).Nodup :=
  (nodup_circle n _).filter _

/-- How many places are open does not depend on where one stands. -/
theorem length_waiting (n : Nat) (isOpen : Nat → Bool) (i : Nat) :
    (waiting n isOpen i).length = (List.range n).countP isOpen := by
  rw [waiting, ← List.countP_eq_length_filter, circle]
  exact (List.rotate_perm _ _).countP_eq _

/-- Who has had the turn waits behind all others. -/
theorem waiting_turn (h : waiting n isOpen i = j :: post) : waiting n isOpen j = post ++ [j] := by
  obtain ⟨closed, rest, hcircle, hclosed, hj, hrest⟩ := List.filter_eq_cons_iff.1 h
  rw [waiting, circle_split hcircle, List.filter_append, List.filter_append, hrest,
    List.filter_eq_nil_iff.2 hclosed, List.filter_singleton, hj]
  rfl

/-! ## Many turns -/

/-- Who has the next `m` turns, where who has had one waits behind all others. -/
def turns {A : Type} : Nat → List A → List A
  | 0, _ => []
  | _ + 1, [] => []
  | m + 1, a :: l => a :: turns m (l ++ [a])

variable {A : Type}

theorem turns_add (l l' : List A) (m : Nat) : turns (l.length + m) (l ++ l') = l ++ turns m (l' ++ l) := by
  induction l generalizing l' with
  | nil => simp
  | cons a l ih =>
    rw [List.length_cons, Nat.add_right_comm, List.cons_append, turns, List.append_assoc, ih,
      List.append_assoc, List.singleton_append, List.cons_append]

theorem turns_round (l : List A) (m : Nat) : turns (l.length + m) l = l ++ turns m l := by
  simpa using turns_add l [] m

theorem turns_take {l : List A} {m : Nat} (hm : m ≤ l.length) : turns m l = l.take m := by
  have h := turns_add (l.take m) (l.drop m) 0
  rwa [List.take_append_drop, List.length_take_of_le hm, Nat.add_zero, turns, List.append_nil] at h

/-- **Turns are taken evenly**: of `m` turns each of those who wait has had the whole quotient, or one
    more. -/
theorem count_turns [DecidableEq A] {l : List A} (hl : l.Nodup) {a : A} (ha : a ∈ l) (m : Nat) :
    (turns m l).count a = m / l.length ∨ (turns m l).count a = m / l.length + 1 := by
  have hpos : 0 < l.length := List.length_pos_of_mem ha
  induction m using Nat.strong_induction_on with
  | _ m ih =>
    rcases lt_or_ge m l.length with hlt | hge
    · have hcount : (l.take m).count a ≤ 1 :=
        ((List.take_sublist m l).count_le a).trans (List.nodup_iff_count_le_one.1 hl a)
      rw [turns_take hlt.le, Nat.div_eq_of_lt hlt]
      omega
    · obtain ⟨k, rfl⟩ := Nat.exists_eq_add_of_le hge
      rw [turns_round, List.count_append, List.count_eq_one_of_mem hl ha, Nat.add_div_left k hpos]
      have h := ih k (by omega)
      omega

end LibEvmvc
