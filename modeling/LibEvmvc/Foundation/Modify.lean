import Mathlib.Data.List.Basic

set_option autoImplicit false

/-! # Changing one item of a list

Where the state of a system is a list of its parts, a step changes one of them (`List.modify`) or goes
over all. What every part has is kept if the change keeps it; what all of them have together grows by
what the changed one gets. -/

namespace LibEvmvc

/-- Changing one item of a list adds to the list what it adds to the item. -/
theorem perm_flatMap_modify {A B : Type} {g : A → List B} {f : A → A} {more : List B} {l : List A} {i : Nat}
    {a : A} (h : l[i]? = some a) (hf : (g (f a)).Perm (more ++ g a)) :
    ((l.modify i f).flatMap g).Perm (more ++ l.flatMap g) := by
  induction l generalizing i with
  | nil => simp at h
  | cons b l ih =>
    cases i with
    | zero =>
      obtain rfl : b = a := by simpa using h
      rw [List.modify_zero_cons, List.flatMap_cons, List.flatMap_cons, ← List.append_assoc]
      exact hf.append_right _
    | succ i =>
      rw [List.getElem?_cons_succ] at h
      rw [List.modify_succ_cons, List.flatMap_cons, List.flatMap_cons]
      refine ((ih h).append_left (g b)).trans ?_
      rw [← List.append_assoc, ← List.append_assoc]
      exact List.perm_append_comm.append_right _

/-- Where every item is changed to one with as much, so is the list. -/
theorem perm_flatMap_modify_same {A B : Type} {g : A → List B} {f : A → A} (hf : ∀ a, (g (f a)).Perm (g a))
    (l : List A) (i : Nat) : ((l.modify i f).flatMap g).Perm (l.flatMap g) := by
  cases hget : l[i]? with
  | none => rw [List.modify_eq_self (List.getElem?_eq_none_iff.1 hget)]
  | some a =>
    have hnothing : (g (f a)).Perm ([] ++ g a) := hf a
    exact perm_flatMap_modify hget hnothing

/-- An item after the change is an old one, or what the change makes of one. -/
theorem mem_modify {A : Type} {f : A → A} {l : List A} {i : Nat} {a : A} (h : a ∈ l.modify i f) :
    a ∈ l ∨ ∃ b, l[i]? = some b ∧ a = f b := by
  obtain ⟨j, hj⟩ := List.mem_iff_getElem?.1 h
  rw [List.getElem?_modify] at hj
  split at hj
  · next hij =>
    obtain ⟨b, hb, rfl⟩ := Option.map_eq_some_iff.1 hj
    exact .inr ⟨b, hij ▸ hb, rfl⟩
  · next hij =>
    obtain ⟨b, hb, rfl⟩ := Option.map_eq_some_iff.1 hj
    exact .inl (List.mem_of_getElem? hb)

theorem forall_modify {A : Type} {P : A → Prop} {f : A → A} {l : List A} (h : ∀ a ∈ l, P a) (i : Nat)
    (hf : ∀ a, l[i]? = some a → P a → P (f a)) : ∀ a ∈ l.modify i f, P a := by
  intro a ha
  rcases mem_modify ha with hmem | ⟨b, hb, rfl⟩
  · exact h a hmem
  · exact hf b hb (h b (List.mem_of_getElem? hb))

end LibEvmvc
