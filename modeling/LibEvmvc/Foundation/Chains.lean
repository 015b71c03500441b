import Mathlib.Data.Fintype.Card
import Mathlib.Data.Set.Finite.Basic
import Mathlib.Logic.Relation

set_option autoImplicit false

/-! # Chains that come to an end

What follows a reference, and then the reference of what it has found, comes to an end from where no
chain of references is infinite. If only finitely many things can be reached, these are the places from
which no circle of references is reached (`halts_iff_acyclic`). A reference can be changed without making
a circle exactly if the new one does not lead back (`Redirected.halts_iff`). -/

namespace LibEvmvc

variable {A : Type} {R : A → A → Prop}

/-- All chains from `a` on are finite. -/
def Halts (R : A → A → Prop) (a : A) : Prop := Acc (fun b a => R a b) a

/-- Nothing that can be reached from `a` comes back to itself. -/
def Acyclic (R : A → A → Prop) (a : A) : Prop :=
  ∀ b, Relation.ReflTransGen R a b → ¬ Relation.TransGen R b b

theorem Halts.step {a b : A} (h : Halts R a) (hab : R a b) : Halts R b := Acc.inv h hab

theorem halts_of_step {a : A} (h : ∀ b, R a b → Halts R b) : Halts R a := Acc.intro a h

theorem Halts.reach {a b : A} (h : Halts R a) (hab : Relation.ReflTransGen R a b) : Halts R b := by
  induction hab with
  | refl => exact h
  | tail _ hstep ih => exact ih.step hstep

theorem Halts.not_cyclic {a : A} (h : Halts R a) : ¬ Relation.TransGen R a a := by
  induction h with
  | intro a _ ih =>
    intro hcyc
    obtain ⟨b, hab, hba⟩ := Relation.TransGen.head'_iff.1 hcyc
    exact ih b hab (Relation.TransGen.tail' hba hab)

/-- **Where finitely many things can be reached, the chains end exactly if there is no circle.** -/
theorem halts_iff_acyclic {a : A} (hfin : {b | Relation.ReflTransGen R a b}.Finite) :
    Halts R a ↔ Acyclic R a := by
  refine ⟨fun h b hab => (h.reach hab).not_cyclic, fun h => ?_⟩
  -- on the things that can be reached, the transitive closure is a strict order
  let S := {b // Relation.ReflTransGen R a b}
  have hfinS : Finite S := hfin
  let below (c b : S) : Prop := Relation.TransGen R b.1 c.1
  have htrans : IsTrans S below := ⟨fun _ _ _ hcb hdc => hdc.trans hcb⟩
  have hirrefl : Std.Irrefl below := ⟨fun b => h b.1 b.2⟩
  have hwf : WellFounded below := Finite.wellFounded_of_trans_of_irrefl below
  have hall (b : S) : Halts R b.1 := by
    induction b using hwf.induction with
    | h b ih =>
      refine halts_of_step fun c hbc => ?_
      exact ih ⟨c, b.2.tail hbc⟩ (Relation.TransGen.single hbc)
  exact hall ⟨a, Relation.ReflTransGen.refl⟩

/-! ## Another reference -/

/-- `c` refers to `t` and to nothing else, and everything else to what it did. -/
def Redirected (R R' : A → A → Prop) (c t : A) : Prop :=
  ∀ a b, R' a b ↔ a = c ∧ b = t ∨ a ≠ c ∧ R a b

variable {R' : A → A → Prop} {c t : A}

theorem Redirected.halts (h : Redirected R R' c t) (hR : ∀ a, Halts R a)
    (hfree : ¬ Relation.ReflTransGen R t c) (a : A) : Halts R' a := by
  -- the chains that do not come to `c` are what they were
  have hsame (b : A) (hb : ¬ Relation.ReflTransGen R b c) : Halts R' b := by
    induction hR b with
    | intro b _ ih =>
      refine halts_of_step fun d hbd => ?_
      rcases (h b d).1 hbd with ⟨rfl, -⟩ | ⟨-, hstep⟩
      · exact absurd .refl hb
      · exact ih d hstep fun hd => hb (hd.head hstep)
  have hc : Halts R' c := by
    refine halts_of_step fun d hcd => ?_
    rcases (h c d).1 hcd with ⟨-, rfl⟩ | ⟨hne, -⟩
    · exact hsame d hfree
    · exact absurd rfl hne
  induction hR a with
  | intro a _ ih =>
    refine halts_of_step fun d had => ?_
    rcases (h a d).1 had with ⟨rfl, rfl⟩ | ⟨-, hstep⟩
    · exact hc.step had
    · exact ih d hstep

theorem Redirected.cyclic (h : Redirected R R' c t) (hto : Relation.ReflTransGen R t c) :
    Relation.TransGen R' c c := by
  have hkept (a : A) (ha : Relation.ReflTransGen R a c) : Relation.ReflTransGen R' a c := by
    induction ha using Relation.ReflTransGen.head_induction_on with
    | refl => exact .refl
    | @head a d had _ ih =>
      by_cases hac : a = c
      · rw [hac]
      · exact ih.head ((h a d).2 (.inr ⟨hac, had⟩))
  exact Relation.TransGen.head' ((h c t).2 (.inl ⟨rfl, rfl⟩)) (hkept t hto)

/-- **Chains that come to an end still do so after a redirection exactly if the new reference does not
    lead back.** -/
theorem Redirected.halts_iff (h : Redirected R R' c t) (hR : ∀ a, Halts R a) :
    (∀ a, Halts R' a) ↔ ¬ Relation.ReflTransGen R t c :=
  ⟨fun hR' hto => (hR' c).not_cyclic (h.cyclic hto), h.halts hR⟩

/-! ## The other way round -/

/-- Where all chains come to an end and there are finitely many things, so do the chains backwards. -/
theorem halts_swap (hR : ∀ a, Halts R a) {a : A}
    (hfin : {b | Relation.ReflTransGen (Function.swap R) a b}.Finite) :
    Halts (Function.swap R) a := by
  rw [halts_iff_acyclic hfin]
  intro b _ hcyc
  exact (hR b).not_cyclic (Relation.transGen_swap.1 hcyc)

end LibEvmvc
