import Mathlib.Data.List.Basic
import Mathlib.Logic.Relation

set_option autoImplicit false

/-! # Runs

A run folds a step function over a list of events. `EachState` says something of every state on the
way, `EachStep` of every event in the state it comes in. `eachState_iff` is the rule for a property
that holds along a run exactly as long as the steps meet a condition: a stronger invariant that good
steps keep, and that bad steps leave for good.

Where a step needs no event, a run is a chain of steps, and one that comes to an end ends in one place
(`reflTransGen_end_unique`). -/

namespace LibEvmvc

variable {S E : Type} (step : S → E → S)

/-- Every state of a run, the first one included. -/
def EachState (I : S → Prop) : S → List E → Prop
  | s, [] => I s
  | s, e :: es => I s ∧ EachState I (step s e) es

/-- Every event of a run meets `P` in the state it comes in. -/
def EachStep (P : S → E → Prop) : S → List E → Prop
  | _, [] => True
  | s, e :: es => P s e ∧ EachStep P (step s e) es

variable {step} {I J : S → Prop} {P : S → E → Prop}

theorem EachState.head {s : S} {es : List E} (h : EachState step I s es) : I s := by
  cases es with
  | nil => exact h
  | cons e es => exact h.1

/-- What the steps that meet `P` keep holds at the end of a run whose steps do. -/
theorem EachStep.invariant (hstep : ∀ s e, J s → P s e → J (step s e)) {s : S} (hs : J s)
    {es : List E} (hes : EachStep step P s es) : J (es.foldl step s) := by
  induction es generalizing s with
  | nil => exact hs
  | cons e es ih => exact ih (hstep s e hs hes.1) hes.2

/-- `I` holds along a run exactly if every step meets `P`. -/
theorem eachState_iff (hJ : ∀ s, J s → I s) (hgood : ∀ s e, J s → P s e → J (step s e))
    (hbad : ∀ s e, J s → ¬ P s e → ¬ I (step s e)) {s : S} (hs : J s) (es : List E) :
    EachState step I s es ↔ EachStep step P s es := by
  induction es generalizing s with
  | nil => exact ⟨fun _ => trivial, fun _ => hJ s hs⟩
  | cons e es ih =>
    constructor
    · rintro ⟨-, hes⟩
      have hP : P s e := by
        by_contra hnot
        exact hbad s e hs hnot hes.head
      exact ⟨hP, (ih (hgood s e hs hP)).1 hes⟩
    · rintro ⟨hP, hes⟩
      exact ⟨hJ s hs, (ih (hgood s e hs hP)).2 hes⟩

/-- Where each state has at most one step, a run has at most one end. -/
theorem reflTransGen_end_unique {R : S → S → Prop} (hR : Relator.RightUnique R) {s a b : S}
    (ha : Relation.ReflTransGen R s a) (hb : Relation.ReflTransGen R s b) (haend : ∀ c, ¬ R a c)
    (hbend : ∀ c, ¬ R b c) : a = b := by
  have hstop {x y : S} (hend : ∀ c, ¬ R x c) (h : Relation.ReflTransGen R x y) : x = y := by
    rcases h.cases_head with rfl | ⟨c, hc, -⟩
    · rfl
    · exact absurd hc (hend c)
  rcases Relation.ReflTransGen.total_of_right_unique hR ha hb with hab | hba
  · exact hstop haend hab
  · exact (hstop hbend hba).symm

end LibEvmvc
