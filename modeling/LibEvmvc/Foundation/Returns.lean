set_option autoImplicit false

/-! # Runs that return

The states of a system with a stack have a depth. A run returns when it gets below the depth of what is at
work, and what was below goes on. If each step takes at most one level away, a run that returns from a deeper
state returns to every level between (`ReturnsTo.split`). -/

namespace LibEvmvc

variable {σ : Type} {step : σ → σ → Prop} {depth : σ → Nat}

/-- A run that stays at the depth `n` or above until its last step, which leads below it. -/
inductive ReturnsTo (step : σ → σ → Prop) (depth : σ → Nat) (n : Nat) : σ → σ → Prop
  | last {p r : σ} (h : step p r) (hr : depth r < n) : ReturnsTo step depth n p r
  | step {p q r : σ} (h : step p q) (hq : n ≤ depth q) (hrest : ReturnsTo step depth n q r) :
    ReturnsTo step depth n p r

namespace ReturnsTo

variable {n m : Nat} {p q r : σ}

/-- What was below goes on. -/
theorem trans (h : ReturnsTo step depth m p q) (hm : n ≤ m) (hq : n ≤ depth q)
    (h' : ReturnsTo step depth n q r) : ReturnsTo step depth n p r := by
  induction h with
  | last h _ => exact .step h hq h'
  | step h hdepth _ ih => exact .step h (Nat.le_trans hm hdepth) (ih hq h')

/-- A run that returns from a deeper state returns to its own depth before. -/
theorem split (hdrop : ∀ p q, step p q → depth p ≤ depth q + 1) (h : ReturnsTo step depth n p r)
    (hp : n < depth p) :
    ∃ q, ReturnsTo step depth (n + 1) p q ∧ depth q = n ∧ ReturnsTo step depth n q r := by
  induction h with
  | @last p r h hr =>
    have := hdrop p r h
    omega
  | @step p q r h hq hrest ih =>
    by_cases hdeeper : n < depth q
    · obtain ⟨m, hm, hdepth, hback⟩ := ih hdeeper
      exact ⟨m, .step h hdeeper hm, hdepth, hback⟩
    · have hdepth : depth q = n := by omega
      exact ⟨q, .last h (by omega), hdepth, hrest⟩

/-- What a run preserves as long as it has not returned, and what its last step makes of it. -/
theorem preserves {P Q : σ → Prop} (hstep : ∀ p q, P p → step p q → n ≤ depth q → P q)
    (hlast : ∀ p q, P p → step p q → depth q < n → Q q) (h : ReturnsTo step depth n p r) (hp : P p) :
    Q r := by
  induction h with
  | last h hr => exact hlast _ _ hp h hr
  | step h hq _ ih => exact ih (hstep _ _ hp h hq)

end ReturnsTo

end LibEvmvc
