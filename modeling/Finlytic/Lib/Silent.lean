import Finlytic.Lib.Pool

/-! Runs with silent actions. Where a relation survives a silent action on one side and a loud one
on both, the run with the silent actions and the run without them stay related. -/

namespace Finlytic.Lib

variable {σ τ α : Type*} {stepU : σ → α → Option σ} {stepV : τ → α → Option τ} {silent : α → Bool}
  {okU : σ → α → Prop} {okV : τ → α → Prop} {R : σ → τ → Prop}

/-- The run without its silent actions. -/
def loud (silent : α → Bool) (as : List α) : List α := as.filter fun a => !silent a

theorem loud_cons_silent {a : α} {as : List α} (h : silent a = true) :
    loud silent (a :: as) = loud silent as :=
  List.filter_cons_of_neg (by rw [h]; exact Bool.false_ne_true)

theorem loud_cons_loud {a : α} {as : List α} (h : silent a = false) :
    loud silent (a :: as) = a :: loud silent as :=
  List.filter_cons_of_pos (by rw [h]; rfl)

/-- `R` relates the run without silent actions, on the left, to the run with them, on the right. -/
structure Silences (stepU : σ → α → Option σ) (stepV : τ → α → Option τ) (silent : α → Bool)
    (okU : σ → α → Prop) (okV : τ → α → Prop) (R : σ → τ → Prop) : Prop where
  step_loud : ∀ u v a, R u v → silent a = false → okU u a → okV v a →
    Option.Rel R (stepU u a) (stepV v a)
  step_silent : ∀ u v a, R u v → silent a = true → okV v a → ∃ v', stepV v a = some v' ∧ R u v'

/-- Either both runs get stuck, or both end and their ends are related. -/
theorem Silences.exec (h : Silences stepU stepV silent okU okV R) {as : List α} {u : σ} {v : τ}
    (hR : R u v) (hu : Meets stepU okU u (loud silent as)) (hv : Meets stepV okV v as) :
    Option.Rel R (exec stepU u (loud silent as)) (exec stepV v as) := by
  induction as generalizing u v with
  | nil => exact .some hR
  | cons a as ih =>
    cases hs : silent a with
    | true =>
      obtain ⟨v', hv', hR'⟩ := h.step_silent u v a hR hs hv.1
      rw [loud_cons_silent hs] at hu ⊢
      rw [exec_cons_some hv']
      exact ih hR' hu (hv.2 v' hv')
    | false =>
      rw [loud_cons_loud hs] at hu ⊢
      have hrel := h.step_loud u v a hR hs hu.1 hv.1
      have hu' := hu.2
      have hv' := hv.2
      rw [exec_cons, exec_cons]
      generalize stepU u a = x at hrel hu' ⊢
      generalize stepV v a = y at hrel hv' ⊢
      cases hrel with
      | none => exact .none
      | some hR' => exact ih hR' (hu' _ rfl) (hv' _ rfl)

end Finlytic.Lib
