import Mathlib.Tactic

/-!
# Grants in a sliding window

When every grant is made while fewer than the limit lie in the window that ends with it, no window
holds more grants than the limit.
-/
namespace AiKanban.Transitions

/-- The grant lies in the window of the given width that ends at `t`. -/
def inWindow (width t grant : ℤ) : Bool := decide (t - width < grant) && decide (grant ≤ t)

/-- Grants in the order of their times, each within the limit when it was made. -/
inductive Spaced (limit : ℕ) (width : ℤ) : List ℤ → Prop
  | nil : Spaced limit width []
  | grant {grants : List ℤ} {now : ℤ} (before : Spaced limit width grants)
      (past : ∀ grant ∈ grants, grant ≤ now)
      (room : grants.countP (inWindow width now) < limit) : Spaced limit width (grants ++ [now])

variable {limit : ℕ} {width : ℤ} {grants : List ℤ}

/-- A window that a later grant lies in holds no earlier grants but those of its own window. -/
theorem countP_inWindow_le {t now : ℤ} (past : ∀ grant ∈ grants, grant ≤ now) (ht : now ≤ t) :
    grants.countP (inWindow width t) ≤ grants.countP (inWindow width now) := by
  refine List.countP_mono_left ?_
  intro grant hgrant h
  have hpast := past grant hgrant
  simp only [inWindow, Bool.and_eq_true, decide_eq_true_eq] at h ⊢
  omega

theorem Spaced.countP_le (h : Spaced limit width grants) (t : ℤ) :
    grants.countP (inWindow width t) ≤ limit := by
  induction h with
  | nil => simp
  | @grant grants now before past room ih =>
    rw [List.countP_append, List.countP_singleton]
    cases hnow : inWindow width t now with
    | false => simpa using ih
    | true =>
      simp only [inWindow, Bool.and_eq_true, decide_eq_true_eq] at hnow
      have hle : grants.countP (inWindow width t) ≤ grants.countP (inWindow width now) :=
        countP_inWindow_le past hnow.2
      simp only [if_true]
      omega

end AiKanban.Transitions
