import Mathlib.Order.WellFounded
import Mathlib.Tactic

/-!
# Runs that go on for ever

A value that can only fall, and that falls when its turn comes, is done at some time when every
value that is not done gets its turn.
-/
namespace AiKanban.Transitions

variable {τ : Type} {less : τ → τ → Prop} {value : ℕ → τ} {start : ℕ}

/-- A value that has changed by some time fell when it changed first. -/
theorem exists_fall (hstep : ∀ n ≥ start, value (n + 1) = value n ∨ less (value (n + 1)) (value n))
    {n m : ℕ} (hn : start ≤ n) (hle : n ≤ m) (hne : value m ≠ value n) :
    ∃ k ≥ n, less (value k) (value n) := by
  induction m, hle using Nat.le_induction with
  | base => exact absurd rfl hne
  | succ m hle ih =>
    by_cases hsame : value m = value n
    · rcases hstep m (by omega) with hkept | hfell
      · exact absurd (hkept.trans hsame) hne
      · exact ⟨m + 1, by omega, hsame ▸ hfell⟩
    · exact ih hsame

theorem eventually_done (value : ℕ → τ) (Done : τ → Prop) (hwf : WellFounded less)
    (hstep : ∀ n ≥ start, value (n + 1) = value n ∨ less (value (n + 1)) (value n))
    (hturn : ∀ n ≥ start, ¬ Done (value n) →
      ∃ m ≥ n, value m = value n → less (value (m + 1)) (value m)) :
    ∃ m ≥ start, Done (value m) := by
  suffices h : ∀ v, ∀ n ≥ start, value n = v → ∃ m ≥ start, Done (value m) from
    h (value start) start le_rfl rfl
  intro v
  induction v using hwf.induction with
  | _ v ih =>
    rintro n hn rfl
    by_cases hdone : Done (value n)
    · exact ⟨n, hn, hdone⟩
    · obtain ⟨m, hm, hfalls⟩ := hturn n hn hdone
      by_cases hsame : value m = value n
      · have hless := hfalls hsame
        rw [hsame] at hless
        exact ih _ hless (m + 1) (by omega) rfl
      · obtain ⟨k, hk, hless⟩ := exists_fall hstep hn hm hsame
        exact ih _ hless k (by omega) rfl

end AiKanban.Transitions
