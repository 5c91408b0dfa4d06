import AiKanban.Transitions.Runs
import Mathlib.Tactic

/-!
# Machines that answer

A machine takes a request, answers it and goes on to its next state. Two machines whose states stay
related, and which answer alike in related states, give the same answers to the same requests.
-/
namespace AiKanban.Transitions

variable {σ τ α β : Type}

/-- The state after a list of requests. -/
def after (f : σ → α → β × σ) (s : σ) (as : List α) : σ := runAll (fun s a => (f s a).2) s as

def answers (f : σ → α → β × σ) : σ → List α → List β
  | _, [] => []
  | s, a :: as => (f s a).1 :: answers f (f s a).2 as

/-- The requests that are answered with yes. -/
def accepted (f : σ → α → Bool × σ) : σ → List α → List α
  | _, [] => []
  | s, a :: as => (if (f s a).1 then [a] else []) ++ accepted f (f s a).2 as

section rules

variable {f : σ → α → β × σ} {g : τ → α → β × τ} {s : σ} {t : τ} {as bs : List α}

@[simp] theorem after_nil : after f s [] = s := rfl

@[simp] theorem after_cons {a : α} : after f s (a :: as) = after f (f s a).2 as := rfl

/-- A relation between states, with the requests still to come, that every request keeps. -/
theorem simulation_after {R : List α → σ → τ → Prop}
    (hstep : ∀ a as s t, R (a :: as) s t → R as (f s a).2 (g t a).2) (h : R (as ++ bs) s t) :
    R bs (after f s as) (after g t as) := by
  induction as generalizing s t with
  | nil => exact h
  | cons a as ih => exact ih (hstep a _ s t h)

theorem answers_eq_of_simulation {R : List α → σ → τ → Prop}
    (hanswer : ∀ a as s t, R (a :: as) s t → (f s a).1 = (g t a).1)
    (hstep : ∀ a as s t, R (a :: as) s t → R as (f s a).2 (g t a).2) (h : R as s t) :
    answers f s as = answers g t as := by
  induction as generalizing s t with
  | nil => rfl
  | cons a as ih => rw [answers, answers, hanswer a as s t h, ih (hstep a as s t h)]

end rules

/-- The accepted requests are told by the answers. -/
theorem accepted_eq_of_answers {f : σ → α → Bool × σ} {g : τ → α → Bool × τ} {s : σ} {t : τ}
    {as : List α} (h : answers f s as = answers g t as) : accepted f s as = accepted g t as := by
  induction as generalizing s t with
  | nil => rfl
  | cons a as ih =>
    obtain ⟨hfirst, hrest⟩ := List.cons.inj h
    rw [accepted, accepted, hfirst, ih hrest]

end AiKanban.Transitions
