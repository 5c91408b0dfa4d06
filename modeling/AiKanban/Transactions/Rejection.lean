import AiKanban.Transactions.Contract

/-!
# Bodies that never return

A body whose every path throws is rejected in every world. What bars a body is a guard
somewhere in it that no value passes, whatever was read before.
-/
namespace AiKanban.Transactions

open Program

variable {σ ω ε ι α β : Type}

/-- Whatever it is shown, the body throws. -/
inductive Program.Barred : Program σ ω ε ι α → Prop where
  | throw (e : ε) : Barred (.throw e)
  | stmt {effect : σ → Except ε (List ω)} {next : σ → Program σ ω ε ι α}
      (h : ∀ v, Barred (next v)) : Barred (.stmt effect next)
  | draw {next : ι → Program σ ω ε ι α} (h : ∀ i, Barred (next i)) : Barred (.draw next)

/-- The rest of a body bars it, whatever the first part returns. -/
theorem Program.Barred.bind {p : Program σ ω ε ι α} {f : α → Program σ ω ε ι β}
    (hf : ∀ a, (f a).Barred) : (p >>= f).Barred := by
  change (p.bind f).Barred
  induction p with
  | pure a => exact hf a
  | throw e => exact .throw e
  | stmt effect next ih => exact .stmt ih
  | draw next ih => exact .draw ih

/-- A barred first part bars the body. -/
theorem Program.Barred.then {p : Program σ ω ε ι α} (hp : p.Barred) (f : α → Program σ ω ε ι β) :
    (p >>= f).Barred := by
  change (p.bind f).Barred
  induction hp with
  | throw e => exact .throw e
  | stmt _ ih => exact .stmt ih
  | draw _ ih => exact .draw ih

theorem Program.Barred.map {p : Program σ ω ε ι α} (hp : p.Barred) (f : α → β) : (f <$> p).Barred := by
  rw [← bind_pure_comp]
  exact hp.then _

theorem barred_error {e : ε} : (.ofExcept (.error e) : Program σ ω ε ι α).Barred :=
  .throw e

theorem barred_ensure (e : ε) : (.ensure false e : Program σ ω ε ι Unit).Barred := .throw e

variable [Replay σ ω]

theorem Program.Barred.not_runs {p : Program σ ω ε ι α} {w w' : World σ ι} {a : α} (hp : p.Barred) :
    ¬ Runs p w a w' := by
  intro h
  induction hp generalizing w with
  | throw e => exact not_runs_throw h
  | @stmt effect next _ ih =>
    unfold Runs exec at h
    cases he : effect w.store with
    | error e => simp [he] at h
    | ok ws =>
      simp only [he] at h
      exact ih _ h
  | draw _ ih => exact ih _ h

/-- A barred unit of work is rejected and leaves the store as it was. -/
theorem Program.Barred.rejected {p : Program σ ω ε ι α} (hp : p.Barred) (w : World σ ι) :
    ∃ e, (transact p w).1 = .error e ∧ (transact p w).2.store = w.store := by
  rcases ht : transact p w with ⟨e | a, w'⟩
  · exact ⟨e, rfl, transact_error ht⟩
  · exact absurd (transact_ok_iff.mp ht) hp.not_runs

/-- An operation whose attempts are all barred is rejected. -/
theorem Program.Barred.attempts_rejected {retryable : ε → Bool} {p : Program σ ω ε ι α}
    {rest : List (Program σ ω ε ι α)} (hp : ∀ q ∈ p :: rest, q.Barred) (w : World σ ι) :
    ∃ e, (attempt retryable p rest w).1 = .error e ∧
      (attempt retryable p rest w).2.store = w.store := by
  rcases attempt_cases (Prod.eta (attempt retryable p rest w)).symm with
    ⟨e, he, hstore, -⟩ | ⟨q, hq, a, w₁, -, -, -, -, hrun⟩
  · exact ⟨e, he, hstore⟩
  · exact absurd hrun (hp q hq).not_runs

end AiKanban.Transactions
