import AiKanban.Transactions.Program

/-!
# Units of work with one failing step

A body whose n-th statement fails succeeds only where it never gets to that statement, and then
as the body does without the failure.
-/
namespace AiKanban.Transactions

variable {σ ω ε ι α : Type}

/-- The n-th statement fails. -/
def Program.failAt (e : ε) : ℕ → Program σ ω ε ι α → Program σ ω ε ι α
  | _, .pure a => .pure a
  | _, .throw e' => .throw e'
  | 0, .stmt _ _ => .throw e
  | n + 1, .stmt effect next => .stmt effect fun v => Program.failAt e n (next v)
  | n, .draw next => .draw fun i => Program.failAt e n (next i)

variable [Replay σ ω]

theorem runs_of_failAt {e : ε} {n : ℕ} {p : Program σ ω ε ι α} {w w' : World σ ι} {a : α}
    (h : Runs (p.failAt e n) w a w') : Runs p w a w' := by
  induction p generalizing n w with
  | pure b => cases n <;> exact h
  | throw e' => cases n <;> exact h
  | stmt effect next ih =>
    cases n with
    | zero => exact absurd h not_runs_throw
    | succ n =>
      unfold Runs exec at h ⊢
      cases heffect : effect w.store with
      | error e' => simp [Program.failAt, heffect] at h
      | ok ws =>
        simp only [Program.failAt, heffect] at h ⊢
        exact ih _ h
  | draw next ih =>
    cases n <;> exact ih _ h

/-- The failing step of a unit of work: one of its statements, or its commit. -/
inductive UnitFault where
  | statement (n : ℕ)
  | commit
  deriving DecidableEq

/-- A unit of work with a failing step. A commit that fails is rolled back. -/
def transactWith (e : ε) (fault : Option UnitFault) (p : Program σ ω ε ι α) (w : World σ ι) :
    Except ε α × World σ ι :=
  match fault with
  | none => transact p w
  | some (.statement n) => transact (p.failAt e n) w
  | some .commit =>
      match transact p w with
      | (.ok _, w') => (.error e, w'.withStore w.store)
      | (.error e', w') => (.error e', w')

theorem transactWith_ok {e : ε} {fault : Option UnitFault} {p : Program σ ω ε ι α}
    {w w' : World σ ι} {a : α} (h : transactWith e fault p w = (.ok a, w')) : Runs p w a w' := by
  unfold transactWith at h
  split at h
  · exact transact_ok_iff.mp h
  · exact runs_of_failAt (transact_ok_iff.mp h)
  · split at h <;> cases h

theorem transactWith_error {e e' : ε} {fault : Option UnitFault} {p : Program σ ω ε ι α}
    {w w' : World σ ι} (h : transactWith e fault p w = (.error e', w')) : w'.store = w.store := by
  unfold transactWith at h
  split at h
  · exact transact_error h
  · exact transact_error h
  · split at h
    · cases h
      rfl
    · next hbody =>
      cases h
      exact transact_error hbody

end AiKanban.Transactions
