import AiKanban.Transactions.Program

/-!
# One answer for every store of a kind

A body is denied on a kind of stores when it throws one and the same error from each of them, so
that the error tells nothing about the store. A denied first part denies the whole body.
-/
namespace AiKanban.Transactions

section runs

variable {σ ω ε ι α β : Type} [Replay σ ω] {w w₁ : World σ ι}

theorem exec_bind_of_runs {p : Program σ ω ε ι α} {a : α} (hp : Runs p w a w₁)
    (f : α → Program σ ω ε ι β) : exec (p >>= f) w = exec (f a) w₁ := by
  change exec (p.bind f) w = _
  rw [exec_bind, hp]

theorem exec_bind_of_error {p : Program σ ω ε ι α} {e : ε} (hp : exec p w = (.error e, w₁))
    (f : α → Program σ ω ε ι β) : exec (p >>= f) w = (.error e, w₁) := by
  change exec (p.bind f) w = _
  rw [exec_bind, hp]

end runs

namespace Program

variable {σ ω ε ι α β : Type} [Replay σ ω] {P : σ → Prop}

/-- Every store that satisfies `P` is answered with the error `e`. -/
def DeniedWith (P : σ → Prop) (e : ε) (p : Program σ ω ε ι α) : Prop :=
  ∀ w, P w.store → ∃ w', exec p w = (.error e, w')

/-- The stores that satisfy `P` are all answered with one error. -/
def Denied (P : σ → Prop) (p : Program σ ω ε ι α) : Prop := ∃ e, p.DeniedWith P e

theorem deniedWith_throw (e : ε) : (.throw e : Program σ ω ε ι α).DeniedWith P e :=
  fun w _ => ⟨w, rfl⟩

theorem DeniedWith.then {p : Program σ ω ε ι α} {e : ε} (hp : p.DeniedWith P e)
    (f : α → Program σ ω ε ι β) : (p >>= f).DeniedWith P e := by
  intro w hw
  obtain ⟨w', h⟩ := hp w hw
  exact ⟨w', exec_bind_of_error h f⟩

/-- A first part that reads, and the rest denied whatever it read. -/
theorem DeniedWith.after {p : Program σ ω ε ι α} {f : α → Program σ ω ε ι β} {e : ε}
    (hp : ∀ w, P w.store → ∃ a w', Runs p w a w' ∧ w'.store = w.store)
    (hf : ∀ a, (f a).DeniedWith P e) : (p >>= f).DeniedWith P e := by
  intro w hw
  obtain ⟨a, w₁, hrun, hstore⟩ := hp w hw
  obtain ⟨w', h⟩ := hf a w₁ (hstore ▸ hw)
  exact ⟨w', (exec_bind_of_runs hrun f).trans h⟩

theorem DeniedWith.denied {p : Program σ ω ε ι α} {e : ε} (hp : p.DeniedWith P e) :
    p.Denied P := ⟨e, hp⟩

theorem Denied.then {p : Program σ ω ε ι α} (hp : p.Denied P) (f : α → Program σ ω ε ι β) :
    (p >>= f).Denied P := by
  obtain ⟨e, h⟩ := hp
  exact ⟨e, h.then f⟩

theorem Denied.map {p : Program σ ω ε ι α} (hp : p.Denied P) (f : α → β) : (f <$> p).Denied P := by
  rw [← bind_pure_comp]
  exact hp.then _

/-- Input that does not parse is denied for that. -/
theorem denied_ofExcept {value : Except ε α} {f : α → Program σ ω ε ι β}
    (hf : ∀ a, (f a).Denied P) : (Program.ofExcept value >>= f).Denied P := by
  cases value with
  | ok a => exact hf a
  | error e => exact (deniedWith_throw e).denied

/-- A condition on the input alone. -/
theorem denied_ensure {condition : Bool} {e : ε} {f : Unit → Program σ ω ε ι β}
    (hf : (f ()).Denied P) : (Program.ensure condition e >>= f).Denied P := by
  cases condition with
  | true => exact hf
  | false => exact (deniedWith_throw e).denied

/-- A denied unit of work answers with its error and leaves the store. -/
theorem DeniedWith.transact {p : Program σ ω ε ι α} {e : ε} (hp : p.DeniedWith P e) {w : World σ ι}
    (hw : P w.store) : ∃ w', transact p w = (.error e, w') ∧ w'.store = w.store := by
  obtain ⟨w', h⟩ := hp w hw
  refine ⟨w'.withStore w.store, ?_, rfl⟩
  unfold Transactions.transact
  rw [h]

/-- An operation all of whose attempts are denied. -/
theorem Denied.attempt {retryable : ε → Bool} {rest : List (Program σ ω ε ι α)} :
    ∀ {p : Program σ ω ε ι α}, p.Denied P → (∀ q ∈ rest, q.Denied P) →
      ∃ e, ∀ w, P w.store → ∃ w', attempt retryable p rest w = (.error e, w') ∧
        w'.store = w.store := by
  induction rest with
  | nil =>
    rintro p ⟨e, hp⟩ -
    exact ⟨e, fun w hw => hp.transact hw⟩
  | cons q rest ih =>
    rintro p ⟨e, hp⟩ hrest
    obtain ⟨e', hq⟩ := ih (hrest q (by simp)) fun q' hq' => hrest q' (by simp [hq'])
    by_cases hretry : retryable e = true
    · refine ⟨e', fun w hw => ?_⟩
      obtain ⟨w₁, h, hstore⟩ := hp.transact hw
      obtain ⟨w', h', hstore'⟩ := hq w₁ (hstore ▸ hw)
      refine ⟨w', ?_, hstore'.trans hstore⟩
      simp only [Transactions.attempt, h, hretry, if_true]
      exact h'
    · refine ⟨e, fun w hw => ?_⟩
      obtain ⟨w₁, h, hstore⟩ := hp.transact hw
      refine ⟨w₁, ?_, hstore⟩
      simp only [Transactions.attempt, h, if_neg hretry]

end Program
end AiKanban.Transactions
