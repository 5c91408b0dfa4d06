import AiKanban.Transactions.Program

/-!
# What a body may throw

A unit of work fails with an error of its body, so with one of those that the body's statements
and guards are written with.
-/
namespace AiKanban.Transactions

namespace Program

variable {σ ω ε ι α β : Type} {E : ε → Prop}

/-- Every error of the body satisfies `E`. -/
def Fails (E : ε → Prop) : Program σ ω ε ι α → Prop
  | .pure _ => True
  | .throw e => E e
  | .stmt effect next => (∀ v e, effect v = .error e → E e) ∧ ∀ v, Fails E (next v)
  | .draw next => ∀ i, Fails E (next i)

theorem Fails.bind {p : Program σ ω ε ι α} {f : α → Program σ ω ε ι β} (hp : p.Fails E)
    (hf : ∀ a, (f a).Fails E) : (p >>= f).Fails E := by
  change (p.bind f).Fails E
  induction p with
  | pure a => exact hf a
  | throw e => exact hp
  | stmt effect next ih => exact ⟨hp.1, fun v => ih v (hp.2 v)⟩
  | draw next ih => exact fun i => ih i (hp i)

theorem fails_pure (a : α) : (pure a : Program σ ω ε ι α).Fails E := trivial

theorem fails_input : (.input : Program σ ω ε ι ι).Fails E := fun _ => trivial

/-- A statement that never fails by itself. -/
theorem fails_stmt {effect : σ → List ω} {next : σ → Program σ ω ε ι α}
    (h : ∀ v, (next v).Fails E) : (Program.stmt (fun v => .ok (effect v)) next).Fails E := by
  refine ⟨fun v e he => ?_, h⟩
  cases he

theorem fails_read (query : σ → α) : (.read query : Program σ ω ε ι α).Fails E :=
  fails_stmt fun _ => trivial

theorem fails_write {effect : σ → Except ε (List ω)} (h : ∀ v e, effect v = .error e → E e) :
    (.write effect : Program σ ω ε ι Unit).Fails E :=
  ⟨h, fun _ => trivial⟩

theorem fails_ofExcept {value : Except ε α} (h : ∀ e, value = .error e → E e) :
    (.ofExcept value : Program σ ω ε ι α).Fails E := by
  cases value with
  | ok a => trivial
  | error e => exact h e rfl

theorem Fails.map {p : Program σ ω ε ι α} (hp : p.Fails E) (f : α → β) : (f <$> p).Fails E := by
  rw [← bind_pure_comp]
  exact hp.bind fun _ => trivial

variable [Replay σ ω]

theorem Fails.exec {p : Program σ ω ε ι α} (hp : p.Fails E) {w w' : World σ ι} {e : ε}
    (h : exec p w = (.error e, w')) : E e := by
  induction p generalizing w with
  | pure a => cases h
  | throw e => cases h; exact hp
  | stmt effect next ih =>
    unfold Transactions.exec at h
    cases he : effect w.store with
    | error e =>
      rw [he] at h
      cases h
      exact hp.1 _ _ he
    | ok ws =>
      rw [he] at h
      exact ih _ (hp.2 _) h
  | draw next ih => exact ih _ (hp _) h

theorem Fails.transact {p : Program σ ω ε ι α} (hp : p.Fails E) {w w' : World σ ι} {e : ε}
    (h : transact p w = (.error e, w')) : E e := by
  unfold Transactions.transact at h
  rcases he : Transactions.exec p w with ⟨e' | a, w₁⟩
  · rw [he] at h
    cases h
    exact hp.exec he
  · simp [he] at h

end Program
end AiKanban.Transactions
