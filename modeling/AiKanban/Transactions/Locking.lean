import AiKanban.Transactions.Interleaving

/-!
# Locks and what they freeze

Two open transactions never hold writes that conflict. What a transaction reads under its own
locks therefore stays as it was, and its body may be judged by the values it found there.
-/
namespace AiKanban.Transactions

open Program

variable {κ σ ω ε ι α : Type}

namespace Config

variable [DecidableEq κ] [Fintype κ] [Engine σ ω ε]

/-- No two open transactions hold conflicting writes. -/
def Exclusive (c : Config κ σ ω ε ι α) : Prop :=
  ∀ j k, j ≠ k → ∀ x ∈ (c.sessions j).held, ∀ y ∈ (c.sessions k).held,
    Engine.conflicts σ ε x y = false ∨ Engine.conflicts σ ε y x = false

theorem held_afterFailure (e : ε) (rest : List (Program σ ω ε ι α)) :
    (afterFailure e rest : Session σ ω ε ι α).held = [] := by
  cases rest with
  | nil => rfl
  | cons p rest =>
    unfold afterFailure
    split_ifs <;> rfl

/-- A turn takes hold of writes that nobody else stands against. -/
theorem held_step (c : Config κ σ ω ε ι α) (k : κ) :
    ∀ y ∈ ((c.step k).sessions k).held, y ∈ (c.sessions k).held ∨
      ∀ j, j ≠ k → ∀ x ∈ (c.sessions j).held, Engine.conflicts σ ε x y = false := by
  have ht := turn_step c k
  generalize c.step k = c' at ht ⊢
  intro y hy
  cases ht with
  | idle => exact .inl hy
  | begin hk =>
    rw [set_sessions_self] at hy
    cases hy
  | commit hk =>
    change y ∈ ((c.set k _).sessions k).held at hy
    rw [set_sessions_self] at hy
    cases hy
  | throw hk | fail hk _ =>
    rw [set_sessions_self, held_afterFailure] at hy
    cases hy
  | draw hk =>
    change y ∈ ((c.set k _).sessions k).held at hy
    rw [set_sessions_self] at hy
    rw [hk]
    exact .inl hy
  | @write effect next ws log rest hk hw hfree =>
    rw [set_sessions_self] at hy
    rw [hk]
    refine (List.mem_append.mp hy).imp id fun hnew j hj x hx => ?_
    by_contra hconflict
    exact hfree ⟨j, hj, x, hx, y, hnew, by simpa using hconflict⟩

theorem Exclusive.step {c : Config κ σ ω ε ι α} (h : c.Exclusive) (k : κ) : (c.step k).Exclusive := by
  intro i j hij x hx y hy
  by_cases hi : i = k
  · subst hi
    rw [step_sessions_ne c hij.symm] at hy
    rcases held_step c i x hx with hold | hfree
    · exact h i j hij x hold y hy
    · exact .inr (hfree j hij.symm y hy)
  · rw [step_sessions_ne c hi] at hx
    by_cases hj : j = k
    · subst hj
      rcases held_step c j y hy with hold | hfree
      · exact h i j hij x hx y hold
      · exact .inl (hfree i hij x hx)
    · rw [step_sessions_ne c hj] at hy
      exact h i j hij x hx y hy

end Config

section frozen

variable {Φ : Type} (agrees : Φ → σ → List ω → Prop) (rely : Φ → List ω → σ → Prop)
  (guar : Φ → List ω → ω → Prop)

/-- For all values that agree with what the session's locks freeze, it keeps a contract. -/
def Session.Frozen (s : σ) : Session σ ω ε ι α → Prop
  | .ready attempts =>
      ∀ p ∈ attempts, ∀ φ, Program.Meets (rely φ) (guar φ) (fun _ _ => True) p []
  | .active body log rest =>
      (∀ φ, agrees φ s log →
        Permitted (guar φ) log ∧ Program.Meets (rely φ) (guar φ) (fun _ _ => True) body log) ∧
        ∀ p ∈ rest, ∀ φ, Program.Meets (rely φ) (guar φ) (fun _ _ => True) p []
  | .done _ _ => True

variable {agrees rely guar}

/-- What others commit leaves the contract, when it leaves what the locks freeze. -/
theorem Session.Frozen.of_agrees {s s' : σ} {session : Session σ ω ε ι α}
    (h : session.Frozen agrees rely guar s)
    (hsame : ∀ φ, agrees φ s' session.held → agrees φ s session.held) :
    session.Frozen agrees rely guar s' := by
  cases session with
  | ready attempts => exact h
  | active body log rest => exact ⟨fun φ hφ => h.1 φ (hsame φ hφ), h.2⟩
  | done result log => trivial

variable [DecidableEq κ] [Fintype κ] [Engine σ ω ε]

theorem Session.frozen_afterFailure {s : σ} {e : ε} {rest : List (Program σ ω ε ι α)}
    (h : ∀ p ∈ rest, ∀ φ, Program.Meets (rely φ) (guar φ) (fun _ _ => True) p []) :
    (Config.afterFailure e rest : Session σ ω ε ι α).Frozen agrees rely guar s := by
  cases rest with
  | nil => trivial
  | cons p rest =>
    unfold Config.afterFailure
    split_ifs
    · exact h
    · trivial

/-- The session's own turn keeps the contract. -/
theorem Config.step_frozen (c : Config κ σ ω ε ι α) (k : κ)
    (hearlier : ∀ φ log ws, agrees φ c.committed (log ++ ws) → agrees φ c.committed log)
    (hrely : ∀ φ log, agrees φ c.committed log → Permitted (guar φ) log → rely φ log (c.view log))
    (h : (c.sessions k).Frozen agrees rely guar c.committed) :
    ((c.step k).sessions k).Frozen agrees rely guar (c.step k).committed := by
  have ht := turn_step c k
  generalize c.step k = c' at ht ⊢
  cases ht with
  | idle => exact h
  | begin hk =>
    rw [hk] at h
    rw [set_sessions_self]
    exact ⟨fun φ _ => ⟨.nil, h _ (by simp) φ⟩, fun p hp => h p (by simp [hp])⟩
  | commit hk =>
    change ((c.set k _).sessions k).Frozen agrees rely guar _
    rw [set_sessions_self]
    trivial
  | throw hk =>
    rw [hk] at h
    rw [set_sessions_self]
    exact Session.frozen_afterFailure h.2
  | draw hk =>
    rw [hk] at h
    change ((c.set k _).sessions k).Frozen agrees rely guar _
    rw [set_sessions_self]
    exact ⟨fun φ hφ => ⟨(h.1 φ hφ).1, (h.1 φ hφ).2 _⟩, h.2⟩
  | fail hk he =>
    rw [hk] at h
    rw [set_sessions_self]
    exact Session.frozen_afterFailure h.2
  | write hk hw _ =>
    rw [hk] at h
    rw [set_sessions_self]
    refine ⟨fun φ hφ => ?_, h.2⟩
    have hbefore := hearlier φ _ _ hφ
    obtain ⟨hpermitted, hmeets⟩ := h.1 φ hbefore
    obtain ⟨hguar, hrest⟩ := (hmeets _ (hrely φ _ hbefore hpermitted)).2 _ hw
    exact ⟨hpermitted.append hguar, hrest⟩

end frozen
end AiKanban.Transactions
