import AiKanban.Transactions.Program

/-!
# The stores within a unit of work

A body that runs alone leaves one store after each statement; the later ones do not show in the
outcome.
-/
namespace AiKanban.Transactions

variable {σ ω ε ι α β : Type} [Replay σ ω]

/-- The stores after each statement, in order. -/
def Program.snapshots : Program σ ω ε ι α → World σ ι → List σ
  | .pure _, _ => []
  | .throw _, _ => []
  | .stmt effect next, w =>
      match effect w.store with
      | .error _ => []
      | .ok ws => replay w.store ws ::
          (next w.store).snapshots (w.withStore (replay w.store ws))
  | .draw next, w => (next w.peek).snapshots w.tick

namespace Program

theorem mem_snapshots_bind {p : Program σ ω ε ι α} {f : α → Program σ ω ε ι β} {w : World σ ι}
    {s : σ} : s ∈ (p >>= f).snapshots w ↔
      s ∈ p.snapshots w ∨ ∃ a w₁, Runs p w a w₁ ∧ s ∈ (f a).snapshots w₁ := by
  change s ∈ (p.bind f).snapshots w ↔ _
  induction p generalizing w with
  | pure a =>
    simp only [bind, snapshots, List.not_mem_nil, false_or]
    constructor
    · exact fun h => ⟨a, w, runs_progPure_iff.mpr ⟨rfl, rfl⟩, h⟩
    · rintro ⟨b, w₁, hruns, h⟩
      obtain ⟨rfl, rfl⟩ := runs_progPure_iff.mp hruns
      exact h
  | throw e => simp [bind, snapshots]
  | stmt effect next ih =>
    simp only [bind, snapshots, Runs, exec]
    cases effect w.store with
    | error e => simp
    | ok ws => simp only [List.mem_cons, ih, or_assoc, Runs]
  | draw next ih => exact ih _

/-- A body that only reads shows the store it found. -/
theorem ReadsOnly.snapshot_eq {p : Program σ ω ε ι α} (hp : p.ReadsOnly) {w : World σ ι} {s : σ}
    (h : s ∈ p.snapshots w) : s = w.store := by
  induction p with
  | pure a => cases h
  | throw e => cases h
  | stmt effect next ih =>
    unfold snapshots at h
    cases he : effect w.store with
    | error e => simp [he] at h
    | ok ws =>
      simp only [he, hp.1 _ _ he, replay_nil, World.withStore_self, List.mem_cons] at h
      rcases h with rfl | h
      · rfl
      · exact ih _ (hp.2 _) h
  | draw next ih => exact hp.elim

theorem mem_snapshots_write {effect : σ → Except ε (List ω)} {w : World σ ι} {s : σ} :
    s ∈ (.write effect : Program σ ω ε ι Unit).snapshots w ↔
      Runs (.write effect : Program σ ω ε ι Unit) w () (w.withStore s) := by
  rw [runs_write_iff]
  unfold write snapshots
  cases effect w.store with
  | error e => simp
  | ok ws =>
    simp only [snapshots, List.mem_singleton, Except.ok.injEq, exists_eq_left']
    constructor
    · rintro rfl
      rfl
    · exact fun h => congrArg World.store h

end Program

/-- The store a body ends with is the last one it shows. -/
theorem Runs.store_mem_snapshots {p : Program σ ω ε ι α} {w w' : World σ ι} {a : α}
    (h : Runs p w a w') : w'.store = w.store ∨ w'.store ∈ p.snapshots w := by
  induction p generalizing w with
  | pure b => exact .inl (congrArg World.store (runs_progPure_iff.mp h).2)
  | throw e => exact absurd h not_runs_throw
  | stmt effect next ih =>
    right
    unfold Runs exec at h
    unfold Program.snapshots
    cases he : effect w.store with
    | error e => simp [he] at h
    | ok ws =>
      simp only [he] at h
      rcases ih _ h with hsame | hlater
      · rw [hsame]
        exact List.mem_cons_self ..
      · exact List.mem_cons_of_mem _ hlater
  | draw next ih => exact ih _ h

end AiKanban.Transactions
