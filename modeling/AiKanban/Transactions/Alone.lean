import AiKanban.Transactions.Interleaving

/-!
# Sessions that take their turns in a row

A session that takes one turn after the other does what its body does in a serial run: through
its reads whatever the others hold, and to its commit when they hold nothing.
-/
namespace AiKanban.Transactions
namespace Config

variable {κ σ ω ε ι α β : Type} {c : Config κ σ ω ε ι α} {k : κ}

section sessions

variable [DecidableEq κ]

theorem set_set (c : Config κ σ ω ε ι α) (k : κ) (s t : Session σ ω ε ι α) :
    (c.set k s).set k t = c.set k t := by
  simp [set]

theorem set_self {s : Session σ ω ε ι α} (h : s = c.sessions k) : c.set k s = c := by
  subst h
  simp [set]

end sessions

section blocking

variable [Engine σ ω ε]

theorem not_blocked_nil : ¬ c.Blocked k [] := by
  rintro ⟨_, -, _, -, w, hw, -⟩
  cases hw

theorem not_blocked (hfree : ∀ j, j ≠ k → (c.sessions j).held = []) (ws : List ω) :
    ¬ c.Blocked k ws := by
  rintro ⟨j, hj, held, hheld, -⟩
  rw [hfree j hj] at hheld
  cases hheld

end blocking

variable [DecidableEq κ] [Fintype κ] [Engine σ ω ε]

/-- The world a session's next statement runs in. -/
def world (c : Config κ σ ω ε ι α) (log : List ω) : World σ ι := ⟨c.view log, c.inputs, c.drawn⟩

theorem step_begin {p : Program σ ω ε ι α} {rest : List (Program σ ω ε ι α)}
    (hk : c.sessions k = .ready (p :: rest)) : c.step k = c.set k (.active p [] rest) := by
  unfold step
  rw [hk]

theorem step_write {effect : σ → Except ε (List ω)} {next : σ → Program σ ω ε ι α}
    {ws log : List ω} {rest : List (Program σ ω ε ι α)}
    (hk : c.sessions k = .active (.stmt effect next) log rest)
    (hw : effect (c.view log) = .ok ws) (hfree : ¬ c.Blocked k ws) :
    c.step k = c.set k (.active (next (c.view log)) (log ++ ws) rest) := by
  unfold step
  simp only [hk, hw, if_neg hfree]

theorem step_commit {a : α} {log : List ω} {rest : List (Program σ ω ε ι α)}
    (hk : c.sessions k = .active (.pure a) log rest) :
    c.step k = { c.set k (.done (.ok a) log) with committed := replay c.committed log } := by
  unfold step
  rw [hk]

/-- Some turns of the session in a row lead from one configuration to the other. -/
def Reaches (k : κ) (c c' : Config κ σ ω ε ι α) : Prop := ∃ n, c.run (List.replicate n k) = c'

theorem Reaches.refl (k : κ) (c : Config κ σ ω ε ι α) : Reaches k c c := ⟨0, rfl⟩

theorem reaches_step (k : κ) (c : Config κ σ ω ε ι α) : Reaches k c (c.step k) := ⟨1, rfl⟩

theorem Reaches.trans {c₁ c₂ c₃ : Config κ σ ω ε ι α} (h : Reaches k c₁ c₂)
    (h' : Reaches k c₂ c₃) : Reaches k c₁ c₃ := by
  obtain ⟨m, rfl⟩ := h
  obtain ⟨n, rfl⟩ := h'
  exact ⟨m + n, by rw [List.replicate_add, run_append]⟩

/-- A body that only reads is passed in some turns, and nothing else has changed. -/
theorem reaches_reads {p : Program σ ω ε ι β} {f : β → Program σ ω ε ι α} {log : List ω}
    {rest : List (Program σ ω ε ι α)} {b : β} {w' : World σ ι}
    (hk : c.sessions k = .active (p.bind f) log rest) (hp : p.ReadsOnly)
    (h : Runs p (c.world log) b w') : Reaches k c (c.set k (.active (f b) log rest)) := by
  induction p generalizing c with
  | pure a =>
    obtain ⟨rfl, -⟩ := runs_progPure_iff.mp h
    rw [show c.set k (.active (f b) log rest) = c from set_self hk.symm]
    exact .refl k c
  | throw e => exact absurd h not_runs_throw
  | stmt effect next ih =>
    obtain ⟨hreads, hnext⟩ := hp
    unfold Runs exec at h
    cases he : effect (c.world log).store with
    | error e => simp [he] at h
    | ok ws =>
      obtain rfl := hreads _ _ he
      simp only [he, replay_nil, World.withStore_self] at h
      have hstep := step_write hk he not_blocked_nil
      rw [List.append_nil] at hstep
      have hrest := ih (c := c.step k) (c.view log) (by rw [hstep, set_sessions_self])
        (hnext _) (by rwa [hstep])
      rw [hstep, set_set] at hrest
      exact (hstep ▸ reaches_step k c).trans hrest
  | draw next ih => exact hp.elim

/-- Where nobody else holds a write, the session commits what its body does alone. -/
theorem reaches_commit {p : Program σ ω ε ι α} {log : List ω} {rest : List (Program σ ω ε ι α)}
    {a : α} {w' : World σ ι} (hk : c.sessions k = .active p log rest)
    (hfree : ∀ j, j ≠ k → (c.sessions j).held = []) (h : Runs p (c.world log) a w') :
    ∃ log', Reaches k c
      { c.set k (.done (.ok a) log') with committed := w'.store, drawn := w'.drawn } := by
  induction p generalizing c log with
  | pure b =>
    obtain ⟨rfl, rfl⟩ := runs_progPure_iff.mp h
    refine ⟨log, ?_⟩
    have hstep := step_commit hk
    exact hstep ▸ reaches_step k c
  | throw e => exact absurd h not_runs_throw
  | stmt effect next ih =>
    unfold Runs exec at h
    cases he : effect (c.world log).store with
    | error e => simp [he] at h
    | ok ws =>
      simp only [he] at h
      have hstep := step_write hk he (not_blocked hfree ws)
      have hworld : (c.step k).world (log ++ ws) =
          (c.world log).withStore (replay (c.world log).store ws) := by
        rw [hstep]
        simp [world, view, World.withStore, set]
      obtain ⟨log', hrest⟩ := ih (c := c.step k) (c.view log) (by rw [hstep, set_sessions_self])
        (fun j hj => by rw [step_sessions_ne c hj, hfree j hj]) (by rw [hworld]; exact h)
      refine ⟨log', (reaches_step k c).trans ?_⟩
      rw [hstep] at hrest ⊢
      simpa [set] using hrest
  | draw next ih =>
    have hstep : c.step k = { c.set k (.active (next (c.inputs c.drawn)) log rest) with
        drawn := c.drawn + 1 } := by
      unfold step
      rw [hk]
    have hworld : (c.step k).world log = (c.world log).tick := by
      rw [hstep]
      rfl
    have hk' : (c.step k).sessions k = .active (next (c.inputs c.drawn)) log rest := by
      rw [hstep]
      exact set_sessions_self ..
    obtain ⟨log', hrest⟩ := ih (c.inputs c.drawn) hk'
      (fun j hj => by rw [step_sessions_ne c hj, hfree j hj]) (by rw [hworld]; exact h)
    refine ⟨log', (reaches_step k c).trans ?_⟩
    rw [hstep] at hrest ⊢
    simpa [set] using hrest

end Config
end AiKanban.Transactions
