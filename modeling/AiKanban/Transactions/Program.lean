import Mathlib.Data.List.Chain
import Mathlib.Order.Monotone.Basic
import Mathlib.Tactic

/-!
# Transaction bodies as programs over individual statements

A transaction body reads views of a store, appends row writes to its own log,
draws inputs (clock readings, fresh ids) from its environment, and either
returns or throws. The serial meaning `exec` runs a body alone on a store; the
same program is interleaved with others in `Interleaving`.
-/
namespace AiKanban.Transactions

/-- How one row write changes a store. -/
class Replay (σ ω : Type) where
  apply : σ → ω → σ

/-- The store after a transaction's pending writes. -/
def replay {σ ω : Type} [Replay σ ω] (s : σ) (log : List ω) : σ :=
  log.foldl Replay.apply s

section replay

variable {σ ω : Type} [Replay σ ω]

@[simp] theorem replay_nil (s : σ) : replay s ([] : List ω) = s := rfl

@[simp] theorem replay_cons (s : σ) (w : ω) (log : List ω) :
    replay s (w :: log) = replay (Replay.apply s w) log := rfl

@[simp] theorem replay_append (s : σ) (log log' : List ω) :
    replay s (log ++ log') = replay (replay s log) log' :=
  List.foldl_append

end replay

/-- A transaction body. A statement sees one view of the store: it either fails
or contributes row writes, and the rest of the body may use the view it saw. -/
inductive Program (σ ω ε ι α : Type) where
  | pure (a : α)
  | throw (e : ε)
  | stmt (effect : σ → Except ε (List ω)) (next : σ → Program σ ω ε ι α)
  | draw (next : ι → Program σ ω ε ι α)

namespace Program

variable {σ ω ε ι α β γ : Type}

def bind : Program σ ω ε ι α → (α → Program σ ω ε ι β) → Program σ ω ε ι β
  | .pure a, f => f a
  | .throw e, _ => .throw e
  | .stmt effect next, f => .stmt effect fun v => (next v).bind f
  | .draw next, f => .draw fun i => (next i).bind f

instance : Monad (Program σ ω ε ι) where
  pure := .pure
  bind := bind

theorem bind_pure_right (p : Program σ ω ε ι α) : p.bind .pure = p := by
  induction p with
  | pure a => rfl
  | throw e => rfl
  | stmt effect next ih => simp only [bind, ih]
  | draw next ih => simp only [bind, ih]

theorem bind_assoc (p : Program σ ω ε ι α) (f : α → Program σ ω ε ι β)
    (g : β → Program σ ω ε ι γ) : (p.bind f).bind g = p.bind fun a => (f a).bind g := by
  induction p with
  | pure a => rfl
  | throw e => rfl
  | stmt effect next ih => simp only [bind, ih]
  | draw next ih => simp only [bind, ih]

instance : LawfulMonad (Program σ ω ε ι) :=
  LawfulMonad.mk' _ bind_pure_right (fun _ _ => rfl) bind_assoc

/-- One `SELECT`: a value computed from a single view. -/
def read (query : σ → α) : Program σ ω ε ι α :=
  .stmt (fun _ => .ok []) fun v => .pure (query v)

/-- One `INSERT`, `UPDATE` or `DELETE`. -/
def write (effect : σ → Except ε (List ω)) : Program σ ω ε ι Unit :=
  .stmt effect fun _ => .pure ()

/-- The next input of the environment. -/
def input : Program σ ω ε ι ι := .draw .pure

/-- Go on only when the condition holds. -/
def ensure (condition : Bool) (e : ε) : Program σ ω ε ι Unit :=
  if condition then .pure () else .throw e

/-- Unwrap a value that has to be there. -/
def require (value : Option α) (e : ε) : Program σ ω ε ι α :=
  match value with
  | some a => .pure a
  | none => .throw e

/-- Go on with a checked value. -/
def ofExcept : Except ε α → Program σ ω ε ι α
  | .ok a => .pure a
  | .error e => .throw e

/-- Visit the elements of a list in order, threading an accumulator. -/
def foldM (step : β → α → Program σ ω ε ι β) : β → List α → Program σ ω ε ι β
  | b, [] => .pure b
  | b, a :: as => (step b a).bind fun b' => foldM step b' as

/-- Visit the elements of a list in order. -/
def forEach (body : α → Program σ ω ε ι Unit) : List α → Program σ ω ε ι Unit
  | [] => .pure ()
  | a :: as => (body a).bind fun _ => forEach body as

/-- The body only reads: no statement logs a write and nothing is drawn. -/
def ReadsOnly : Program σ ω ε ι α → Prop
  | .pure _ => True
  | .throw _ => True
  | .stmt effect next => (∀ v ws, effect v = .ok ws → ws = []) ∧ ∀ v, ReadsOnly (next v)
  | .draw _ => False

theorem ReadsOnly.bind {p : Program σ ω ε ι α} {f : α → Program σ ω ε ι β} (hp : p.ReadsOnly)
    (hf : ∀ a, (f a).ReadsOnly) : (p >>= f).ReadsOnly := by
  change (p.bind f).ReadsOnly
  induction p with
  | pure a => exact hf a
  | throw e => trivial
  | stmt effect next ih => exact ⟨hp.1, fun v => ih v (hp.2 v)⟩
  | draw next ih => exact hp.elim

theorem readsOnly_pure (a : α) : (pure a : Program σ ω ε ι α).ReadsOnly := trivial

theorem readsOnly_read (query : σ → α) : (.read query : Program σ ω ε ι α).ReadsOnly := by
  refine ⟨fun v ws h => ?_, fun _ => trivial⟩
  cases h
  rfl

theorem readsOnly_ensure (condition : Bool) (e : ε) :
    (.ensure condition e : Program σ ω ε ι Unit).ReadsOnly := by
  cases condition <;> trivial

theorem readsOnly_require (value : Option α) (e : ε) :
    (.require value e : Program σ ω ε ι α).ReadsOnly := by
  cases value <;> trivial

theorem readsOnly_ofExcept (value : Except ε α) :
    (.ofExcept value : Program σ ω ε ι α).ReadsOnly := by
  cases value <;> trivial

end Program

/-- A store together with the environment's inputs and how many were drawn. -/
structure World (σ ι : Type) where
  store : σ
  inputs : ℕ → ι
  drawn : ℕ

namespace World

variable {σ ι : Type}

/-- The input the next draw will see. -/
def peek (w : World σ ι) : ι := w.inputs w.drawn

/-- One input has been drawn. -/
def tick (w : World σ ι) : World σ ι := { w with drawn := w.drawn + 1 }

def withStore (w : World σ ι) (s : σ) : World σ ι := { w with store := s }

@[simp] theorem tick_store (w : World σ ι) : w.tick.store = w.store := rfl
@[simp] theorem tick_inputs (w : World σ ι) : w.tick.inputs = w.inputs := rfl
@[simp] theorem tick_drawn (w : World σ ι) : w.tick.drawn = w.drawn + 1 := rfl
@[simp] theorem withStore_store (w : World σ ι) (s : σ) : (w.withStore s).store = s := rfl
@[simp] theorem withStore_inputs (w : World σ ι) (s : σ) :
    (w.withStore s).inputs = w.inputs := rfl
@[simp] theorem withStore_drawn (w : World σ ι) (s : σ) : (w.withStore s).drawn = w.drawn := rfl
@[simp] theorem withStore_withStore (w : World σ ι) (s s' : σ) :
    (w.withStore s).withStore s' = w.withStore s' := rfl
@[simp] theorem withStore_self (w : World σ ι) : w.withStore w.store = w := rfl

end World

section exec

variable {σ ω ε ι α β : Type} [Replay σ ω]

/-- Run a body alone: every statement sees all of its own earlier writes. -/
def exec : Program σ ω ε ι α → World σ ι → Except ε α × World σ ι
  | .pure a, w => (.ok a, w)
  | .throw e, w => (.error e, w)
  | .stmt effect next, w =>
      match effect w.store with
      | .error e => (.error e, w)
      | .ok ws => exec (next w.store) (w.withStore (replay w.store ws))
  | .draw next, w => exec (next w.peek) w.tick

/-- A unit of work: a body that throws leaves the store as it was. The inputs it
drew stay drawn. -/
def transact (p : Program σ ω ε ι α) (w : World σ ι) : Except ε α × World σ ι :=
  match exec p w with
  | (.ok a, w') => (.ok a, w')
  | (.error e, w') => (.error e, w'.withStore w.store)

/-- The body succeeds from `w` with result `a` and ends in `w'`. -/
def Runs (p : Program σ ω ε ι α) (w : World σ ι) (a : α) (w' : World σ ι) : Prop :=
  exec p w = (.ok a, w')

theorem exec_bind (p : Program σ ω ε ι α) (f : α → Program σ ω ε ι β) (w : World σ ι) :
    exec (p.bind f) w =
      match exec p w with
      | (.ok a, w') => exec (f a) w'
      | (.error e, w') => (.error e, w') := by
  induction p generalizing w with
  | pure a => rfl
  | throw e => rfl
  | stmt effect next ih =>
    simp only [Program.bind, exec]
    cases effect w.store with
    | error e => rfl
    | ok ws => exact ih _ _
  | draw next ih => exact ih _ _

@[simp] theorem runs_bind_iff {p : Program σ ω ε ι α} {f : α → Program σ ω ε ι β}
    {w w' : World σ ι} {b : β} :
    Runs (p >>= f) w b w' ↔ ∃ a w₁, Runs p w a w₁ ∧ Runs (f a) w₁ b w' := by
  change exec (p.bind f) w = _ ↔ _
  rw [exec_bind]
  unfold Runs
  rcases exec p w with ⟨_ | a, w₁⟩
  · simp
  · constructor
    · exact fun h => ⟨a, w₁, rfl, h⟩
    · rintro ⟨a', w₁', h, h'⟩
      cases h
      exact h'

@[simp] theorem runs_progBind_iff {p : Program σ ω ε ι α} {f : α → Program σ ω ε ι β}
    {w w' : World σ ι} {b : β} :
    Runs (p.bind f) w b w' ↔ ∃ a w₁, Runs p w a w₁ ∧ Runs (f a) w₁ b w' :=
  runs_bind_iff

@[simp] theorem runs_pure_iff {a b : α} {w w' : World σ ι} :
    Runs (pure a : Program σ ω ε ι α) w b w' ↔ b = a ∧ w' = w := by
  change ((Except.ok a : Except ε α), w) = (.ok b, w') ↔ _
  simp [eq_comm]

@[simp] theorem runs_progPure_iff {a b : α} {w w' : World σ ι} :
    Runs (.pure a : Program σ ω ε ι α) w b w' ↔ b = a ∧ w' = w :=
  runs_pure_iff

@[simp] theorem runs_map_iff {p : Program σ ω ε ι α} {f : α → β} {b : β} {w w' : World σ ι} :
    Runs (f <$> p) w b w' ↔ ∃ a, Runs p w a w' ∧ b = f a := by
  rw [← bind_pure_comp, runs_bind_iff]
  constructor
  · rintro ⟨a, w₁, hp, hf⟩
    obtain ⟨rfl, rfl⟩ := runs_pure_iff.mp hf
    exact ⟨a, hp, rfl⟩
  · rintro ⟨a, hp, rfl⟩
    exact ⟨a, w', hp, runs_pure_iff.mpr ⟨rfl, rfl⟩⟩

@[simp] theorem not_runs_throw {e : ε} {a : α} {w w' : World σ ι} :
    ¬ Runs (.throw e : Program σ ω ε ι α) w a w' := by
  simp [Runs, exec]

@[simp] theorem runs_read_iff {query : σ → α} {a : α} {w w' : World σ ι} :
    Runs (.read query : Program σ ω ε ι α) w a w' ↔ a = query w.store ∧ w' = w := by
  simp [Runs, Program.read, exec, eq_comm]

@[simp] theorem runs_write_iff {effect : σ → Except ε (List ω)} {u : Unit} {w w' : World σ ι} :
    Runs (.write effect : Program σ ω ε ι Unit) w u w' ↔
      ∃ ws, effect w.store = .ok ws ∧ w' = w.withStore (replay w.store ws) := by
  simp only [Runs, Program.write, exec]
  cases effect w.store <;> simp [eq_comm]

@[simp] theorem runs_input_iff {i : ι} {w w' : World σ ι} :
    Runs (.input : Program σ ω ε ι ι) w i w' ↔ i = w.peek ∧ w' = w.tick := by
  simp [Runs, Program.input, exec, eq_comm]

@[simp] theorem runs_ensure_iff {condition : Bool} {e : ε} {u : Unit} {w w' : World σ ι} :
    Runs (.ensure condition e : Program σ ω ε ι Unit) w u w' ↔ condition = true ∧ w' = w := by
  cases condition <;> simp [Program.ensure]

@[simp] theorem runs_require_iff {value : Option α} {e : ε} {a : α} {w w' : World σ ι} :
    Runs (.require value e : Program σ ω ε ι α) w a w' ↔ value = some a ∧ w' = w := by
  cases value <;> simp [Program.require, eq_comm]

@[simp] theorem runs_ofExcept_iff {value : Except ε α} {a : α} {w w' : World σ ι} :
    Runs (.ofExcept value : Program σ ω ε ι α) w a w' ↔ value = .ok a ∧ w' = w := by
  cases value <;> simp [Program.ofExcept, eq_comm]

/-- A body that only reads leaves the world as it was. -/
theorem Runs.of_readsOnly {p : Program σ ω ε ι α} {w w' : World σ ι} {a : α}
    (h : Runs p w a w') (hp : p.ReadsOnly) : w' = w := by
  induction p generalizing w with
  | pure b => exact (runs_progPure_iff.mp h).2
  | throw e => exact absurd h not_runs_throw
  | stmt effect next ih =>
    unfold Runs exec at h
    cases he : effect w.store with
    | error e => simp [he] at h
    | ok ws =>
      simp only [he, hp.1 _ _ he, replay_nil, World.withStore_self] at h
      exact ih _ h (hp.2 _)
  | draw next ih => exact hp.elim

/-- What a body that only reads returns depends on the store alone. -/
theorem Runs.of_store {p : Program σ ω ε ι α} {w w₁ : World σ ι} {a : α} (h : Runs p w a w)
    (hp : p.ReadsOnly) (hstore : w₁.store = w.store) : Runs p w₁ a w₁ := by
  induction p with
  | pure b => exact runs_progPure_iff.mpr ⟨(runs_progPure_iff.mp h).1, rfl⟩
  | throw e => exact absurd h not_runs_throw
  | stmt effect next ih =>
    unfold Runs exec at h ⊢
    rw [hstore]
    cases he : effect w.store with
    | error e => simp [he] at h
    | ok ws =>
      simp only [he, hp.1 _ _ he, replay_nil, World.withStore_self] at h
      simp only [hp.1 _ _ he, replay_nil]
      rw [show w₁.withStore w.store = w₁ by rw [← hstore]; rfl]
      exact ih _ h (hp.2 _)
  | draw next ih => exact hp.elim

theorem runs_ite_iff {c : Prop} [Decidable c] {p q : Program σ ω ε ι α} {a : α}
    {w w' : World σ ι} :
    Runs (if c then p else q) w a w' ↔ c ∧ Runs p w a w' ∨ ¬ c ∧ Runs q w a w' := by
  by_cases h : c <;> simp [h]

/-- A body succeeds when its first part does and the rest does after it. -/
theorem exists_runs_bind {p : Program σ ω ε ι α} {f : α → Program σ ω ε ι β} {a : α}
    {w w₁ : World σ ι} (hp : Runs p w a w₁) (hf : ∃ b w', Runs (f a) w₁ b w') :
    ∃ b w', Runs (p >>= f) w b w' := by
  obtain ⟨b, w', hb⟩ := hf
  exact ⟨b, w', runs_bind_iff.mpr ⟨a, w₁, hp, hb⟩⟩

/-- What every visit of a list keeps holds after the last one. -/
theorem Runs.foldM_induction {step : β → α → Program σ ω ε ι β} {I : β → World σ ι → Prop}
    {as : List α}
    (hstep : ∀ b, ∀ a ∈ as, ∀ w b' w', I b w → Runs (step b a) w b' w' → I b' w')
    {b b' : β} {w w' : World σ ι} (hI : I b w) (h : Runs (Program.foldM step b as) w b' w') :
    I b' w' := by
  induction as generalizing b w with
  | nil =>
    obtain ⟨rfl, rfl⟩ := runs_progPure_iff.mp h
    exact hI
  | cons a as ih =>
    obtain ⟨b₁, w₁, ha, has⟩ := runs_progBind_iff.mp h
    exact ih (fun b x hx => hstep b x (List.mem_cons_of_mem a hx))
      (hstep b a (by simp) w b₁ w₁ hI ha) has

/-- What every visit of a list without a result keeps holds after the last one. -/
theorem Runs.forEach_induction {body : α → Program σ ω ε ι Unit} {I : World σ ι → Prop}
    {as : List α} (hbody : ∀ a ∈ as, ∀ w u w', I w → Runs (body a) w u w' → I w')
    {u : Unit} {w w' : World σ ι} (hI : I w) (h : Runs (Program.forEach body as) w u w') :
    I w' := by
  induction as generalizing w with
  | nil =>
    obtain ⟨-, rfl⟩ := runs_progPure_iff.mp h
    exact hI
  | cons a as ih =>
    obtain ⟨u₁, w₁, ha, has⟩ := runs_progBind_iff.mp h
    exact ih (fun x hx => hbody x (List.mem_cons_of_mem a hx))
      (hbody a (by simp) w u₁ w₁ hI ha) has

/-- A body never rewrites the environment, and draws only forward. -/
theorem exec_inputs (p : Program σ ω ε ι α) (w : World σ ι) :
    (exec p w).2.inputs = w.inputs ∧ w.drawn ≤ (exec p w).2.drawn := by
  induction p generalizing w with
  | pure a => exact ⟨rfl, le_rfl⟩
  | throw e => exact ⟨rfl, le_rfl⟩
  | stmt effect next ih =>
    simp only [exec]
    cases effect w.store with
    | error e => exact ⟨rfl, le_rfl⟩
    | ok ws => exact ih _ _
  | draw next ih =>
    obtain ⟨hi, hd⟩ := ih w.peek w.tick
    exact ⟨hi, (Nat.le_succ _).trans hd⟩

theorem Runs.inputs {p : Program σ ω ε ι α} {w w' : World σ ι} {a : α} (h : Runs p w a w') :
    w'.inputs = w.inputs := by
  have hi := (exec_inputs p w).1
  rwa [h] at hi

theorem Runs.drawn_le {p : Program σ ω ε ι α} {w w' : World σ ι} {a : α} (h : Runs p w a w') :
    w.drawn ≤ w'.drawn := by
  have hd := (exec_inputs p w).2
  rwa [h] at hd

theorem transact_inputs (p : Program σ ω ε ι α) (w : World σ ι) :
    (transact p w).2.inputs = w.inputs ∧ w.drawn ≤ (transact p w).2.drawn := by
  have h := exec_inputs p w
  unfold transact
  rcases he : exec p w with ⟨_ | a, w'⟩ <;> rw [he] at h <;> exact h

/-- A body fails as its first part does. -/
theorem transact_bind_error {p : Program σ ω ε ι α} {w : World σ ι} {e : ε}
    (h : (transact p w).1 = .error e) (f : α → Program σ ω ε ι β) :
    (transact (p >>= f) w).1 = .error e := by
  have hexec := exec_bind p f w
  unfold transact at h ⊢
  change (match exec (p.bind f) w with
    | (.ok b, w') => (Except.ok b, w')
    | (.error e, w') => (.error e, w'.withStore w.store)).1 = _
  rw [hexec]
  rcases hp : exec p w with ⟨_ | a, w₁⟩
  · simpa [hp] using h
  · simp [hp] at h

theorem transact_ok_iff {p : Program σ ω ε ι α} {w w' : World σ ι} {a : α} :
    transact p w = (.ok a, w') ↔ Runs p w a w' := by
  unfold transact Runs
  rcases exec p w with ⟨_ | b, w₁⟩ <;> simp

/-- A rejected unit of work leaves the store unchanged. -/
theorem transact_error {p : Program σ ω ε ι α} {w w' : World σ ι} {e : ε}
    (h : transact p w = (.error e, w')) : w'.store = w.store := by
  unfold transact at h
  rcases he : exec p w with ⟨_ | b, w₁⟩
  · simp only [he, Prod.mk.injEq] at h
    simp [← h.2]
  · simp [he] at h

/-- Run a body; a retryable failure runs the next attempt in a unit of work of its own. -/
def attempt (retryable : ε → Bool) (p : Program σ ω ε ι α) :
    List (Program σ ω ε ι α) → World σ ι → Except ε α × World σ ι
  | [], w => transact p w
  | q :: rest, w =>
      match transact p w with
      | (.error e, w') => if retryable e then attempt retryable q rest w' else (.error e, w')
      | (.ok a, w') => (.ok a, w')

/-- One attempt succeeds on the store as it was, or none does and the store stays. -/
theorem attempt_cases {retryable : ε → Bool} {p : Program σ ω ε ι α}
    {rest : List (Program σ ω ε ι α)} {w w' : World σ ι} {r : Except ε α}
    (h : attempt retryable p rest w = (r, w')) :
    (∃ e, r = .error e ∧ w'.store = w.store ∧ w'.inputs = w.inputs ∧ w.drawn ≤ w'.drawn) ∨
      ∃ q ∈ p :: rest, ∃ a w₁, r = .ok a ∧ w₁.store = w.store ∧ w₁.inputs = w.inputs ∧
        w.drawn ≤ w₁.drawn ∧ Runs q w₁ a w' := by
  induction rest generalizing p w with
  | nil =>
    have hi := transact_inputs p w
    rw [attempt] at h
    rw [h] at hi
    cases r with
    | error e => exact .inl ⟨e, rfl, transact_error h, hi⟩
    | ok a =>
      exact .inr ⟨p, by simp, a, w, rfl, rfl, rfl, le_rfl, transact_ok_iff.mp h⟩
  | cons q rest ih =>
    have hi := transact_inputs p w
    rw [attempt] at h
    rcases ht : transact p w with ⟨e | a, w₁⟩
    · rw [ht] at h hi
      have hs := transact_error ht
      by_cases he : retryable e = true
      · simp only [he, if_true] at h
        rcases ih h with ⟨e', hr, hs', hin, hd⟩ | ⟨q', hq, a, w₂, hr, hs', hin, hd, hrun⟩
        · exact .inl ⟨e', hr, hs'.trans hs, hin.trans hi.1, hi.2.trans hd⟩
        · exact .inr ⟨q', List.mem_cons_of_mem p hq, a, w₂, hr, hs'.trans hs, hin.trans hi.1,
            hi.2.trans hd, hrun⟩
      · simp only [he] at h
        cases h
        exact .inl ⟨e, rfl, hs, hi⟩
    · rw [ht] at h
      cases h
      exact .inr ⟨p, by simp, a, w, rfl, rfl, rfl, le_rfl, transact_ok_iff.mp ht⟩

/-- The worlds after each unit of work the attempts go through. -/
def attemptUnits (retryable : ε → Bool) (p : Program σ ω ε ι α) :
    List (Program σ ω ε ι α) → World σ ι → List (World σ ι)
  | [], w => [(transact p w).2]
  | q :: rest, w =>
      match transact p w with
      | (.error e, w') => if retryable e then w' :: attemptUnits retryable q rest w' else [w']
      | (.ok _, w') => [w']

theorem attempt_mem_attemptUnits (retryable : ε → Bool) (p : Program σ ω ε ι α)
    (rest : List (Program σ ω ε ι α)) (w : World σ ι) :
    (attempt retryable p rest w).2 ∈ attemptUnits retryable p rest w := by
  induction rest generalizing p w with
  | nil => simp [attempt, attemptUnits]
  | cons q rest ih =>
    rw [attempt, attemptUnits]
    rcases transact p w with ⟨e | a, w'⟩
    · by_cases he : retryable e = true
      · simp only [he, if_true]
        exact List.mem_cons_of_mem _ (ih q w')
      · simp [he]
    · simp

/-- Each unit of work starts from the store the first one started from. -/
theorem attemptUnits_chain {R : World σ ι → World σ ι → Prop} {retryable : ε → Bool}
    {p : Program σ ω ε ι α} {rest : List (Program σ ω ε ι α)} {w : World σ ι}
    (h : ∀ q ∈ p :: rest, ∀ w₁ : World σ ι, w₁.store = w.store → R w₁ (transact q w₁).2) :
    List.IsChain R (w :: attemptUnits retryable p rest w) := by
  induction rest generalizing p w with
  | nil => simpa [attemptUnits] using h p (by simp) w rfl
  | cons q rest ih =>
    have hfirst := h p (by simp) w rfl
    rw [attemptUnits]
    rcases ht : transact p w with ⟨e | a, w'⟩
    · rw [ht] at hfirst
      have hs : w'.store = w.store := transact_error ht
      by_cases he : retryable e = true
      · simp only [he, if_true, List.isChain_cons_cons]
        refine ⟨hfirst, ih fun q' hq' w₁ hw₁ => ?_⟩
        exact h q' (List.mem_cons_of_mem p hq') w₁ (hw₁.trans hs)
      · simpa [he] using hfirst
    · rw [ht] at hfirst
      simpa using hfirst

end exec

end AiKanban.Transactions
