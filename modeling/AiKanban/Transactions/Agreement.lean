import AiKanban.Transactions.Program

/-!
# Reading from two stores

A reading body agrees on two stores when it draws the same inputs and answers the same from
both. The rules compose such bodies; a later part may rely on what an earlier one returned.
-/
namespace AiKanban.Transactions

namespace Program

variable {σ ω ε ι α β : Type} [Replay σ ω] {s s' : σ}

/-- From either store the body gives one answer after the same inputs, and writes nothing. -/
def AgreesOn (s s' : σ) (p : Program σ ω ε ι α) : Prop :=
  ∀ inputs n, ∃ r m, exec p ⟨s, inputs, n⟩ = (r, ⟨s, inputs, m⟩) ∧
    exec p ⟨s', inputs, n⟩ = (r, ⟨s', inputs, m⟩)

/-- The body can return `a` from either store. -/
def Gives (s s' : σ) (p : Program σ ω ε ι α) (a : α) : Prop :=
  ∃ inputs n m, Runs p ⟨s, inputs, n⟩ a ⟨s, inputs, m⟩ ∧ Runs p ⟨s', inputs, n⟩ a ⟨s', inputs, m⟩

theorem agreesOn_pure (a : α) : (pure a : Program σ ω ε ι α).AgreesOn s s' :=
  fun _ n => ⟨.ok a, n, rfl, rfl⟩

theorem agreesOn_throw (e : ε) : (.throw e : Program σ ω ε ι α).AgreesOn s s' :=
  fun _ n => ⟨.error e, n, rfl, rfl⟩

theorem agreesOn_input : (.input : Program σ ω ε ι ι).AgreesOn s s' :=
  fun inputs n => ⟨.ok (inputs n), n + 1, rfl, rfl⟩

theorem agreesOn_read {query : σ → α} (h : query s = query s') :
    (.read query : Program σ ω ε ι α).AgreesOn s s' := by
  refine fun inputs n => ⟨.ok (query s), n, rfl, ?_⟩
  rw [h]
  rfl

theorem agreesOn_ofExcept (value : Except ε α) :
    (.ofExcept value : Program σ ω ε ι α).AgreesOn s s' := by
  cases value with
  | ok a => exact agreesOn_pure a
  | error e => exact agreesOn_throw e

theorem agreesOn_ensure (condition : Bool) (e : ε) :
    (.ensure condition e : Program σ ω ε ι Unit).AgreesOn s s' := by
  cases condition with
  | true => exact agreesOn_pure ()
  | false => exact agreesOn_throw e

theorem agreesOn_require (value : Option α) (e : ε) :
    (.require value e : Program σ ω ε ι α).AgreesOn s s' := by
  cases value with
  | some a => exact agreesOn_pure a
  | none => exact agreesOn_throw e

theorem AgreesOn.bind {p : Program σ ω ε ι α} {f : α → Program σ ω ε ι β} (hp : p.AgreesOn s s')
    (hf : ∀ a, p.Gives s s' a → (f a).AgreesOn s s') : (p >>= f).AgreesOn s s' := by
  intro inputs n
  change ∃ r m, exec (p.bind f) _ = _ ∧ exec (p.bind f) _ = _
  obtain ⟨r, m, h, h'⟩ := hp inputs n
  rw [exec_bind, exec_bind, h, h']
  cases r with
  | error e => exact ⟨.error e, m, rfl, rfl⟩
  | ok a => exact hf a ⟨inputs, n, m, h, h'⟩ inputs m

/-- A later part that agrees whatever the earlier one returned. -/
theorem AgreesOn.then {p : Program σ ω ε ι α} {f : α → Program σ ω ε ι β} (hp : p.AgreesOn s s')
    (hf : ∀ a, (f a).AgreesOn s s') : (p >>= f).AgreesOn s s' :=
  hp.bind fun a _ => hf a

theorem AgreesOn.map {p : Program σ ω ε ι α} (hp : p.AgreesOn s s') (f : α → β) :
    (f <$> p).AgreesOn s s' := by
  rw [← bind_pure_comp]
  exact hp.then fun _ => agreesOn_pure _

/-- Units of work that agree answer the same. -/
theorem AgreesOn.answers {p : Program σ ω ε ι α} {w w' : World σ ι}
    (hp : p.AgreesOn w.store w'.store) (hinputs : w'.inputs = w.inputs)
    (hdrawn : w'.drawn = w.drawn) : (transact p w').1 = (transact p w).1 := by
  obtain ⟨s, inputs, n⟩ := w
  obtain ⟨s', inputs', n'⟩ := w'
  subst hinputs hdrawn
  obtain ⟨r, m, h, h'⟩ := hp inputs' n'
  unfold transact
  rw [h, h']
  cases r <;> rfl

end Program
end AiKanban.Transactions
