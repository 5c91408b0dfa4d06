import AiKanban.Transactions.Program

/-!
# Contracts of transaction bodies under arbitrary views

`Meets rely guar post p log` holds when, whatever views `rely` admits for the
writes made so far, every further write of `p` is one `guar` permits there and
the body ends as `post` says. Serial runs and interleaved runs are two instances
of the views a body can be shown, so one contract serves both.
-/
namespace AiKanban.Transactions
namespace Program

variable {σ ω ε ι α β : Type}

section Meets

variable (rely : List ω → σ → Prop) (guar : List ω → ω → Prop)

def Meets (post : Except ε α → List ω → Prop) : Program σ ω ε ι α → List ω → Prop
  | .pure a, log => post (.ok a) log
  | .throw e, log => post (.error e) log
  | .stmt effect next, log => ∀ v, rely log v →
      (∀ e, effect v = .error e → post (.error e) log) ∧
      ∀ ws, effect v = .ok ws → (∀ w ∈ ws, guar log w) ∧ Meets post (next v) (log ++ ws)
  | .draw next, log => ∀ i, Meets post (next i) log

variable {rely guar}

/-- What a body promises to the rest of a longer one. -/
def andThen (f : α → Program σ ω ε ι β) (rely : List ω → σ → Prop) (guar : List ω → ω → Prop)
    (post : Except ε β → List ω → Prop) : Except ε α → List ω → Prop
  | .ok a, log => Meets rely guar post (f a) log
  | .error e, log => post (.error e) log

theorem meets_bind_iff {p : Program σ ω ε ι α} {f : α → Program σ ω ε ι β}
    {post : Except ε β → List ω → Prop} {log : List ω} :
    Meets rely guar post (p.bind f) log ↔ Meets rely guar (andThen f rely guar post) p log := by
  induction p generalizing log with
  | pure a => rfl
  | throw e => rfl
  | stmt effect next ih => simp only [bind, Meets, ih, andThen]
  | draw next ih => simp only [bind, Meets, ih]

theorem Meets.bind {p : Program σ ω ε ι α} {f : α → Program σ ω ε ι β}
    {post : Except ε β → List ω → Prop} {log : List ω}
    (h : Meets rely guar (andThen f rely guar post) p log) :
    Meets rely guar post (p >>= f) log :=
  meets_bind_iff.mpr h

theorem Meets.mono {p : Program σ ω ε ι α} {post post' : Except ε α → List ω → Prop}
    (himp : ∀ r log, post r log → post' r log) {log : List ω}
    (h : Meets rely guar post p log) : Meets rely guar post' p log := by
  induction p generalizing log with
  | pure a => exact himp _ _ h
  | throw e => exact himp _ _ h
  | stmt effect next ih =>
    intro v hv
    obtain ⟨he, hw⟩ := h v hv
    exact ⟨fun e h' => himp _ _ (he e h'), fun ws h' => ⟨(hw ws h').1, ih _ (hw ws h').2⟩⟩
  | draw next ih => exact fun i => ih i (h i)

theorem meets_read {query : σ → α} {post : Except ε α → List ω → Prop} {log : List ω}
    (h : ∀ v, rely log v → post (.ok (query v)) log) :
    Meets rely guar post (.read query : Program σ ω ε ι α) log := by
  intro v hv
  refine ⟨fun e he => (by cases he), fun ws hws => ?_⟩
  cases hws
  exact ⟨by simp, by simpa [Meets] using h v hv⟩

theorem meets_write {effect : σ → Except ε (List ω)} {post : Except ε Unit → List ω → Prop}
    {log : List ω} (he : ∀ v e, rely log v → effect v = .error e → post (.error e) log)
    (hw : ∀ v ws, rely log v → effect v = .ok ws →
      (∀ w ∈ ws, guar log w) ∧ post (.ok ()) (log ++ ws)) :
    Meets rely guar post (.write effect : Program σ ω ε ι Unit) log :=
  fun v hv => ⟨fun e h => he v e hv h, fun ws h => hw v ws hv h⟩

/-- A value that has to be there before the rest of a body. -/
theorem meets_require_bind {value : Option α} {e : ε} {f : α → Program σ ω ε ι β}
    {post : Except ε β → List ω → Prop} {log : List ω} (herr : post (.error e) log)
    (hf : ∀ a, value = some a → Meets rely guar post (f a) log) :
    Meets rely guar post (.require value e >>= f) log := by
  cases value with
  | none => exact herr
  | some a => exact hf a rfl

end Meets

/-- The writes a log may hold when each was permitted by the writes before it. -/
inductive Permitted (guar : List ω → ω → Prop) : List ω → Prop where
  | nil : Permitted guar []
  | append {log ws : List ω} : Permitted guar log → (∀ w ∈ ws, guar log w) →
      Permitted guar (log ++ ws)

theorem Permitted.mem {guar : List ω → ω → Prop} {log : List ω} (h : Permitted guar log) :
    ∀ w ∈ log, ∃ before after, log = before ++ after ∧ guar before w := by
  induction h with
  | nil => simp
  | @append log ws _ hws ih =>
    intro w hw
    rcases List.mem_append.mp hw with hw | hw
    · obtain ⟨before, after, rfl, hguar⟩ := ih w hw
      exact ⟨before, after ++ ws, List.append_assoc .., hguar⟩
    · exact ⟨log, ws, rfl, hws w hw⟩

/-- Every write of the body satisfies `W`, whatever it is shown. -/
def Writes (W : ω → Prop) : Program σ ω ε ι α → Prop
  | .pure _ => True
  | .throw _ => True
  | .stmt effect next => (∀ v ws, effect v = .ok ws → ∀ w ∈ ws, W w) ∧ ∀ v, Writes W (next v)
  | .draw next => ∀ i, Writes W (next i)

section Writes

variable {W : ω → Prop}

theorem Writes.bind {p : Program σ ω ε ι α} {f : α → Program σ ω ε ι β}
    (hp : Writes W p) (hf : ∀ a, Writes W (f a)) : Writes W (p >>= f) := by
  change Writes W (p.bind f)
  induction p with
  | pure a => exact hf a
  | throw e => trivial
  | stmt effect next ih => exact ⟨hp.1, fun v => ih v (hp.2 v)⟩
  | draw next ih => exact fun i => ih i (hp i)

theorem Writes.mono {W' : ω → Prop} (himp : ∀ w, W w → W' w) {p : Program σ ω ε ι α}
    (h : Writes W p) : Writes W' p := by
  induction p with
  | pure a => trivial
  | throw e => trivial
  | stmt effect next ih =>
    exact ⟨fun v ws hws w hw => himp w (h.1 v ws hws w hw), fun v => ih v (h.2 v)⟩
  | draw next ih => exact fun i => ih i (h i)

@[simp] theorem writes_pure (a : α) : Writes W (pure a : Program σ ω ε ι α) := trivial

@[simp] theorem writes_throw (e : ε) : Writes W (.throw e : Program σ ω ε ι α) := trivial

@[simp] theorem writes_read (query : σ → α) : Writes W (.read query : Program σ ω ε ι α) :=
  ⟨fun v ws h => by cases h; simp, fun _ => trivial⟩

theorem writes_write {effect : σ → Except ε (List ω)}
    (h : ∀ v ws, effect v = .ok ws → ∀ w ∈ ws, W w) :
    Writes W (.write effect : Program σ ω ε ι Unit) :=
  ⟨h, fun _ => trivial⟩

@[simp] theorem writes_input : Writes W (.input : Program σ ω ε ι ι) := fun _ => trivial

@[simp] theorem writes_ensure (condition : Bool) (e : ε) :
    Writes W (.ensure condition e : Program σ ω ε ι Unit) := by
  cases condition <;> trivial

@[simp] theorem writes_require (value : Option α) (e : ε) :
    Writes W (.require value e : Program σ ω ε ι α) := by
  cases value <;> trivial

@[simp] theorem writes_ofExcept (value : Except ε α) :
    Writes W (.ofExcept value : Program σ ω ε ι α) := by
  cases value <;> trivial

/-- What follows a read is only ever shown what some view holds. -/
theorem writes_read_bind {query : σ → α} {f : α → Program σ ω ε ι β}
    (h : ∀ v, Writes W (f (query v))) : Writes W (.read query >>= f) :=
  ⟨fun v ws hws => by cases hws; simp, h⟩

theorem writes_require_bind {value : Option α} {e : ε} {f : α → Program σ ω ε ι β}
    (h : ∀ a, value = some a → Writes W (f a)) : Writes W (.require value e >>= f) := by
  cases value with
  | none => trivial
  | some a => exact h a rfl

theorem ReadsOnly.writes {p : Program σ ω ε ι α} (h : p.ReadsOnly) : Writes W p := by
  induction p with
  | pure a => trivial
  | throw e => trivial
  | stmt effect next ih =>
    refine ⟨fun v ws hws w hw => ?_, fun v => ih v (h.2 v)⟩
    rw [h.1 v ws hws] at hw
    cases hw
  | draw next ih => exact h.elim

theorem writes_forEach {body : α → Program σ ω ε ι Unit} (h : ∀ a, Writes W (body a))
    (as : List α) : Writes W (forEach body as) := by
  induction as with
  | nil => trivial
  | cons a as ih => exact (h a).bind fun _ => ih

theorem writes_foldM {step : β → α → Program σ ω ε ι β} (h : ∀ b a, Writes W (step b a))
    (b : β) (as : List α) : Writes W (foldM step b as) := by
  induction as generalizing b with
  | nil => trivial
  | cons a as ih => exact (h b a).bind fun b' => ih b'

/-- A part whose writes are permitted wherever they come keeps the contract of the whole. -/
theorem Writes.meets {rely : List ω → σ → Prop} {guar : List ω → ω → Prop}
    {post : Except ε α → List ω → Prop} {p : Program σ ω ε ι α} {log : List ω} (hp : Writes W p)
    (hguar : ∀ log w, W w → guar log w)
    (hpost : ∀ r ws, (∀ w ∈ ws, W w) → post r (log ++ ws)) : Meets rely guar post p log := by
  have hhere : ∀ r, post r log := fun r => by simpa using hpost r [] (by simp)
  induction p generalizing log with
  | pure a => exact hhere _
  | throw e => exact hhere _
  | stmt effect next ih =>
    intro v _
    refine ⟨fun e _ => hhere _, fun ws hws => ?_⟩
    have hlogged : ∀ r ws', (∀ w ∈ ws', W w) → post r (log ++ ws ++ ws') := by
      intro r ws' hws'
      rw [List.append_assoc]
      refine hpost r _ fun w hw => ?_
      rcases List.mem_append.mp hw with hw | hw
      · exact hp.1 v ws hws w hw
      · exact hws' w hw
    exact ⟨fun w hw => hguar log w (hp.1 v ws hws w hw),
      ih v (hp.2 v) hlogged fun r => by simpa using hlogged r [] (by simp)⟩
  | draw next ih => exact fun i => ih i (hp i) hpost hhere

/-- A silent part before the rest of a body: whatever it returns, the rest goes on from the
same log. -/
theorem Writes.meets_bind {rely : List ω → σ → Prop} {guar : List ω → ω → Prop}
    {post : Except ε β → List ω → Prop} {p : Program σ ω ε ι α} {f : α → Program σ ω ε ι β}
    {log : List ω} (hp : Writes (fun _ => False) p) (herr : ∀ e, post (.error e) log)
    (hf : ∀ a, Meets rely guar post (f a) log) : Meets rely guar post (p >>= f) log := by
  refine Meets.bind (hp.meets (fun _ _ h => h.elim) fun r ws hws => ?_)
  rw [List.eq_nil_iff_forall_not_mem.mpr hws, List.append_nil]
  cases r with
  | ok a => exact hf a
  | error e => exact herr e

end Writes

end Program

open Program

variable {σ ω ε ι α : Type} [Replay σ ω]

/-- A serial run is one way of being shown views: the store under the log so far. -/
theorem exec_of_meets {rely : List ω → σ → Prop} {guar : List ω → ω → Prop}
    {post : Except ε α → List ω → Prop} (s : σ)
    (hrely : ∀ log, Permitted guar log → rely log (replay s log)) :
    ∀ (p : Program σ ω ε ι α) (log : List ω) (w : World σ ι), Permitted guar log →
      w.store = replay s log → Meets rely guar post p log →
      ∃ log', Permitted guar log' ∧ (exec p w).2.store = replay s log' ∧
        post (exec p w).1 log' := by
  intro p
  induction p with
  | pure a => exact fun log w hl hw h => ⟨log, hl, hw, h⟩
  | throw e => exact fun log w hl hw h => ⟨log, hl, hw, h⟩
  | stmt effect next ih =>
    intro log w hl hw h
    obtain ⟨he, hk⟩ := h w.store (hw ▸ hrely log hl)
    simp only [exec]
    cases hv : effect w.store with
    | error e => exact ⟨log, hl, hw, he e hv⟩
    | ok ws =>
      obtain ⟨hg, hm⟩ := hk ws hv
      exact ih w.store (log ++ ws) _ (hl.append hg) (by simp [hw]) hm
  | draw next ih => exact fun log w hl hw h => ih w.peek log w.tick hl hw (h _)

theorem Runs.of_meets {rely : List ω → σ → Prop} {guar : List ω → ω → Prop}
    {post : Except ε α → List ω → Prop} {p : Program σ ω ε ι α} {w w' : World σ ι} {a : α}
    (h : Runs p w a w') (hp : Meets rely guar post p [])
    (hrely : ∀ log, Permitted guar log → rely log (replay w.store log)) :
    ∃ log, Permitted guar log ∧ w'.store = replay w.store log ∧ post (.ok a) log := by
  have he := exec_of_meets w.store hrely p [] w .nil rfl hp
  rwa [h] at he

/-- The rows a body leaves are the store under a log of permitted writes. -/
theorem Runs.of_writes {W : ω → Prop} {p : Program σ ω ε ι α} {w w' : World σ ι} {a : α}
    (h : Runs p w a w') (hp : Writes W p) :
    ∃ log, (∀ x ∈ log, W x) ∧ w'.store = replay w.store log := by
  suffices hs : ∀ (p : Program σ ω ε ι α) (w : World σ ι), Writes W p →
      ∃ log, (∀ x ∈ log, W x) ∧ (exec p w).2.store = replay w.store log by
    have he := hs p w hp
    rwa [h] at he
  intro p
  induction p with
  | pure a => exact fun w _ => ⟨[], by simp, rfl⟩
  | throw e => exact fun w _ => ⟨[], by simp, rfl⟩
  | stmt effect next ih =>
    intro w hp
    simp only [exec]
    cases hv : effect w.store with
    | error e => exact ⟨[], by simp, rfl⟩
    | ok ws =>
      obtain ⟨log, hlog, hs⟩ := ih w.store (w.withStore (replay w.store ws)) (hp.2 _)
      refine ⟨ws ++ log, ?_, by simpa using hs⟩
      intro x hx
      rcases List.mem_append.mp hx with hx | hx
      · exact hp.1 _ _ hv x hx
      · exact hlog x hx
  | draw next ih => exact fun w hp => ih w.peek w.tick (hp _)

/-- A successful run of the body relates the store before to the store after. -/
def Preserves (R : σ → σ → Prop) (p : Program σ ω ε ι α) : Prop :=
  ∀ w a w', Runs p w a w' → R w.store w'.store

section Preserves

variable {β : Type} {R : σ → σ → Prop}

theorem Preserves.bind [IsTrans σ R] {p : Program σ ω ε ι α} {f : α → Program σ ω ε ι β}
    (hp : Preserves R p) (hf : ∀ a, Preserves R (f a)) : Preserves R (p >>= f) := by
  intro w b w' h
  obtain ⟨a, w₁, ha, hb⟩ := runs_bind_iff.mp h
  exact IsTrans.trans _ _ _ (hp w a w₁ ha) (hf a w₁ b w' hb)

theorem Preserves.of_readsOnly [Std.Refl R] {p : Program σ ω ε ι α} (hp : p.ReadsOnly) :
    Preserves R p := by
  intro w a w' h
  rw [h.of_readsOnly hp]
  exact refl _

theorem preserves_forEach [Std.Refl R] [IsTrans σ R] {β : Type} {body : β → Program σ ω ε ι Unit}
    (hbody : ∀ b, Preserves R (body b)) (bs : List β) : Preserves R (forEach body bs) := by
  induction bs with
  | nil => exact .of_readsOnly (readsOnly_pure _)
  | cons b bs ih => exact (hbody b).bind fun _ => ih

end Preserves

end AiKanban.Transactions
