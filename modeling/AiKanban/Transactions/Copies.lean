import AiKanban.Transactions.Locking

/-!
# Copies of records

A session that reads a record and writes it back later holds a copy in between. The copy is
current as long as no other commit changes the record; what is written back is then a rewriting
of the record as it stands.
-/
namespace AiKanban.Transactions

open Program

/-- Copies `γ` of records: which record, what of it is watched, and which writes put it back. -/
structure Copies (σ ω Key V γ : Type) where
  facet : Key → σ → V
  key : γ → Key
  value : γ → V
  writesBack : γ → ω → Prop
  touches : ω → Key → Prop

variable {κ σ ω ε ι α β Key V γ : Type} {m : Copies σ ω Key V γ}

namespace Copies

/-- The store has what the copy has. -/
def Fresh (m : Copies σ ω Key V γ) (copy : γ) (s : σ) : Prop :=
  m.facet (m.key copy) s = m.value copy

/-- The body reads on without a copy, until it has one that is all it may write back. -/
def Looks (m : Copies σ ω Key V γ) : Program σ ω ε ι α → Prop
  | .pure _ => True
  | .throw _ => True
  | .stmt effect next => (∀ v ws, effect v = .ok ws → ws = []) ∧
      ∀ v, m.Looks (next v) ∨ ∃ copy, m.Fresh copy v ∧ Writes (m.writesBack copy) (next v)
  | .draw next => ∀ i, m.Looks (next i)

section Looks

theorem looks_of_readsOnly {p : Program σ ω ε ι α} (h : p.ReadsOnly) : m.Looks p := by
  induction p with
  | pure a => trivial
  | throw e => trivial
  | stmt effect next ih => exact ⟨h.1, fun v => .inl (ih v (h.2 v))⟩
  | draw next ih => exact h.elim

theorem Looks.bind {p : Program σ ω ε ι α} {f : α → Program σ ω ε ι β} (hp : p.ReadsOnly)
    (hf : ∀ a, m.Looks (f a)) : m.Looks (p >>= f) := by
  change m.Looks (p.bind f)
  induction p with
  | pure a => exact hf a
  | throw e => trivial
  | stmt effect next ih => exact ⟨hp.1, fun v => .inl (ih v (hp.2 v))⟩
  | draw next ih => exact hp.elim

/-- A read that finds the record, or finds that there is nothing to do. -/
theorem looks_read_bind {query : σ → α} {f : α → Program σ ω ε ι β}
    (h : ∀ v, m.Looks (f (query v)) ∨
      ∃ copy, m.Fresh copy v ∧ Writes (m.writesBack copy) (f (query v))) :
    m.Looks (.read query >>= f) :=
  ⟨fun _ _ hws => by cases hws; rfl, h⟩

/-- What follows only reads. -/
theorem Looks.then {p : Program σ ω ε ι α} {f : α → Program σ ω ε ι β} (hp : m.Looks p)
    (hf : ∀ a, (f a).ReadsOnly) : m.Looks (p >>= f) := by
  change m.Looks (p.bind f)
  induction p with
  | pure a => exact looks_of_readsOnly (hf a)
  | throw e => trivial
  | stmt effect next ih =>
    refine ⟨hp.1, fun v => (hp.2 v).imp (ih v) ?_⟩
    rintro ⟨copy, hfresh, hwrites⟩
    exact ⟨copy, hfresh, hwrites.bind fun a => (hf a).writes⟩
  | draw next ih => exact fun i => ih i (hp i)

end Looks

/-- The session has a copy of the record that it may yet write back. -/
def Holding (m : Copies σ ω Key V γ) (key : Key) (session : Session σ ω ε ι α) : Prop :=
  ∃ copy body rest, session = .active body [] rest ∧ m.key copy = key ∧
    ¬ body.ReadsOnly ∧ Writes (m.writesBack copy) body

/-- A session looks for a record, holds a copy that is current, or has written it back. -/
def Stage (m : Copies σ ω Key V γ) (s : σ) : Session σ ω ε ι α → Prop
  | .ready attempts => ∀ p ∈ attempts, m.Looks p
  | .active body [] rest => (m.Looks body ∨
      ∃ copy, Writes (m.writesBack copy) body ∧ (¬ body.ReadsOnly → m.Fresh copy s)) ∧
        ∀ p ∈ rest, m.Looks p
  | .active body (x :: log) rest => (∃ copy, (∀ y ∈ x :: log, m.writesBack copy y) ∧
      Writes (m.writesBack copy) body ∧ m.Fresh copy s) ∧ ∀ p ∈ rest, m.Looks p
  | .done _ _ => True

theorem stage_held {s : σ} {body : Program σ ω ε ι α} {log : List ω}
    {rest : List (Program σ ω ε ι α)} {copy : γ} (hlog : ∀ y ∈ log, m.writesBack copy y)
    (hbody : Writes (m.writesBack copy) body) (hfresh : m.Fresh copy s)
    (hrest : ∀ p ∈ rest, m.Looks p) : m.Stage s (.active body log rest) := by
  cases log with
  | nil => exact ⟨.inr ⟨copy, hbody, fun _ => hfresh⟩, hrest⟩
  | cons x log => exact ⟨⟨copy, hlog, hbody, hfresh⟩, hrest⟩

theorem stage_afterFailure [Engine σ ω ε] {s : σ} {e : ε} {rest : List (Program σ ω ε ι α)}
    (h : ∀ p ∈ rest, m.Looks p) : m.Stage s (Config.afterFailure e rest) := by
  cases rest with
  | nil => trivial
  | cons p rest =>
    unfold Config.afterFailure
    split_ifs
    · exact h
    · trivial

/-- What the writes do to the records, and which of them stand against each other. -/
structure Lawful [Engine σ ω ε] (m : Copies σ ω Key V γ) : Prop where
  frame : ∀ (s : σ) (log : List ω) key, (∀ x ∈ log, ¬ m.touches x key) →
    m.facet key (replay s log) = m.facet key s
  clash : ∀ copy x y, m.writesBack copy x → m.touches y (m.key copy) →
    Engine.conflicts σ ε x y = true ∧ Engine.conflicts σ ε y x = true

end Copies

section runs

variable [DecidableEq κ] [Fintype κ] [Engine σ ω ε] {c : Config κ σ ω ε ι α} {k : κ}

/-- Whoever changes a record does so while no other session has a copy of it to write back. -/
def Config.Uncopied (m : Copies σ ω Key V γ) (c : Config κ σ ω ε ι α) (k : κ) : Prop :=
  ∀ key, m.facet key (c.step k).committed ≠ m.facet key c.committed →
    ∀ j, j ≠ k → ¬ m.Holding key (c.sessions j)

/-- Nobody holds a copy where nobody else has a transaction open. -/
theorem Config.uncopied_of_closed (h : ∀ j, j ≠ k → (c.sessions j).isOpen = false) :
    c.Uncopied m k := by
  rintro key - j hj ⟨copy, body, rest, hsession, -⟩
  have hclosed := h j hj
  rw [hsession] at hclosed
  cases hclosed

/-- What holds between any two turns: of the sessions in `copier`, each is at one of its stages. -/
structure Copies.Kept (m : Copies σ ω Key V γ) (copier : κ → Prop) (c : Config κ σ ω ε ι α) :
    Prop where
  exclusive : c.Exclusive
  stage : ∀ k, copier k → m.Stage c.committed (c.sessions k)

/-- A session's own turn takes it from one stage to the next. -/
theorem Copies.stage_step (h : m.Stage c.committed (c.sessions k)) :
    m.Stage (c.step k).committed ((c.step k).sessions k) := by
  have ht := Config.turn_step c k
  generalize c.step k = c' at ht ⊢
  cases ht with
  | idle => exact h
  | begin hk =>
    rw [hk] at h
    rw [Config.set_sessions_self]
    exact ⟨.inl (h _ (by simp)), fun p hp => h p (by simp [hp])⟩
  | commit hk =>
    change m.Stage _ ((c.set k _).sessions k)
    rw [Config.set_sessions_self]
    trivial
  | @throw e log rest hk =>
    rw [hk] at h
    rw [Config.set_sessions_self]
    refine stage_afterFailure ?_
    cases log <;> exact h.2
  | @draw next log rest hk =>
    rw [hk] at h
    change m.Stage c.committed ((c.set k _).sessions k)
    rw [Config.set_sessions_self]
    cases log with
    | nil =>
      obtain ⟨hlooks | ⟨copy, hwrites, hfresh⟩, hrest⟩ := h
      · exact ⟨.inl (hlooks _), hrest⟩
      · exact ⟨.inr ⟨copy, hwrites _, fun _ => hfresh fun hreads => hreads⟩, hrest⟩
    | cons x log =>
      obtain ⟨⟨copy, hlog, hwrites, hfresh⟩, hrest⟩ := h
      exact ⟨⟨copy, hlog, hwrites _, hfresh⟩, hrest⟩
  | @fail effect next e log rest hk he =>
    rw [hk] at h
    rw [Config.set_sessions_self]
    refine stage_afterFailure ?_
    cases log <;> exact h.2
  | @write effect next ws log rest hk hw hfree =>
    rw [hk] at h
    rw [Config.set_sessions_self]
    change m.Stage c.committed _
    cases log with
    | nil =>
      have hview : c.view [] = c.committed := rfl
      rw [hview] at hw ⊢
      obtain ⟨hlooks | ⟨copy, hwrites, hfresh⟩, hrest⟩ := h
      · obtain rfl := hlooks.1 _ _ hw
        refine ⟨(hlooks.2 c.committed).imp id ?_, hrest⟩
        rintro ⟨copy, hfresh, hwrites⟩
        exact ⟨copy, hwrites, fun _ => hfresh⟩
      · cases ws with
        | nil =>
          refine ⟨.inr ⟨copy, hwrites.2 _, fun hbody => hfresh fun hreads => ?_⟩, hrest⟩
          exact hbody (hreads.2 _)
        | cons x ws =>
          -- a body that writes does not only read
          refine ⟨⟨copy, hwrites.1 _ _ hw, hwrites.2 _, hfresh fun hreads => ?_⟩, hrest⟩
          cases hreads.1 _ _ hw
    | cons x log =>
      obtain ⟨⟨copy, hlog, hwrites, hfresh⟩, hrest⟩ := h
      refine stage_held (fun y hy => ?_) (hwrites.2 _) hfresh hrest
      rcases List.mem_append.mp hy with hy | hy
      · exact hlog y hy
      · exact hwrites.1 _ _ hw y hy

/-- What a copier commits puts a copy back that is current, or nothing. -/
theorem Copies.stage_commit (h : m.Stage c.committed (c.sessions k)) :
    (c.step k).committed = c.committed ∨
      ∃ copy log, (∀ x ∈ log, m.writesBack copy x) ∧ m.Fresh copy c.committed ∧
        (c.step k).committed = replay c.committed log := by
  rcases Config.step_committed c k with hsame | ⟨a, log, rest, hk, -, hcommitted⟩
  · exact .inl hsame
  · rw [hk] at h
    cases log with
    | nil => exact .inl hcommitted
    | cons x log =>
      obtain ⟨⟨copy, hlog, -, hfresh⟩, -⟩ := h
      exact .inr ⟨copy, x :: log, hlog, hfresh, hcommitted⟩

/-- The other sessions keep their stages: their copies stay current. -/
theorem Copies.stage_other (hlaws : m.Lawful (ε := ε)) (hexclusive : c.Exclusive)
    (hcopies : c.Uncopied m k) {j : κ} (hj : j ≠ k) (h : m.Stage c.committed (c.sessions j)) :
    m.Stage (c.step k).committed (c.sessions j) := by
  rcases Config.step_committed c k with hsame | ⟨a, log, rest, hk, -, hcommitted⟩
  · rwa [hsame]
  · have hfree := hexclusive j k hj
    have hholding : ∀ key, m.facet key (c.step k).committed ≠ m.facet key c.committed →
        ¬ m.Holding key (c.sessions j) := fun key hchange => hcopies key hchange j hj
    rw [hk] at hfree
    generalize c.sessions j = session at h hfree hholding ⊢
    cases session with
    | ready attempts => exact h
    | done result log' => trivial
    | active body log' rest' =>
      cases log' with
      | nil =>
        obtain ⟨hlooks | ⟨copy, hwrites, hfresh⟩, hrest⟩ := h
        · exact ⟨.inl hlooks, hrest⟩
        · refine ⟨.inr ⟨copy, hwrites, fun hbody => ?_⟩, hrest⟩
          by_contra hstale
          refine hholding (m.key copy) (fun hsame => hstale ?_)
            ⟨copy, body, rest', rfl, rfl, hbody, hwrites⟩
          exact hsame.trans (hfresh hbody)
      | cons x log' =>
        obtain ⟨⟨copy, hlog, hwrites, hfresh⟩, hrest⟩ := h
        refine ⟨⟨copy, hlog, hwrites, ?_⟩, hrest⟩
        have hframe : m.facet (m.key copy) (replay c.committed log) =
            m.facet (m.key copy) c.committed := by
          refine hlaws.frame _ _ _ fun y hy htouches => ?_
          obtain ⟨hxy, hyx⟩ := hlaws.clash copy x y (hlog x (by simp)) htouches
          rcases hfree x (by simp [Session.held]) y hy with hclear | hclear
          · exact absurd (hxy.symm.trans hclear) (by decide)
          · exact absurd (hyx.symm.trans hclear) (by decide)
        rw [hcommitted]
        exact hframe.trans hfresh

theorem Copies.Kept.step {copier : κ → Prop} (hlaws : m.Lawful (ε := ε)) (h : m.Kept copier c)
    (hcopies : c.Uncopied m k) : m.Kept copier (c.step k) := by
  refine ⟨h.exclusive.step k, fun j hj => ?_⟩
  by_cases hjk : j = k
  · subst hjk
    exact Copies.stage_step (h.stage j hj)
  · rw [Config.step_sessions_ne c hjk]
    exact Copies.stage_other hlaws h.exclusive hcopies hjk (h.stage j hj)

end runs

end AiKanban.Transactions
