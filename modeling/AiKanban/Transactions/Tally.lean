import AiKanban.Transactions.Interleaving
import Mathlib.Data.Finset.Card
import Mathlib.Data.Fintype.Card

/-!
# Counting before an insert

Sessions that count the records under a key, and add one when there is room. The count is of
what is committed, so the sessions that have counted and not yet ended take their room unseen.
-/
namespace AiKanban.Transactions

open Program

/-- Records counted under a key, and how many of them there may be. -/
structure Tally (σ Key : Type) where
  count : Key → σ → ℕ
  limit : ℕ

variable {κ σ ω ε ι α β Key : Type} {m : Tally σ Key} {key : Key}

namespace Tally

section bodies

variable [Replay σ ω]

/-- The writes add one record under the key at most, and none under another. -/
def AddsOne (m : Tally σ Key) (key : Key) (log : List ω) : Prop :=
  ∀ s, m.count key (replay s log) ≤ m.count key s + 1 ∧
    ∀ other, other ≠ key → m.count other (replay s log) ≤ m.count other s

/-- Whatever the body goes on to commit adds one record at most. -/
def Adds (m : Tally σ Key) (key : Key) (body : Program σ ω ε ι α) (log : List ω) : Prop :=
  Meets (fun _ _ => True) (fun _ _ => True)
    (fun result log => result.isOk = true → m.AddsOne key log) body log

/-- The body writes nothing before it has counted the records and found room for one. -/
def Counts (m : Tally σ Key) (key : Key) : Program σ ω ε ι α → Prop
  | .pure _ => True
  | .throw _ => True
  | .stmt effect next => (∀ v ws, effect v = .ok ws → ws = []) ∧
      ∀ v, m.Counts key (next v) ∨ (m.count key v < m.limit ∧ m.Adds key (next v) [])
  | .draw next => ∀ i, m.Counts key (next i)

section Counts

theorem counts_reads {p : Program σ ω ε ι α} {f : α → Program σ ω ε ι β} (hp : p.ReadsOnly)
    (hf : ∀ a, m.Counts key (f a)) : m.Counts key (p >>= f) := by
  change m.Counts key (p.bind f)
  induction p with
  | pure a => exact hf a
  | throw e => trivial
  | stmt effect next ih => exact ⟨hp.1, fun v => .inl (ih v (hp.2 v))⟩
  | draw next ih => exact hp.elim

theorem counts_throw (e : ε) : m.Counts key (.throw e : Program σ ω ε ι α) := trivial

theorem counts_draw {next : ι → Program σ ω ε ι α} (h : ∀ i, m.Counts key (next i)) :
    m.Counts key (.draw next) := h

theorem counts_ofExcept {value : Except ε α} {f : α → Program σ ω ε ι β}
    (hf : ∀ a, m.Counts key (f a)) : m.Counts key (.ofExcept value >>= f) :=
  counts_reads (readsOnly_ofExcept value) hf

theorem counts_require {value : Option α} {e : ε} {f : α → Program σ ω ε ι β}
    (hf : ∀ a, value = some a → m.Counts key (f a)) : m.Counts key (.require value e >>= f) := by
  cases value with
  | none => trivial
  | some a => exact hf a rfl

/-- What a read returns may be known for every store. -/
theorem counts_read {query : σ → α} {f : α → Program σ ω ε ι β}
    (hf : ∀ v, m.Counts key (f (query v)) ∨ (m.count key v < m.limit ∧ m.Adds key (f (query v)) [])) :
    m.Counts key (.read query >>= f) :=
  ⟨fun _ _ hws => by cases hws; rfl, hf⟩

end Counts

/-- A session is yet to count, or adds one record at most. -/
def Stage (m : Tally σ Key) (key : Key) : Session σ ω ε ι α → Prop
  | .ready attempts => ∀ p ∈ attempts, m.Counts key p
  | .active body log rest =>
      ((log = [] ∧ m.Counts key body) ∨ m.Adds key body log) ∧ ∀ p ∈ rest, m.Counts key p
  | .done _ _ => True

theorem stage_ready {p : Program σ ω ε ι α} (h : m.Counts key p) :
    m.Stage key (.ready [p] : Session σ ω ε ι α) :=
  List.forall_mem_singleton.mpr h

/-- The session's transaction is open, and it may write what it does not count first. -/
def Holding (m : Tally σ Key) (key : Key) : Session σ ω ε ι α → Prop
  | .active body log _ => ¬ (log = [] ∧ m.Counts key body)
  | _ => False

theorem not_holding_done {result : Except ε α} {log : List ω} :
    ¬ m.Holding key (.done result log : Session σ ω ε ι α) := id

end bodies

section holders

variable [Fintype κ] [Replay σ ω] {c : Config κ σ ω ε ι α}

open Classical in
/-- The sessions that take room under a key unseen. -/
noncomputable def holders (m : Tally σ Key) (keys : κ → Key) (c : Config κ σ ω ε ι α)
    (key : Key) : Finset κ :=
  Finset.univ.filter fun j => keys j = key ∧ m.Holding key (c.sessions j)

theorem mem_holders {keys : κ → Key} {j : κ} :
    j ∈ m.holders keys c key ↔ keys j = key ∧ m.Holding key (c.sessions j) := by
  simp [holders]

end holders

section sessions

variable [DecidableEq κ] [Fintype κ] [Engine σ ω ε] {c : Config κ σ ω ε ι α} {k : κ}

theorem stage_failure {e : ε} {rest : List (Program σ ω ε ι α)}
    (h : ∀ p ∈ rest, m.Counts key p) : m.Stage key (Config.afterFailure e rest) := by
  cases rest with
  | nil => trivial
  | cons p rest =>
    unfold Config.afterFailure
    split_ifs
    · exact h
    · trivial

theorem not_holding_failure {e : ε} {rest : List (Program σ ω ε ι α)} :
    ¬ m.Holding key (Config.afterFailure e rest) := by
  cases rest with
  | nil => exact id
  | cons p rest =>
    unfold Config.afterFailure
    split_ifs <;> exact id

/-- A session's own turn takes it from one stage to the next. -/
theorem stage_step (h : m.Stage key (c.sessions k)) : m.Stage key ((c.step k).sessions k) := by
  have ht := Config.turn_step c k
  generalize c.step k = c' at ht ⊢
  cases ht with
  | idle => exact h
  | begin hk =>
    rw [hk] at h
    rw [Config.set_sessions_self]
    exact ⟨.inl ⟨rfl, h _ (by simp)⟩, fun p hp => h p (by simp [hp])⟩
  | commit hk =>
    change m.Stage key ((c.set k _).sessions k)
    rw [Config.set_sessions_self]
    trivial
  | throw hk =>
    rw [hk] at h
    rw [Config.set_sessions_self]
    exact stage_failure h.2
  | draw hk =>
    rw [hk] at h
    change m.Stage key ((c.set k _).sessions k)
    rw [Config.set_sessions_self]
    refine ⟨h.1.imp ?_ ?_, h.2⟩
    · rintro ⟨hlog, hcounts⟩
      exact ⟨hlog, hcounts _⟩
    · intro hadds
      exact hadds _
  | fail hk _ =>
    rw [hk] at h
    rw [Config.set_sessions_self]
    exact stage_failure h.2
  | write hk hw _ =>
    rw [hk] at h
    rw [Config.set_sessions_self]
    obtain ⟨⟨rfl, hreads, hnext⟩ | hadds, hrest⟩ := h
    · obtain rfl := hreads _ _ hw
      refine ⟨(hnext _).imp (fun hcounts => ⟨rfl, hcounts⟩) ?_, hrest⟩
      rintro ⟨-, hadds⟩
      exact hadds
    · exact ⟨.inr ((hadds _ trivial).2 _ hw).2, hrest⟩

/-- Who has just counted has found room. -/
theorem room_of_counted (h : m.Stage key (c.sessions k)) (hbefore : ¬ m.Holding key (c.sessions k))
    (hafter : m.Holding key ((c.step k).sessions k)) : m.count key c.committed < m.limit := by
  have ht := Config.turn_step c k
  generalize c.step k = c' at ht hafter
  cases ht with
  | idle => exact absurd hafter hbefore
  | begin hk =>
    rw [hk] at h
    rw [Config.set_sessions_self] at hafter
    exact absurd ⟨rfl, h _ (by simp)⟩ hafter
  | commit hk =>
    change m.Holding key ((c.set k _).sessions k) at hafter
    rw [Config.set_sessions_self] at hafter
    exact hafter.elim
  | throw hk | fail hk _ =>
    rw [Config.set_sessions_self] at hafter
    exact absurd hafter not_holding_failure
  | draw hk =>
    change m.Holding key ((c.set k _).sessions k) at hafter
    rw [Config.set_sessions_self] at hafter
    rw [hk] at hbefore
    obtain ⟨hlog, hcounts⟩ := not_not.mp hbefore
    exact absurd ⟨hlog, hcounts _⟩ hafter
  | write hk hw _ =>
    rw [Config.set_sessions_self] at hafter
    rw [hk] at hbefore
    obtain ⟨rfl, hreads, hnext⟩ := not_not.mp hbefore
    obtain rfl := hreads _ _ hw
    rcases hnext (c.view []) with hcounts | ⟨hroom, -⟩
    · exact absurd ⟨rfl, hcounts⟩ hafter
    · exact hroom

/-- A commit adds one record under the session's key, if the session was holding. -/
theorem committed_step (h : m.Stage key (c.sessions k)) :
    (c.step k).committed = c.committed ∨
      (m.Holding key (c.sessions k) ∧ ¬ m.Holding key ((c.step k).sessions k) ∧
        m.count key (c.step k).committed ≤ m.count key c.committed + 1 ∧
        ∀ other, other ≠ key →
          m.count other (c.step k).committed ≤ m.count other c.committed) := by
  rcases Config.step_committed c k with hsame | ⟨a, log, rest, hk, hdone, hcommitted⟩
  · exact .inl hsame
  by_cases hholding : m.Holding key (c.sessions k)
  · have hadds : m.AddsOne key log := by
      rw [hk] at h hholding
      rcases h.1 with hcounts | hadds
      · exact absurd hcounts hholding
      · exact hadds rfl
    rw [hdone, hcommitted]
    exact .inr ⟨hholding, not_holding_done, hadds c.committed⟩
  · rw [hk] at hholding
    obtain ⟨rfl, -⟩ := not_not.mp hholding
    exact .inl hcommitted

end sessions
end Tally

section runs

variable [DecidableEq κ] [Fintype κ] [Engine σ ω ε] {c : Config κ σ ω ε ι α} {k : κ}
  {keys : κ → Key}

/-- Whoever counts and finds room leaves room for those that have counted before and are open. -/
def Config.CountsAll (m : Tally σ Key) (keys : κ → Key) (c : Config κ σ ω ε ι α) (k : κ) : Prop :=
  ¬ m.Holding (keys k) (c.sessions k) → m.Holding (keys k) ((c.step k).sessions k) →
    m.count (keys k) c.committed + (m.holders keys c (keys k)).card < m.limit

namespace Tally

/-- What holds between any two turns. -/
structure Bounded (m : Tally σ Key) (keys : κ → Key) (bound : Key → ℕ)
    (c : Config κ σ ω ε ι α) : Prop where
  stage : ∀ k, m.Stage (keys k) (c.sessions k)
  within : ∀ key, m.count key c.committed + (m.holders keys c key).card ≤ bound key

theorem stage_others (h : ∀ j, m.Stage (keys j) (c.sessions j)) (j : κ) :
    m.Stage (keys j) ((c.step k).sessions j) := by
  by_cases hj : j = k
  · subst hj
    exact stage_step (h j)
  · rw [Config.step_sessions_ne c hj]
    exact h j

/-- Nobody else begins to hold. -/
theorem holders_step (key : Key) :
    m.holders keys (c.step k) key ⊆ insert k (m.holders keys c key) := by
  intro j hj
  by_cases hjk : j = k
  · exact Finset.mem_insert.mpr (.inl hjk)
  · rw [mem_holders, Config.step_sessions_ne c hjk] at hj
    exact Finset.mem_insert_of_mem (mem_holders.mpr hj)

/-- The session takes room under its own key only, and only with its count. -/
theorem holders_subset {key : Key}
    (h : keys k = key → m.Holding key ((c.step k).sessions k) → m.Holding key (c.sessions k)) :
    m.holders keys (c.step k) key ⊆ m.holders keys c key := by
  intro j hj
  by_cases hjk : j = k
  · subst hjk
    obtain ⟨hkey, hholding⟩ := mem_holders.mp hj
    exact mem_holders.mpr ⟨hkey, h hkey hholding⟩
  · rw [mem_holders, Config.step_sessions_ne c hjk] at hj
    exact mem_holders.mpr hj

theorem Bounded.step {bound : Key → ℕ} (hbound : ∀ key, m.limit ≤ bound key)
    (h : m.Bounded keys bound c) (hcounts : c.CountsAll m keys k) :
    m.Bounded keys bound (c.step k) := by
  refine ⟨stage_others h.stage, fun key => ?_⟩
  have hwithin := h.within key
  rcases committed_step (h.stage k) with hsame | ⟨hbefore, hafter, hone, hothers⟩
  · rw [hsame]
    by_cases hnew : keys k = key ∧ ¬ m.Holding key (c.sessions k) ∧
        m.Holding key ((c.step k).sessions k)
    · obtain ⟨rfl, hbefore, hafter⟩ := hnew
      have hroom := hcounts hbefore hafter
      have hsub : m.holders keys (c.step k) (keys k) ⊆ insert k (m.holders keys c (keys k)) :=
        holders_step (keys k)
      have hcard := Finset.card_le_card hsub
      have hinsert := Finset.card_insert_le k (m.holders keys c (keys k))
      have hlimit := hbound (keys k)
      omega
    · have hsub : m.holders keys (c.step k) key ⊆ m.holders keys c key := by
        refine holders_subset fun hkey hafter => ?_
        by_contra hbefore
        exact hnew ⟨hkey, hbefore, hafter⟩
      have hcard := Finset.card_le_card hsub
      omega
  · by_cases hkey : keys k = key
    · subst hkey
      -- the session gives its room up for its record
      have hgone : m.holders keys (c.step k) (keys k) ⊂ m.holders keys c (keys k) := by
        refine ⟨holders_subset fun _ h => absurd h hafter, fun hsub => hafter ?_⟩
        exact (mem_holders.mp (hsub (mem_holders.mpr ⟨rfl, hbefore⟩))).2
      have hcard := Finset.card_lt_card hgone
      omega
    · have hsub : m.holders keys (c.step k) key ⊆ m.holders keys c key :=
        holders_subset fun h => absurd h hkey
      have hcard := Finset.card_le_card hsub
      have hother := hothers key (Ne.symm hkey)
      omega

/-- Where every count leaves room for those before it, no key gets more than the limit or what
it had. -/
theorem count_run {bound : Key → ℕ} (hbound : ∀ key, m.limit ≤ bound key)
    (h : m.Bounded keys bound c) {schedule : List κ}
    (hcounts : Config.Along (Config.CountsAll m keys) c schedule) (key : Key) :
    m.count key (c.run schedule).committed ≤ bound key := by
  have hrun := Config.run_induction (fun _ _ h hcounts => h.step hbound hcounts) schedule c h hcounts
  exact (Nat.le_add_right _ _).trans (hrun.within key)

/-- Who takes its turns alone counts every session that could add a record. -/
theorem along_of_closed {schedule : List κ} (hstage : ∀ j, m.Stage (keys j) (c.sessions j))
    (hclosed : Config.Along (fun c k => ∀ j, j ≠ k → (c.sessions j).isOpen = false) c schedule) :
    Config.Along (Config.CountsAll m keys) c schedule := by
  induction schedule generalizing c with
  | nil => trivial
  | cons k schedule ih =>
    refine ⟨fun hbefore hafter => ?_, ih (stage_others hstage) hclosed.2⟩
    have hnone : m.holders keys c (keys k) = ∅ := by
      apply Finset.eq_empty_of_forall_notMem
      intro j hj
      obtain ⟨hkey, hholding⟩ := mem_holders.mp hj
      by_cases hjk : j = k
      · subst hjk
        exact hbefore hholding
      · have hopen := hclosed.1 j hjk
        generalize c.sessions j = session at hholding hopen
        cases session with
        | active body log rest => cases hopen
        | ready attempts => exact hholding
        | done result log => exact hholding
    have hroom := room_of_counted (hstage k) hbefore hafter
    rw [hnone, Finset.card_empty]
    exact hroom

-- A goal about a service body is split by the rules above, never by evaluating the body.
attribute [irreducible] Counts

end Tally
end runs
end AiKanban.Transactions
