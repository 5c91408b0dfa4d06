import Mathlib.Data.List.Basic
import Mathlib.Tactic

/-!
# Queues of jobs by key

A job of a key waits for the one before it, which it finds in a map from keys to the last job of
each. A settled job takes its entry away unless a later job has replaced it. So the jobs of a
key run one at a time, in order, and no entry is left behind.
-/
namespace AiKanban.Transitions

inductive JobStatus (ω ρ : Type) where
  | waiting
  | running (work : ω)
  | settled (result : ρ)
deriving DecidableEq

/-- A job: its key and its task, the job it waits for, and whether it has cleaned up. -/
structure Job (κ α ω ρ : Type) where
  key : κ
  task : α
  prior : Option ℕ
  status : JobStatus ω ρ
  reacted : Bool

/-- The jobs in the order of their coming, and the last job of each key. -/
structure KeyedQueue (κ α ω ρ : Type) where
  jobs : List (Job κ α ω ρ)
  tails : κ → Option ℕ

namespace KeyedQueue

variable {κ α ω ρ : Type} (q : KeyedQueue κ α ω ρ)

def empty : KeyedQueue κ α ω ρ := ⟨[], fun _ => none⟩

def isSettled : JobStatus ω ρ → Bool
  | .settled _ => true
  | _ => false

/-- A job comes and waits for the last one of its key. -/
def enqueue [DecidableEq κ] (key : κ) (task : α) : KeyedQueue κ α ω ρ where
  jobs := q.jobs ++ [⟨key, task, q.tails key, .waiting, false⟩]
  tails := Function.update q.tails key (some q.jobs.length)

def setStatus (i : ℕ) (status : JobStatus ω ρ) : KeyedQueue κ α ω ρ :=
  { q with jobs := q.jobs.modify i fun job => { job with status } }

def settledAt (i : ℕ) : Bool :=
  (q.jobs[i]?).any fun job => isSettled job.status

/-- A job may go on when it runs, or waits for nothing any more. -/
def mayMove (i : ℕ) : Bool :=
  match q.jobs[i]? with
  | none => false
  | some job =>
      match job.status with
      | .waiting => job.prior.all q.settledAt
      | .running _ => true
      | .settled _ => false

/-- A settled job takes its own entry away. -/
def react [DecidableEq κ] (i : ℕ) : KeyedQueue κ α ω ρ :=
  match q.jobs[i]? with
  | none => q
  | some job =>
      if isSettled job.status then
        { jobs := q.jobs.modify i fun job => { job with reacted := true }
          tails := if q.tails job.key = some i then Function.update q.tails job.key none
            else q.tails }
      else q

variable {q} {q' : KeyedQueue κ α ω ρ} {key : κ} {task : α} {i j p : ℕ}
  {job other : Job κ α ω ρ} {status : JobStatus ω ρ}

def At (q : KeyedQueue κ α ω ρ) (i : ℕ) (job : Job κ α ω ρ) : Prop := q.jobs[i]? = some job

/-- The jobs of the key before this one are settled. -/
def SettledBefore (q : KeyedQueue κ α ω ρ) (key : κ) (j : ℕ) : Prop :=
  ∀ i job, i < j → q.At i job → job.key = key → isSettled job.status = true

/-- What holds however the queues are used. -/
structure Wf (q : KeyedQueue κ α ω ρ) : Prop where
  prior : ∀ j job p, q.At j job → job.prior = some p →
    (∃ other, q.At p other ∧ other.key = job.key) ∧
      ∀ i other, i < j → q.At i other → other.key = job.key → i ≤ p
  first : ∀ j job, q.At j job → job.prior = none → q.SettledBefore job.key j
  order : ∀ j job, q.At j job → job.status ≠ .waiting → q.SettledBefore job.key j
  tail : ∀ key j, q.tails key = some j → (∃ job, q.At j job ∧ job.key = key) ∧
    ∀ i job, q.At i job → job.key = key → i ≤ j
  noTail : ∀ key, q.tails key = none → q.SettledBefore key q.jobs.length
  reacted : ∀ i job, q.At i job → job.reacted = true →
    isSettled job.status = true ∧ q.tails job.key ≠ some i

theorem At.lt (h : q.At i job) : i < q.jobs.length := (List.getElem?_eq_some_iff.mp h).1

theorem At.unique (h : q.At i job) (h' : q.At i other) : job = other :=
  Option.some.inj (h.symm.trans h')

/-- The same jobs in the same queues, settled where they were. -/
structure SameJobs (q q' : KeyedQueue κ α ω ρ) : Prop where
  length : q'.jobs.length = q.jobs.length
  back : ∀ j job, q'.At j job → ∃ old, q.At j old ∧ job.key = old.key ∧ job.prior = old.prior ∧
    (isSettled old.status = true → isSettled job.status = true)
  forth : ∀ j old, q.At j old → ∃ job, q'.At j job ∧ job.key = old.key

section sameJobs

variable (h : SameJobs q q')
include h

theorem SameJobs.settledBefore (hold : q.SettledBefore key j) : q'.SettledBefore key j := by
  intro i job hlt hjob hkey
  obtain ⟨old, hat, hsame, -, hsettled⟩ := h.back i job hjob
  exact hsettled (hold i old hlt hat (hsame.symm.trans hkey))

theorem SameJobs.prior (hwf : q.Wf) (hjob : q'.At j job) (hprior : job.prior = some p) :
    (∃ other, q'.At p other ∧ other.key = job.key) ∧
      ∀ i other, i < j → q'.At i other → other.key = job.key → i ≤ p := by
  obtain ⟨old, hold, hkey, hsame, -⟩ := h.back j job hjob
  obtain ⟨⟨before, hbefore, hbkey⟩, hlast⟩ := hwf.prior j old p hold (hsame ▸ hprior)
  obtain ⟨before', hbefore', hbkey'⟩ := h.forth p before hbefore
  refine ⟨⟨before', hbefore', hbkey'.trans (hbkey.trans hkey.symm)⟩, ?_⟩
  intro k other hlt hother hokey
  obtain ⟨oldOther, holdOther, hokey', -⟩ := h.back k other hother
  exact hlast k oldOther hlt holdOther (hokey'.symm.trans (hokey.trans hkey))

theorem SameJobs.first (hwf : q.Wf) (hjob : q'.At j job) (hprior : job.prior = none) :
    q'.SettledBefore job.key j := by
  obtain ⟨old, hold, hkey, hsame, -⟩ := h.back j job hjob
  rw [hkey]
  exact h.settledBefore (hwf.first j old hold (hsame ▸ hprior))

theorem SameJobs.tail (hwf : q.Wf) (htail : q.tails key = some j) :
    (∃ job, q'.At j job ∧ job.key = key) ∧ ∀ i job, q'.At i job → job.key = key → i ≤ j := by
  obtain ⟨⟨old, hold, hkey⟩, hlast⟩ := hwf.tail key j htail
  obtain ⟨job, hjob, hkey'⟩ := h.forth j old hold
  refine ⟨⟨job, hjob, hkey'.trans hkey⟩, fun k other hother hokey => ?_⟩
  obtain ⟨oldOther, holdOther, hokey', -⟩ := h.back k other hother
  exact hlast k oldOther holdOther (hokey'.symm.trans hokey)

theorem SameJobs.noTail (hwf : q.Wf) (htail : q.tails key = none) :
    q'.SettledBefore key q'.jobs.length := by
  rw [h.length]
  exact h.settledBefore (hwf.noTail key htail)

end sameJobs

section moving

theorem at_setStatus : (q.setStatus i status).At j job ↔
    ∃ old, q.At j old ∧ job = if i = j then { old with status } else old := by
  unfold At setStatus
  rw [List.getElem?_modify, Option.map_eq_map, Option.map_eq_some_iff]
  constructor
  · rintro ⟨old, hold, rfl⟩
    exact ⟨old, hold, by split_ifs <;> rfl⟩
  · rintro ⟨old, hold, rfl⟩
    exact ⟨old, hold, by split_ifs <;> rfl⟩

theorem mayMove_running {work : ω} (hjob : q.At i job) (hwork : job.status = .running work) :
    q.mayMove i = true := by
  unfold mayMove
  rw [show q.jobs[i]? = some job from hjob]
  simp only [hwork]

/-- Who may move is not settled, and all before it are. -/
theorem settledBefore_of_mayMove (hwf : q.Wf) (hmove : q.mayMove i = true) (hjob : q.At i job) :
    isSettled job.status = false ∧ q.SettledBefore job.key i := by
  have hstatus : q.mayMove i = match job.status with
      | .waiting => job.prior.all q.settledAt
      | .running _ => true
      | .settled _ => false := by
    unfold mayMove
    rw [show q.jobs[i]? = some job from hjob]
  rw [hstatus] at hmove
  cases hcase : job.status with
  | running work => exact ⟨rfl, hwf.order i job hjob (by simp [hcase])⟩
  | settled result => simp [hcase] at hmove
  | waiting =>
    refine ⟨rfl, ?_⟩
    cases hprior : job.prior with
    | none => exact hwf.first i job hjob hprior
    | some p =>
      obtain ⟨⟨before, hbefore, hkey⟩, hlast⟩ := hwf.prior i job p hjob hprior
      have hsettled : isSettled before.status = true := by
        simpa [hcase, hprior, settledAt, show q.jobs[p]? = some before from hbefore] using hmove
      intro j other hlt hother hsame
      rcases (hlast j other hlt hother hsame).lt_or_eq with hearlier | rfl
      · refine hwf.order p before hbefore ?_ j other hearlier hother (hsame.trans hkey.symm)
        rintro hwaiting
        simp [hwaiting, isSettled] at hsettled
      · obtain rfl := hother.unique hbefore
        exact hsettled

theorem sameJobs_setStatus (hwf : q.Wf) (hmove : q.mayMove i = true) :
    SameJobs q (q.setStatus i status) := by
  refine ⟨List.length_modify _ _ _, fun j job hjob => ?_, fun j old hold => ?_⟩
  · obtain ⟨old, hold, rfl⟩ := at_setStatus.mp hjob
    refine ⟨old, hold, ?_, ?_, fun hsettled => ?_⟩
    · split_ifs <;> rfl
    · split_ifs <;> rfl
    · split_ifs with heq
      · subst heq
        have hfalse := (settledBefore_of_mayMove hwf hmove hold).1
        simp [hfalse] at hsettled
      · exact hsettled
  · refine ⟨_, at_setStatus.mpr ⟨old, hold, rfl⟩, ?_⟩
    split_ifs <;> rfl

theorem Wf.setStatus (hwf : q.Wf) (hmove : q.mayMove i = true) (status : JobStatus ω ρ) :
    (q.setStatus i status).Wf := by
  have hsame : SameJobs q (q.setStatus i status) := sameJobs_setStatus hwf hmove
  refine ⟨fun _ _ _ => hsame.prior hwf, fun _ _ => hsame.first hwf,
    fun j job hjob hstarted => ?_, fun _ _ => hsame.tail hwf, fun _ => hsame.noTail hwf,
    fun j job hjob hreacted => ?_⟩
  · obtain ⟨old, hold, rfl⟩ := at_setStatus.mp hjob
    refine hsame.settledBefore ?_
    by_cases heq : i = j
    · subst heq
      simpa using (settledBefore_of_mayMove hwf hmove hold).2
    · simp only [if_neg heq] at hstarted ⊢
      exact hwf.order j old hold hstarted
  · obtain ⟨old, hold, rfl⟩ := at_setStatus.mp hjob
    by_cases heq : i = j
    · subst heq
      have hfalse := (settledBefore_of_mayMove hwf hmove hold).1
      have hdone := (hwf.reacted i old hold (by simpa using hreacted)).1
      simp [hfalse] at hdone
    · simp only [if_neg heq] at hreacted ⊢
      exact hwf.reacted j old hold hreacted

end moving

section coming

variable [DecidableEq κ]

theorem at_enqueue : (q.enqueue key task).At j job ↔
    q.At j job ∨ j = q.jobs.length ∧ job = ⟨key, task, q.tails key, .waiting, false⟩ := by
  unfold At enqueue
  rw [List.getElem?_append]
  split_ifs with hlt
  · constructor
    · exact Or.inl
    · rintro (h | ⟨rfl, -⟩)
      · exact h
      · exact absurd hlt (lt_irrefl _)
  · rw [List.getElem?_singleton, List.getElem?_eq_none (not_lt.mp hlt)]
    constructor
    · intro h
      split_ifs at h with hzero
      exact Or.inr ⟨by omega, (Option.some.inj h).symm⟩
    · rintro (h | ⟨rfl, rfl⟩)
      · cases h
      · simp

theorem Wf.enqueue (hwf : q.Wf) (key : κ) (task : α) : (q.enqueue key task).Wf := by
  have hsettled : ∀ {k j}, j ≤ q.jobs.length → q.SettledBefore k j →
      (q.enqueue key task).SettledBefore k j := by
    intro k j hle h i job hlt hjob hkey
    rcases at_enqueue.mp hjob with hold | ⟨rfl, -⟩
    · exact h i job hlt hold hkey
    · omega
  refine ⟨fun j job p hjob hprior => ?_, fun j job hjob hprior => ?_, fun j job hjob hstarted => ?_,
    fun k j htail => ?_, fun k htail => ?_, fun j job hjob hreacted => ?_⟩
  · rcases at_enqueue.mp hjob with hold | ⟨rfl, rfl⟩
    · obtain ⟨⟨before, hbefore, hbkey⟩, hlast⟩ := hwf.prior j job p hold hprior
      refine ⟨⟨before, at_enqueue.mpr (Or.inl hbefore), hbkey⟩, fun i other hlt hother hkey => ?_⟩
      rcases at_enqueue.mp hother with hother | ⟨rfl, -⟩
      · exact hlast i other hlt hother hkey
      · exact absurd (hold.lt.trans hlt) (lt_irrefl _)
    · obtain ⟨⟨before, hbefore, hbkey⟩, hlast⟩ := hwf.tail key p hprior
      refine ⟨⟨before, at_enqueue.mpr (Or.inl hbefore), hbkey⟩, fun i other hlt hother hkey => ?_⟩
      rcases at_enqueue.mp hother with hother | ⟨rfl, -⟩
      · exact hlast i other hother hkey
      · exact absurd hlt (lt_irrefl _)
  · rcases at_enqueue.mp hjob with hold | ⟨rfl, rfl⟩
    · exact hsettled hold.lt.le (hwf.first j job hold hprior)
    · exact hsettled le_rfl (hwf.noTail key hprior)
  · rcases at_enqueue.mp hjob with hold | ⟨rfl, rfl⟩
    · exact hsettled hold.lt.le (hwf.order j job hold hstarted)
    · exact absurd rfl hstarted
  · by_cases hkey : k = key
    · subst hkey
      obtain rfl : q.jobs.length = j := by
        simpa [KeyedQueue.enqueue] using htail
      refine ⟨⟨_, at_enqueue.mpr (Or.inr ⟨rfl, rfl⟩), rfl⟩, fun i job hjob _ => ?_⟩
      rcases at_enqueue.mp hjob with hold | ⟨rfl, -⟩
      · exact hold.lt.le
      · exact le_rfl
    · have htail' : q.tails k = some j := by
        simpa [KeyedQueue.enqueue, Function.update_of_ne hkey] using htail
      obtain ⟨⟨last, hlastAt, hlkey⟩, hlast⟩ := hwf.tail k j htail'
      refine ⟨⟨last, at_enqueue.mpr (Or.inl hlastAt), hlkey⟩, fun i job hjob hjkey => ?_⟩
      rcases at_enqueue.mp hjob with hold | ⟨rfl, rfl⟩
      · exact hlast i job hold hjkey
      · exact absurd hjkey.symm hkey
  · have hkey : k ≠ key := by
      rintro rfl
      simp [KeyedQueue.enqueue] at htail
    have htail' : q.tails k = none := by
      simpa [KeyedQueue.enqueue, Function.update_of_ne hkey] using htail
    intro i job hlt hjob hjkey
    rcases at_enqueue.mp hjob with hold | ⟨rfl, rfl⟩
    · exact hwf.noTail k htail' i job hold.lt hold hjkey
    · exact absurd hjkey.symm hkey
  · rcases at_enqueue.mp hjob with hold | ⟨rfl, rfl⟩
    · obtain ⟨hdone, htail⟩ := hwf.reacted j job hold hreacted
      refine ⟨hdone, ?_⟩
      by_cases hkey : job.key = key
      · have hlt := hold.lt
        simp only [KeyedQueue.enqueue, hkey, Function.update_self, ne_eq, Option.some.injEq]
        omega
      · simpa only [KeyedQueue.enqueue, Function.update_of_ne hkey] using htail
    · cases hreacted

end coming

section reacting

variable [DecidableEq κ]

theorem at_react (hjob : q.At i job) (hdone : isSettled job.status = true) :
    (q.react i).At j other ↔
      ∃ old, q.At j old ∧ other = if i = j then { old with reacted := true } else old := by
  unfold At react
  rw [show q.jobs[i]? = some job from hjob]
  simp only [hdone, if_true]
  rw [List.getElem?_modify, Option.map_eq_map, Option.map_eq_some_iff]
  constructor
  · rintro ⟨old, hold, rfl⟩
    exact ⟨old, hold, by split_ifs <;> rfl⟩
  · rintro ⟨old, hold, rfl⟩
    exact ⟨old, hold, by split_ifs <;> rfl⟩

theorem tails_react (hjob : q.At i job) (hdone : isSettled job.status = true) (k : κ) :
    (q.react i).tails k = if k = job.key ∧ q.tails k = some i then none else q.tails k := by
  unfold react
  rw [show q.jobs[i]? = some job from hjob]
  simp only [hdone, if_true]
  by_cases hkey : k = job.key
  · subst hkey
    by_cases htail : q.tails job.key = some i
    · simp [htail]
    · simp [htail]
  · by_cases htail : q.tails job.key = some i
    · simp [htail, hkey]
    · simp [htail, hkey]

/-- Reacting changes neither the task of a job nor where it stands. -/
theorem react_back (h : (q.react i).At j other) : ∃ old, q.At j old ∧ other.key = old.key ∧
    other.task = old.task ∧ other.status = old.status := by
  by_cases hjob : ∃ job, q.At i job ∧ isSettled job.status = true
  · obtain ⟨job, hat, hdone⟩ := hjob
    obtain ⟨old, hold, rfl⟩ := (at_react hat hdone).mp h
    refine ⟨old, hold, ?_, ?_, ?_⟩
    all_goals split_ifs <;> rfl
  · have hsame : q.react i = q := by
      cases hat : q.jobs[i]? with
      | none => simp [KeyedQueue.react, hat]
      | some job =>
        have hdone : ¬ isSettled job.status = true := fun hdone => hjob ⟨job, hat, hdone⟩
        simp [KeyedQueue.react, hat, hdone]
    rw [hsame] at h
    exact ⟨other, h, rfl, rfl, rfl⟩

theorem sameJobs_react (hjob : q.At i job) (hdone : isSettled job.status = true) :
    SameJobs q (q.react i) := by
  have hlength : (q.react i).jobs.length = q.jobs.length := by
    unfold react
    rw [show q.jobs[i]? = some job from hjob]
    simp only [hdone, if_true, List.length_modify]
  refine ⟨hlength, fun j other hother => ?_, fun j old hold => ?_⟩
  · obtain ⟨old, hold, rfl⟩ := (at_react hjob hdone).mp hother
    refine ⟨old, hold, ?_, ?_, fun hsettled => ?_⟩
    · split_ifs <;> rfl
    · split_ifs <;> rfl
    · split_ifs <;> exact hsettled
  · refine ⟨_, (at_react hjob hdone).mpr ⟨old, hold, rfl⟩, ?_⟩
    split_ifs <;> rfl

theorem Wf.react_settled (hwf : q.Wf) (hjob : q.At i job) (hdone : isSettled job.status = true) :
    (q.react i).Wf := by
  have hsame := sameJobs_react hjob hdone
  refine ⟨fun _ _ _ => hsame.prior hwf, fun _ _ => hsame.first hwf,
    fun j other hother hstarted => ?_, fun key j htail => ?_, fun key htail => ?_,
    fun j other hother hreacted => ?_⟩
  · obtain ⟨old, hold, rfl⟩ := (at_react hjob hdone).mp hother
    refine hsame.settledBefore ?_
    have hkey : (if i = j then { old with reacted := true } else old).key = old.key := by
      split_ifs <;> rfl
    have hstatus : (if i = j then { old with reacted := true } else old).status = old.status := by
      split_ifs <;> rfl
    rw [hkey]
    exact hwf.order j old hold (hstatus ▸ hstarted)
  · rw [tails_react hjob hdone] at htail
    split_ifs at htail
    exact hsame.tail hwf htail
  · rw [tails_react hjob hdone] at htail
    split_ifs at htail with hown
    · -- The entry was the settled job's own, which is the last of its key.
      obtain ⟨rfl, htail⟩ := hown
      have hlast := (hwf.tail job.key i htail).2
      have hbefore : q.SettledBefore job.key i := by
        refine hwf.order i job hjob fun hwaiting => ?_
        simp [hwaiting, isSettled] at hdone
      rw [hsame.length]
      refine hsame.settledBefore fun k other _ hother hkey => ?_
      rcases (hlast k other hother hkey).lt_or_eq with hlt | rfl
      · exact hbefore k other hlt hother hkey
      · obtain rfl := hother.unique hjob
        exact hdone
    · exact hsame.noTail hwf htail
  · obtain ⟨old, hold, rfl⟩ := (at_react hjob hdone).mp hother
    by_cases heq : i = j
    · subst heq
      obtain rfl := hold.unique hjob
      rw [if_pos rfl, tails_react hjob hdone]
      refine ⟨hdone, ?_⟩
      split_ifs with hown
      · simp
      · exact fun htail => hown ⟨rfl, htail⟩
    · rw [if_neg heq] at hreacted ⊢
      obtain ⟨hsettled, htail⟩ := hwf.reacted j old hold hreacted
      rw [tails_react hjob hdone]
      refine ⟨hsettled, ?_⟩
      split_ifs
      · simp
      · exact htail

theorem Wf.react (hwf : q.Wf) (i : ℕ) : (q.react i).Wf := by
  cases hjob : q.jobs[i]? with
  | none =>
    have hsame : q.react i = q := by simp [KeyedQueue.react, hjob]
    rw [hsame]
    exact hwf
  | some job =>
    by_cases hdone : isSettled job.status = true
    · exact hwf.react_settled hjob hdone
    · have hsame : q.react i = q := by simp [KeyedQueue.react, hjob, hdone]
      rw [hsame]
      exact hwf

end reacting

theorem wf_empty : (empty : KeyedQueue κ α ω ρ).Wf where
  prior _ _ _ h := by cases h
  first _ _ h := by cases h
  order _ _ h := by cases h
  tail _ _ h := by cases h
  noTail _ _ _ _ _ h := by cases h
  reacted _ _ h := by cases h

/-- Two jobs of a key never run at once. -/
theorem Wf.settled_of_lt (hwf : q.Wf) (hi : q.At i job) (hj : q.At j other) (hlt : i < j)
    (hkey : job.key = other.key) (hstarted : other.status ≠ .waiting) :
    isSettled job.status = true :=
  hwf.order j other hj hstarted i job hlt hi hkey

theorem Wf.running_unique (hwf : q.Wf) {work work' : ω} (hi : q.At i job) (hj : q.At j other)
    (hkey : job.key = other.key) (hwork : job.status = .running work)
    (hwork' : other.status = .running work') : i = j := by
  rcases lt_trichotomy i j with hlt | heq | hlt
  · have hdone := hwf.settled_of_lt hi hj hlt hkey (by simp [hwork'])
    simp [hwork, isSettled] at hdone
  · exact heq
  · have hdone := hwf.settled_of_lt hj hi hlt hkey.symm (by simp [hwork])
    simp [hwork', isSettled] at hdone

/-- While a job may move, no other job of its key runs. -/
theorem Wf.not_running (hwf : q.Wf) (hmove : q.mayMove i = true) (hi : q.At i job)
    (hj : q.At j other) (hne : i ≠ j) (hkey : job.key = other.key) (work : ω) :
    other.status ≠ .running work := by
  intro hwork
  obtain ⟨hunsettled, hbefore⟩ := settledBefore_of_mayMove hwf hmove hi
  rcases lt_or_gt_of_ne hne with hlt | hlt
  · have hdone := hwf.settled_of_lt hi hj hlt hkey (by simp [hwork])
    simp [hunsettled] at hdone
  · have hdone := hbefore j other hlt hj hkey.symm
    simp [hwork, isSettled] at hdone

/-- When every job of a key has settled and reacted, its entry is gone. -/
theorem Wf.tails_eq_none (hwf : q.Wf)
    (h : ∀ i job, q.At i job → job.key = key → job.reacted = true) : q.tails key = none := by
  cases htail : q.tails key with
  | none => rfl
  | some j =>
    obtain ⟨⟨job, hjob, rfl⟩, -⟩ := hwf.tail key j htail
    exact absurd htail (hwf.reacted j job hjob (h j job hjob rfl)).2

section results

theorem At.jobs_eq (h : q.At i job) : q.jobs = q.jobs.take i ++ job :: q.jobs.drop (i + 1) := by
  obtain ⟨hlt, rfl⟩ := List.getElem?_eq_some_iff.mp h
  rw [← List.drop_eq_getElem_cons hlt, List.take_append_drop]

theorem At.jobs_setStatus (h : q.At i job) : (q.setStatus i status).jobs =
    q.jobs.take i ++ { job with status } :: q.jobs.drop (i + 1) := by
  obtain ⟨hlt, rfl⟩ := List.getElem?_eq_some_iff.mp h
  exact List.modify_eq_take_cons_drop hlt

variable [DecidableEq κ]

/-- What a job of the key has come to, with its task. -/
def outcome (key : κ) (job : Job κ α ω ρ) : Option (α × ρ) :=
  match job.status with
  | .settled result => if job.key = key then some (job.task, result) else none
  | _ => none

/-- The settled jobs of a key, in the order of their coming. -/
def results (q : KeyedQueue κ α ω ρ) (key : κ) : List (α × ρ) := q.jobs.filterMap (outcome key)

theorem outcome_of_unsettled (h : isSettled job.status = false) : outcome key job = none := by
  unfold outcome
  cases hstatus : job.status with
  | settled result => simp [hstatus, isSettled] at h
  | _ => rfl

theorem outcome_of_ne (h : job.key ≠ key) : outcome key job = none := by
  unfold outcome
  cases job.status with
  | settled result => simp [h]
  | _ => rfl

theorem mem_results {result : ρ} (h : (task, result) ∈ q.results key) :
    ∃ i job, q.At i job ∧ job.key = key ∧ job.task = task := by
  obtain ⟨job, hjob, houtcome⟩ := List.mem_filterMap.mp h
  obtain ⟨i, hi⟩ := List.mem_iff_getElem?.mp hjob
  unfold outcome at houtcome
  cases hstatus : job.status with
  | settled settled =>
    simp only [hstatus, Option.ite_none_right_eq_some, Option.some.injEq, Prod.mk.injEq] at houtcome
    exact ⟨i, job, hi, houtcome.1, houtcome.2.1⟩
  | _ => simp [hstatus] at houtcome

@[simp] theorem results_empty : (empty : KeyedQueue κ α ω ρ).results key = [] := rfl

@[simp] theorem results_enqueue (key' : κ) : (q.enqueue key' task).results key = q.results key := by
  simp [results, enqueue, List.filterMap_append, outcome]

theorem results_setStatus (h : q.At i job)
    (hsame : outcome key { job with status } = outcome key job) :
    (q.setStatus i status).results key = q.results key := by
  unfold results
  rw [h.jobs_setStatus]
  conv_rhs => rw [h.jobs_eq]
  simp only [List.filterMap_append, List.filterMap_cons, hsame]

/-- A job that settles comes right after the results of its key. -/
theorem results_settle (hwf : q.Wf) (hmove : q.mayMove i = true) (h : q.At i job) (result : ρ) :
    (q.setStatus i (.settled result)).results job.key =
      q.results job.key ++ [(job.task, result)] := by
  have hunsettled : isSettled job.status = false := (settledBefore_of_mayMove hwf hmove h).1
  have hlater : (q.jobs.drop (i + 1)).filterMap (outcome job.key) = [] := by
    rw [List.filterMap_eq_nil_iff]
    intro other hother
    obtain ⟨k, hk⟩ := List.mem_iff_getElem?.mp hother
    rw [List.getElem?_drop] at hk
    by_cases hkey : other.key = job.key
    · refine outcome_of_unsettled (Bool.eq_false_iff.mpr fun hdone => ?_)
      have hbefore := hwf.settled_of_lt h hk (by omega) hkey.symm fun hwaiting => by
        simp [hwaiting, isSettled] at hdone
      simp [hbefore] at hunsettled
    · exact outcome_of_ne hkey
  unfold results
  rw [h.jobs_setStatus]
  conv_rhs => rw [h.jobs_eq]
  simp only [List.filterMap_append, List.filterMap_cons, hlater, outcome_of_unsettled hunsettled,
    List.append_nil]
  simp [outcome]

end results

end KeyedQueue

end AiKanban.Transitions
