import Mathlib.Data.Fintype.Basic
import Mathlib.Logic.Function.Basic
import AiKanban.Transactions.Contract

/-!
# Interleaved transactions at READ COMMITTED

Each session runs transaction bodies statement by statement. A statement sees
what is committed when it starts plus its own transaction's writes; its writes
wait while another open transaction holds a conflicting one. A commit replays
the log on the committed store. A retryable failure begins the session's next
attempt. A schedule names the session whose turn it is, so quantifying over
schedules is quantifying over interleavings; a turn of a waiting session is lost.
-/
namespace AiKanban.Transactions

open Program

class Engine (σ ω ε : Type) extends Replay σ ω where
  /-- A held write makes the other one wait: same row, or same unique key. -/
  conflicts : ω → ω → Bool
  /-- The failure makes the caller run its next attempt. -/
  retryable : ε → Bool

/-- A caller's progress. `done` keeps the writes its commit made permanent. -/
inductive Session (σ ω ε ι α : Type) where
  | ready (attempts : List (Program σ ω ε ι α))
  | active (body : Program σ ω ε ι α) (log : List ω) (rest : List (Program σ ω ε ι α))
  | done (result : Except ε α) (log : List ω)

namespace Session

variable {σ ω ε ι α : Type}

/-- The writes an open transaction holds locks for. -/
def held : Session σ ω ε ι α → List ω
  | .active _ log _ => log
  | _ => []

/-- The session's transaction is open. -/
def isOpen : Session σ ω ε ι α → Bool
  | .active _ _ _ => true
  | _ => false

/-- The caller has its result or its error. -/
def isDone : Session σ ω ε ι α → Bool
  | .done _ _ => true
  | _ => false

/-- The writes a finished session made permanent. -/
def committedLog : Session σ ω ε ι α → List ω
  | .done _ log => log
  | _ => []

end Session

structure Config (κ σ ω ε ι α : Type) where
  committed : σ
  sessions : κ → Session σ ω ε ι α
  inputs : ℕ → ι
  drawn : ℕ

namespace Config

variable {κ σ ω ε ι α : Type} [DecidableEq κ]

def set (c : Config κ σ ω ε ι α) (k : κ) (s : Session σ ω ε ι α) : Config κ σ ω ε ι α :=
  { c with sessions := Function.update c.sessions k s }

@[simp] theorem set_sessions_self (c : Config κ σ ω ε ι α) (k : κ) (s : Session σ ω ε ι α) :
    (c.set k s).sessions k = s :=
  Function.update_self ..

theorem set_sessions_ne (c : Config κ σ ω ε ι α) {k j : κ} (h : j ≠ k)
    (s : Session σ ω ε ι α) : (c.set k s).sessions j = c.sessions j :=
  Function.update_of_ne h ..

@[simp] theorem set_committed (c : Config κ σ ω ε ι α) (k : κ) (s : Session σ ω ε ι α) :
    (c.set k s).committed = c.committed := rfl

variable [Fintype κ] [Engine σ ω ε]

/-- What a statement of a transaction with this log sees. -/
def view (c : Config κ σ ω ε ι α) (log : List ω) : σ := replay c.committed log

/-- Some other open transaction holds a write these writes conflict with. -/
def Blocked (c : Config κ σ ω ε ι α) (k : κ) (ws : List ω) : Prop :=
  ∃ j, j ≠ k ∧ ∃ held ∈ (c.sessions j).held, ∃ w ∈ ws, Engine.conflicts σ ε held w = true

instance (c : Config κ σ ω ε ι α) (k : κ) (ws : List ω) : Decidable (c.Blocked k ws) :=
  inferInstanceAs (Decidable (∃ _, _))

/-- After a failure: the next attempt, or the error. -/
def afterFailure (e : ε) : List (Program σ ω ε ι α) → Session σ ω ε ι α
  | [] => .done (.error e) []
  | p :: rest => if Engine.retryable σ ω e then .ready (p :: rest) else .done (.error e) []

/-- One turn of session `k`. -/
def step (c : Config κ σ ω ε ι α) (k : κ) : Config κ σ ω ε ι α :=
  match c.sessions k with
  | .ready [] => c
  | .ready (p :: rest) => c.set k (.active p [] rest)
  | .active (.pure a) log _ =>
      { c.set k (.done (.ok a) log) with committed := replay c.committed log }
  | .active (.throw e) _ rest => c.set k (afterFailure e rest)
  | .active (.draw next) log rest =>
      { c.set k (.active (next (c.inputs c.drawn)) log rest) with drawn := c.drawn + 1 }
  | .active (.stmt effect next) log rest =>
      match effect (c.view log) with
      | .error e => c.set k (afterFailure e rest)
      | .ok ws =>
          if c.Blocked k ws then c
          else c.set k (.active (next (c.view log)) (log ++ ws) rest)
  | .done _ _ => c

def run (c : Config κ σ ω ε ι α) (schedule : List κ) : Config κ σ ω ε ι α :=
  schedule.foldl step c

@[simp] theorem run_nil (c : Config κ σ ω ε ι α) : c.run [] = c := rfl

@[simp] theorem run_cons (c : Config κ σ ω ε ι α) (k : κ) (ks : List κ) :
    c.run (k :: ks) = (c.step k).run ks := rfl

theorem run_append (c : Config κ σ ω ε ι α) (ks ks' : List κ) :
    c.run (ks ++ ks') = (c.run ks).run ks' :=
  List.foldl_append

/-- Every turn of the schedule is taken in a state that satisfies `P`. -/
def Along (P : Config κ σ ω ε ι α → κ → Prop) : Config κ σ ω ε ι α → List κ → Prop
  | _, [] => True
  | c, k :: ks => P c k ∧ Along P (c.step k) ks

instance instDecidableAlong {P : Config κ σ ω ε ι α → κ → Prop} [∀ c k, Decidable (P c k)] :
    ∀ (c : Config κ σ ω ε ι α) (ks : List κ), Decidable (Along P c ks)
  | _, [] => inferInstanceAs (Decidable True)
  | c, k :: ks =>
      have := instDecidableAlong (P := P) (c.step k) ks
      inferInstanceAs (Decidable (P c k ∧ Along P (c.step k) ks))

theorem Along.mono {P Q : Config κ σ ω ε ι α → κ → Prop} (hPQ : ∀ c k, P c k → Q c k)
    {c : Config κ σ ω ε ι α} {ks : List κ} (h : Along P c ks) : Along Q c ks := by
  induction ks generalizing c with
  | nil => trivial
  | cons k ks ih => exact ⟨hPQ c k h.1, ih h.2⟩

theorem Along.and {P Q : Config κ σ ω ε ι α → κ → Prop} {c : Config κ σ ω ε ι α} {ks : List κ}
    (h : Along P c ks) (h' : Along Q c ks) : Along (fun c k => P c k ∧ Q c k) c ks := by
  induction ks generalizing c with
  | nil => trivial
  | cons k ks ih => exact ⟨⟨h.1, h'.1⟩, ih h.2 h'.2⟩

theorem Along.append {P : Config κ σ ω ε ι α → κ → Prop} {c : Config κ σ ω ε ι α}
    {ks ks' : List κ} (h : Along P c (ks ++ ks')) : Along P c ks ∧ Along P (c.run ks) ks' := by
  induction ks generalizing c with
  | nil => exact ⟨trivial, h⟩
  | cons k ks ih => exact ⟨⟨h.1, (ih h.2).1⟩, (ih h.2).2⟩

/-- An invariant that every admitted turn keeps holds after every admitted schedule. -/
theorem run_induction {I : Config κ σ ω ε ι α → Prop}
    {P : Config κ σ ω ε ι α → κ → Prop} (hstep : ∀ c k, I c → P c k → I (c.step k)) :
    ∀ (ks : List κ) (c : Config κ σ ω ε ι α), I c → Along P c ks → I (c.run ks)
  | [], _, hc, _ => hc
  | k :: ks, c, hc, h => run_induction hstep ks (c.step k) (hstep c k hc h.1) h.2

/-- All a turn can do. -/
inductive Turn (c : Config κ σ ω ε ι α) (k : κ) : Config κ σ ω ε ι α → Prop where
  | idle : Turn c k c
  | begin {p : Program σ ω ε ι α} {rest : List (Program σ ω ε ι α)}
      (hk : c.sessions k = .ready (p :: rest)) : Turn c k (c.set k (.active p [] rest))
  | commit {a : α} {log : List ω} {rest : List (Program σ ω ε ι α)}
      (hk : c.sessions k = .active (.pure a) log rest) :
      Turn c k { c.set k (.done (.ok a) log) with committed := replay c.committed log }
  | throw {e : ε} {log : List ω} {rest : List (Program σ ω ε ι α)}
      (hk : c.sessions k = .active (.throw e) log rest) : Turn c k (c.set k (afterFailure e rest))
  | draw {next : ι → Program σ ω ε ι α} {log : List ω} {rest : List (Program σ ω ε ι α)}
      (hk : c.sessions k = .active (.draw next) log rest) :
      Turn c k
        { c.set k (.active (next (c.inputs c.drawn)) log rest) with drawn := c.drawn + 1 }
  | fail {effect : σ → Except ε (List ω)} {next : σ → Program σ ω ε ι α} {e : ε} {log : List ω}
      {rest : List (Program σ ω ε ι α)}
      (hk : c.sessions k = .active (.stmt effect next) log rest)
      (he : effect (c.view log) = .error e) : Turn c k (c.set k (afterFailure e rest))
  | write {effect : σ → Except ε (List ω)} {next : σ → Program σ ω ε ι α} {ws log : List ω}
      {rest : List (Program σ ω ε ι α)}
      (hk : c.sessions k = .active (.stmt effect next) log rest)
      (hw : effect (c.view log) = .ok ws) (hfree : ¬ c.Blocked k ws) :
      Turn c k (c.set k (.active (next (c.view log)) (log ++ ws) rest))

theorem turn_step (c : Config κ σ ω ε ι α) (k : κ) : Turn c k (c.step k) := by
  unfold step
  split
  · exact .idle
  · next p rest hk => exact .begin hk
  · next a log rest hk => exact .commit hk
  · next e log rest hk => exact .throw hk
  · next next log rest hk => exact .draw hk
  · next effect next log rest hk =>
    split
    · next e he => exact .fail hk he
    · next ws hw =>
      split_ifs with hb
      · exact .idle
      · exact .write hk hw hb
  · exact .idle

/-- A turn at a statement: it waits, it fails, or it is taken. -/
theorem step_stmt {c : Config κ σ ω ε ι α} {k : κ} {effect : σ → Except ε (List ω)}
    {next : σ → Program σ ω ε ι α} {log : List ω} {rest : List (Program σ ω ε ι α)}
    (hk : c.sessions k = .active (.stmt effect next) log rest) :
    c.step k = c ∨ (∃ e, effect (c.view log) = .error e ∧ c.step k = c.set k (afterFailure e rest)) ∨
      ∃ ws, effect (c.view log) = .ok ws ∧
        c.step k = c.set k (.active (next (c.view log)) (log ++ ws) rest) := by
  unfold step
  simp only [hk]
  split
  · next e he => exact .inr (.inl ⟨e, he, rfl⟩)
  · next ws hw =>
    split_ifs
    · exact .inl rfl
    · exact .inr (.inr ⟨ws, hw, rfl⟩)

/-- A turn touches no other session. -/
theorem step_sessions_ne (c : Config κ σ ω ε ι α) {k j : κ} (h : j ≠ k) :
    (c.step k).sessions j = c.sessions j := by
  have ht := turn_step c k
  generalize c.step k = c' at ht ⊢
  cases ht <;> first | rfl | exact set_sessions_ne c h _

/-- Only a commit changes the committed store. -/
theorem step_committed (c : Config κ σ ω ε ι α) (k : κ) :
    (c.step k).committed = c.committed ∨
      ∃ a log rest, c.sessions k = .active (.pure a) log rest ∧
        (c.step k).sessions k = .done (.ok a) log ∧
        (c.step k).committed = replay c.committed log := by
  have ht := turn_step c k
  generalize c.step k = c' at ht ⊢
  cases ht with
  | commit hk => exact .inr ⟨_, _, _, hk, set_sessions_self .., rfl⟩
  | _ => exact .inl rfl

end Config

section contracts

variable {κ σ ω ε ι α : Type} [DecidableEq κ] [Fintype κ] [Engine σ ω ε]

/-- The session keeps a contract: so do its open body and the attempts it may
still make, and its writes and result are what the contract allows. -/
def Session.Meets (rely : List ω → σ → Prop) (guar : List ω → ω → Prop)
    (post : Except ε α → List ω → Prop) : Session σ ω ε ι α → Prop
  | .ready attempts => ∀ p ∈ attempts, Program.Meets rely guar post p []
  | .active body log rest => Permitted guar log ∧ Program.Meets rely guar post body log ∧
      ∀ p ∈ rest, Program.Meets rely guar post p []
  | .done (.ok a) log => Permitted guar log ∧ post (.ok a) log
  | .done (.error e) log => log = [] ∧ ∃ log', post (.error e) log'

theorem Session.meets_afterFailure {rely : List ω → σ → Prop} {guar : List ω → ω → Prop}
    {post : Except ε α → List ω → Prop} {e : ε} {log : List ω} {rest : List (Program σ ω ε ι α)}
    (he : post (.error e) log) (hrest : ∀ p ∈ rest, Program.Meets rely guar post p []) :
    (Config.afterFailure e rest).Meets rely guar post := by
  cases rest with
  | nil => exact ⟨rfl, log, he⟩
  | cons p rest =>
    unfold Config.afterFailure
    split_ifs
    · exact hrest
    · exact ⟨rfl, log, he⟩

/-- Every write the session holds, committed or may still make satisfies `W`. -/
def Session.Writes (W : ω → Prop) : Session σ ω ε ι α → Prop
  | .ready attempts => ∀ p ∈ attempts, Program.Writes W p
  | .active body log rest =>
      (∀ w ∈ log, W w) ∧ Program.Writes W body ∧ ∀ p ∈ rest, Program.Writes W p
  | .done _ log => ∀ w ∈ log, W w

theorem Session.writes_afterFailure {W : ω → Prop} {e : ε} {rest : List (Program σ ω ε ι α)}
    (hrest : ∀ p ∈ rest, Program.Writes W p) :
    (Config.afterFailure e rest : Session σ ω ε ι α).Writes W := by
  cases rest with
  | nil => exact fun w hw => by cases hw
  | cons p rest =>
    unfold Config.afterFailure
    split_ifs
    · exact hrest
    · exact fun w hw => by cases hw

theorem Config.step_writes {W : ω → Prop} (c : Config κ σ ω ε ι α) (k : κ)
    (h : (c.sessions k).Writes W) : ((c.step k).sessions k).Writes W := by
  have ht := turn_step c k
  generalize c.step k = c' at ht ⊢
  cases ht with
  | idle => exact h
  | begin hk =>
    rw [hk] at h
    rw [set_sessions_self]
    exact ⟨by simp, h _ (by simp), fun p hp => h p (by simp [hp])⟩
  | commit hk =>
    rw [hk] at h
    change ((c.set k _).sessions k).Writes W
    rw [set_sessions_self]
    exact h.1
  | throw hk =>
    rw [hk] at h
    rw [set_sessions_self]
    exact Session.writes_afterFailure h.2.2
  | draw hk =>
    rw [hk] at h
    change ((c.set k _).sessions k).Writes W
    rw [set_sessions_self]
    exact ⟨h.1, h.2.1 _, h.2.2⟩
  | fail hk _ =>
    rw [hk] at h
    rw [set_sessions_self]
    exact Session.writes_afterFailure h.2.2
  | write hk hw _ =>
    rw [hk] at h
    rw [set_sessions_self]
    refine ⟨?_, h.2.1.2 _, h.2.2⟩
    intro w hm
    rcases List.mem_append.mp hm with hm | hm
    · exact h.1 w hm
    · exact h.2.1.1 _ _ hw w hm

/-- What the writes of each session keep of the committed store, every schedule keeps. -/
theorem Config.run_writes {W : κ → ω → Prop} {I : σ → Prop}
    (hreplay : ∀ k s log, (∀ w ∈ log, W k w) → I s → I (replay s log))
    {c : Config κ σ ω ε ι α} (hsessions : ∀ k, (c.sessions k).Writes (W k)) (hc : I c.committed)
    (schedule : List κ) : I (c.run schedule).committed := by
  induction schedule generalizing c with
  | nil => exact hc
  | cons k schedule ih =>
    refine ih (fun j => ?_) ?_
    · by_cases hj : j = k
      · subst hj
        exact step_writes c j (hsessions j)
      · rw [step_sessions_ne c hj]
        exact hsessions j
    · rcases step_committed c k with hsame | ⟨a, log, rest, hk, -, hcommitted⟩
      · rwa [hsame]
      · rw [hcommitted]
        have hwrites := hsessions k
        rw [hk] at hwrites
        exact hreplay k _ _ hwrites.1 hc

end contracts
end AiKanban.Transactions
