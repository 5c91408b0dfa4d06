import AiKanban.Invariants.AccountCopies
import AiKanban.Invariants.Administrators
import AiKanban.Invariants.Demotions

/-!
# Identity writes

Where nobody changes a user while another call holds a copy of the row, no copy that is written
back takes an admin's decision or a Slack binding away. A copy that is out of date does.
-/
namespace AiKanban.Invariants

open Application Domain Db Effects Policy Relational Services Server Transactions

section bindings

variable {κ : Type} [DecidableEq κ] [Fintype κ]

/-- A binding may be made, and stays once it is made. -/
def Sticks (old new : Option String) : Prop := old = none ∨ new = old

/-- Copies of users, of which the Slack binding is watched. -/
abbrev bindingCopies : Copies Store Write Uuid (Option (Option String)) User :=
  accountCopies (·.slackUserId) Sticks

def slackCalls (calls : κ → SlackCall) (s : Store) (inputs : ℕ → Tick) : PgConfig κ Unit :=
  unbegun (fun caller => (calls caller).body) s inputs

theorem allowsBinding_sticks : AllowsBinding (·.slackUserId) Sticks := by
  intro user slackUserId createdAt hguard
  cases hslack : user.slackUserId with
  | none => exact .inl hslack
  | some bound =>
    rw [hslack] at hguard
    have hsame : bound = slackUserId := by simpa using hguard
    refine .inr ?_
    change some slackUserId = user.slackUserId
    rw [hslack, hsame]

end bindings

section decisions

variable {κ : Type}

/-- What an admin decides about a user. -/
def decisions (user : User) : Bool × Role × String := (user.isActive, user.role, user.displayName)

/-- Copies of users, of which the admin's decisions are watched. -/
abbrev decisionCopies : Copies Store Write Uuid (Option (Bool × Role × String)) User :=
  accountCopies decisions Eq

/-- The turn commits an admin update of the user. -/
def AdminCommits (calls : κ → AccountCall) (userId : Uuid) (c : PgConfig κ Unit) (k : κ) : Prop :=
  (calls k).administered = some userId ∧
    ∃ r log rest, c.sessions k = .active (.pure r) log rest

/-- What holds between any two statements of the calls. -/
structure Deciding (calls : κ → AccountCall) (c : PgConfig κ Unit) : Prop where
  kept : decisionCopies.Kept (fun k => (calls k).administered = none) c
  writes : ∀ k userId, (calls k).administered = some userId →
    (c.sessions k).Writes (AccountWrite userId)

def accountCalls [AuthPlatform] (calls : κ → AccountCall) (s : Store) (inputs : ℕ → Tick) : PgConfig κ Unit :=
  unbegun (fun caller => (calls caller).body) s inputs

theorem deciding_accountCalls [AuthPlatform] (calls : κ → AccountCall) (s : Store) (inputs : ℕ → Tick) :
    Deciding calls (accountCalls calls s inputs) := by
  have hbind : AllowsBinding decisions Eq := fun _ _ _ _ => rfl
  have hprofile : AllowsProfile decisions Eq := fun _ _ _ _ => rfl
  refine ⟨kept_unbegun (fun k hk => looks_accountCall hbind hprofile hk) s inputs, ?_⟩
  intro k userId hk p hp
  rw [List.mem_singleton.mp hp]
  change Program.Writes _ (calls k).body
  cases hcall : calls k with
  | slack call => simp [hcall, AccountCall.administered] at hk
  | profile userId raw => simp [hcall, AccountCall.administered] at hk
  | admin deps actor userId' raw temp =>
    obtain rfl : userId' = userId := by simpa [hcall, AccountCall.administered] using hk
    exact (writes_updateUser deps actor userId' raw temp).bind fun _ => Program.writes_pure _

variable [DecidableEq κ] [Fintype κ]

theorem Deciding.step {calls : κ → AccountCall} {c : PgConfig κ Unit} (h : Deciding calls c) {k : κ}
    (hcopies : c.Uncopied decisionCopies k) : Deciding calls (c.step k) := by
  refine ⟨Copies.Kept.step (accountCopies_lawful decisions Eq) h.kept hcopies, fun j userId hj => ?_⟩
  by_cases hjk : j = k
  · subst hjk
    exact Config.step_writes c j (h.writes j userId hj)
  · rw [Config.step_sessions_ne c hjk]
    exact h.writes j userId hj

/-- A turn that commits no admin update of the user leaves the decisions on the user. -/
theorem Deciding.decisions_step {calls : κ → AccountCall} {c : PgConfig κ Unit}
    (h : Deciding calls c) {k : κ} {userId : Uuid} (hadmin : ¬ AdminCommits calls userId c k)
    {value : Bool × Role × String} (hvalue : ofUser decisions userId c.committed = some value) :
    ofUser decisions userId (c.step k).committed = some value := by
  cases hcall : (calls k).administered with
  | none => exact ofUser_step (h.kept.stage k hcall) (fun _ heq => heq.symm) hvalue
  | some userId' =>
    rcases Config.step_committed c k with hsame | ⟨r, log, rest, hk, -, hcommitted⟩
    · rwa [hsame]
    · have hwrites := h.writes k userId' hcall
      rw [hk] at hwrites
      rw [hcommitted, ofUser_replay fun x hx htouches => ?_]
      · exact hvalue
      · have hx : AccountWrite userId' x := hwrites.1 x hx
        cases htouches with
        | insert row | delete row => exact hx
        | update base next =>
          refine hadmin ⟨?_, r, log, rest, hk⟩
          rw [hcall]
          exact congrArg some (Eq.symm hx)

end decisions

section samples

/-- A board with an administrator and, under 113, a user. -/
def peopled : World Store Tick :=
  @roleStep samplePlatform staffed
    (.createUser ⟨101, 102⟩ sampleActor ⟨"bo@example.com", "Bo", "user"⟩ ⟨"once", "hash"⟩)

/-- Two Slack accounts with one address. -/
def sampleResolutions : Bool → SlackCall
  | false => .resolve "U-old" (some "bo@example.com")
  | true => .resolve "U-new" (some "bo@example.com")

/-- A resolution and a deactivation of the user it resolves to. -/
def sampleDeactivation : Bool → AccountCall
  | false => .slack (.resolve "U-old" (some "bo@example.com"))
  | true => .admin ⟨101, 102⟩ sampleActor 113 { isActive := some false } ⟨"once", "hash"⟩

end samples

end AiKanban.Invariants
