import AiKanban.Application.AccountSessions
import AiKanban.Effects.Guards
import AiKanban.Transactions.Copies

/-!
# Copies of user rows

A Slack resolution and a profile update write back a whole row that an earlier statement read.
-/
namespace AiKanban.Invariants

open Application Domain Db Effects Policy Relational Services Server Transactions

section rows

variable {V : Type}

/-- What the store has of a user. -/
def ofUser (f : User → V) (userId : Uuid) (s : Store) : Option V :=
  (s.users.find? userId).map fun row => f row.user

theorem ofUser_mem {f : User → V} {s : Store} {row : UserCredentials} (h : row ∈ s.users.rows) :
    ofUser f row.user.id s = some (f row.user) := by
  have hfound : s.users.find? row.user.id = some row := Table.find?_eq_some_iff.mpr ⟨h, rfl⟩
  rw [ofUser, hfound]
  rfl

/-- The write makes or removes a version of the user's row. -/
inductive Touches : Write → Uuid → Prop where
  | insert (row : UserCredentials) : Touches (.users (.insert row)) row.user.id
  | update (base next : UserCredentials) : Touches (.users (.update base next)) next.user.id
  | delete (row : UserCredentials) : Touches (.users (.delete row)) row.user.id

/-- Copies of users, of which `f` is watched; what is written back is an `R` of the copy. -/
def accountCopies (f : User → V) (R : V → V → Prop) : Copies Store Write Uuid (Option V) User where
  facet := ofUser f
  key := (·.id)
  value copy := some (f copy)
  writesBack copy x := ∃ base next, x = .users (.update base next) ∧ next.user.id = copy.id ∧
    R (f copy) (f next.user)
  touches := Touches

theorem ofUser_apply {f : User → V} {s : Store} {x : Write} {userId : Uuid}
    (h : ¬ Touches x userId) : ofUser f userId (Replay.apply s x) = ofUser f userId s := by
  by_cases htable : x.tableName = .users
  · have husers : ∃ w, x = .users w := by
      cases x <;> first | exact ⟨_, rfl⟩ | cases htable
    obtain ⟨w, rfl⟩ := husers
    cases w with
    | insert row =>
      have hne : row.user.id ≠ userId := fun hid => h (hid ▸ .insert row)
      exact congrArg (Option.map _) (Table.find?_insert_ne hne)
    | update base next =>
      have hne : next.user.id ≠ userId := fun hid => h (hid ▸ .update base next)
      exact congrArg (Option.map _) (Table.find?_update_ne hne)
    | delete row =>
      have hfound : (s.users.remove fun x => decide (Row.key x = Row.key row)).find? userId =
          s.users.find? userId := by
        rw [Table.find?_remove]
        cases hother : s.users.find? userId with
        | none => rfl
        | some other =>
          have hid : other.user.id = userId := Table.find?_key hother
          have hne : Row.key other ≠ Row.key row := fun hkey =>
            h ((hid.symm.trans hkey).symm ▸ .delete row)
          simp [Option.filter, hne]
      exact congrArg (Option.map _) hfound
  · have hsame : (Replay.apply s x).users = s.users := sameTable_apply s htable
    rw [ofUser, ofUser, hsame]

theorem ofUser_replay {f : User → V} {s : Store} {log : List Write} {userId : Uuid}
    (h : ∀ x ∈ log, ¬ Touches x userId) : ofUser f userId (replay s log) = ofUser f userId s := by
  induction log generalizing s with
  | nil => rfl
  | cons x log ih =>
    rw [replay_cons, ih fun y hy => h y (List.mem_cons_of_mem x hy), ofUser_apply (h x (by simp))]

theorem accountCopies_lawful (f : User → V) (R : V → V → Prop) :
    (accountCopies f R).Lawful (ε := DomainError) where
  frame := fun _ _ _ h => ofUser_replay h
  clash := by
    rintro copy _ y ⟨base, next, rfl, hid, -⟩ htouches
    have hclash : ∀ row : UserCredentials, row.user.id = next.user.id →
        Row.clash next row = true ∧ Row.clash row next = true :=
      fun row hrow => ⟨Row.clash_of_key next row hrow.symm, Row.clash_of_key row next hrow⟩
    change Touches y copy.id at htouches
    rw [← hid] at htouches
    generalize hkey : next.user.id = key at htouches hclash
    change Write.conflicts _ _ = true ∧ Write.conflicts _ _ = true
    cases htouches with
    | insert row =>
      obtain ⟨h, h'⟩ := hclash row rfl
      simp [Write.conflicts, RowWrite.conflicts, RowWrite.versions, h, h']
    | update base' next' =>
      obtain ⟨h, h'⟩ := hclash next' rfl
      simp [Write.conflicts, RowWrite.conflicts, RowWrite.versions, h, h']
    | delete row =>
      obtain ⟨h, h'⟩ := hclash row rfl
      simp [Write.conflicts, RowWrite.conflicts, RowWrite.versions, h, h']

end rows

section calls

variable {V : Type} {f : User → V} {R : V → V → Prop}

/-- `R` allows what a binding makes of a copy. -/
def AllowsBinding (f : User → V) (R : V → V → Prop) : Prop :=
  ∀ (user : User) slackUserId createdAt, user.slackUserId.any (· != slackUserId) = false →
    R (f user) (f { user with slackUserId := some slackUserId, createdAt })

/-- `R` allows what a profile update makes of a copy. -/
def AllowsProfile (f : User → V) (R : V → V → Prop) : Prop :=
  ∀ (user : User) timezone theme createdAt, R (f user) (f { user with timezone, theme, createdAt })

/-- A binding is all that may be written back of the copy. -/
theorem writes_bindSlackIdentity (hbind : AllowsBinding f R) (user : User) (slackUserId : String) :
    (bindSlackIdentity user slackUserId).Writes ((accountCopies f R).writesBack user) := by
  unfold bindSlackIdentity
  split_ifs with hbound
  · exact Program.writes_pure _
  · refine Program.Writes.bind (writes_modifyRow fun row _ => ?_) fun _ => Program.writes_pure _
    exact ⟨row, _, rfl, rfl, hbind user slackUserId _ (by simpa using hbound)⟩

theorem looks_resolveSlackUser (hbind : AllowsBinding f R) (slackUserId : String)
    (email : Option String) : (accountCopies f R).Looks (resolveSlackUser slackUserId email) := by
  unfold resolveSlackUser
  refine Copies.looks_read_bind fun v => .inl ?_
  cases v.users.rows.find? fun row => row.user.slackUserId == some slackUserId with
  | some bound => trivial
  | none =>
    cases email with
    | none => trivial
    | some email =>
      refine Copies.looks_read_bind fun v => ?_
      cases hfound : v.users.rows.find? fun row => asciiLower row.user.email == asciiLower email with
      | none => exact .inl trivial
      | some row =>
        refine .inr ⟨row.user, ofUser_mem (List.mem_of_find?_eq_some hfound), ?_⟩
        change Program.Writes _ (if _ then _ else _)
        split_ifs
        · exact writes_bindSlackIdentity hbind _ _
        · exact Program.writes_pure _

theorem readsOnly_visible (recipientId : Uuid) (cardId : ℕ) :
    (SlackNotifier.visible recipientId cardId).ReadsOnly := by
  unfold SlackNotifier.visible
  refine (Program.readsOnly_read _).bind fun found => (Program.readsOnly_read _).bind fun card => ?_
  cases found with
  | none => exact Program.readsOnly_pure _
  | some current =>
    cases card with
    | none => exact Program.readsOnly_pure _
    | some card =>
      change Program.ReadsOnly (if _ then _ else _)
      split_ifs
      · refine (Program.readsOnly_read _).bind fun board => ?_
        cases board with
        | none => exact Program.readsOnly_pure _
        | some board => exact readsOnly_canAccessBoard _ _
      · exact Program.readsOnly_pure _

theorem writes_dmUser (hbind : AllowsBinding f R) (recipient : User) (cardId : ℕ)
    (found : Option String) : (SlackNotifier.dmUser recipient cardId found).Writes
      ((accountCopies f R).writesBack recipient) := by
  unfold SlackNotifier.dmUser
  refine (readsOnly_visible _ _).writes.bind fun visible => ?_
  cases visible with
  | false => exact Program.writes_pure _
  | true =>
    cases recipient.slackUserId with
    | some slackUserId => exact Program.writes_pure _
    | none =>
      cases found with
      | none => exact Program.writes_pure _
      | some slackUserId =>
        exact (writes_bindSlackIdentity hbind _ _).bind fun _ => Program.writes_pure _

theorem looks_notify (hbind : AllowsBinding f R) (recipientId : Uuid) (cardId : ℕ)
    (found : Option String) :
    (accountCopies f R).Looks (SlackNotifier.notify recipientId cardId found) := by
  unfold SlackNotifier.notify
  refine Copies.looks_read_bind fun v => ?_
  cases hfound : v.users.find? recipientId with
  | none => exact .inl trivial
  | some account =>
    exact .inr ⟨account.user, ofUser_mem (Table.mem_of_find? hfound), writes_dmUser hbind _ _ _⟩

theorem looks_updateProfile [AuthPlatform] (hprofile : AllowsProfile f R) (userId : Uuid)
    (raw : UpdateProfileInput) : (accountCopies f R).Looks (AuthService.updateProfile userId raw) := by
  unfold AuthService.updateProfile requireFound
  refine Copies.Looks.bind (Program.readsOnly_ofExcept _) fun input => ?_
  refine Copies.looks_read_bind fun v => ?_
  cases hfound : v.users.find? userId with
  | none => exact .inl trivial
  | some row =>
    refine .inr ⟨row.user, ofUser_mem (Table.mem_of_find? hfound), ?_⟩
    refine Program.writes_require_bind fun found hsome => ?_
    obtain rfl : row.user = found := Option.some.inj hsome
    refine Program.Writes.bind (writes_modifyRow fun base _ => ?_) fun _ => Program.writes_pure _
    exact ⟨base, _, rfl, rfl, hprofile row.user _ _ _⟩

theorem looks_discard {α : Type} {p : Tx α} (h : (accountCopies f R).Looks p) :
    (accountCopies f R).Looks (discard p) :=
  h.then fun _ => Program.readsOnly_pure _

theorem looks_slackCall (hbind : AllowsBinding f R) (call : SlackCall) :
    (accountCopies f R).Looks call.body := by
  cases call with
  | resolve slackUserId email => exact looks_discard (looks_resolveSlackUser hbind _ _)
  | notify recipientId cardId found => exact looks_discard (looks_notify hbind _ _ _)

theorem looks_accountCall [AuthPlatform] (hbind : AllowsBinding f R) (hprofile : AllowsProfile f R)
    {call : AccountCall} (h : call.administered = none) :
    (accountCopies f R).Looks call.body := by
  cases call with
  | slack call => exact looks_slackCall hbind call
  | profile userId raw => exact looks_discard (looks_updateProfile hprofile _ _)
  | admin deps actor userId raw temp => cases h

end calls

section commits

variable {V : Type} {f : User → V} {R : V → V → Prop} {κ : Type}

/-- Calls that have not begun hold no copy. -/
theorem kept_unbegun {bodies : κ → Tx Unit} {copier : κ → Prop}
    (h : ∀ k, copier k → (accountCopies f R).Looks (bodies k)) (s : Store) (inputs : ℕ → Tick) :
    (accountCopies f R).Kept copier (unbegun bodies s inputs) where
  exclusive := fun _ _ _ x hx => by cases hx
  stage := by
    intro k hk p hp
    rw [List.mem_singleton.mp hp]
    exact h k hk

/-- A value that `R` does not move survives what is written back of a copy that has it. -/
theorem ofUser_writesBack {value : V} (hstays : ∀ next, R value next → next = value) {copy : User}
    (hcopy : f copy = value) {log : List Write}
    (hlog : ∀ x ∈ log, (accountCopies f R).writesBack copy x) {s : Store}
    (hs : ofUser f copy.id s = some value) : ofUser f copy.id (replay s log) = some value := by
  induction log generalizing s with
  | nil => exact hs
  | cons x log ih =>
    refine ih (fun y hy => hlog y (List.mem_cons_of_mem x hy)) ?_
    obtain ⟨base, next, rfl, hid, hR⟩ := hlog x (by simp)
    have hnext : f next.user = value := hstays _ (hcopy ▸ hR)
    change (Option.map _ ((s.users.update next).find? copy.id)) = some value
    cases haccepts : s.users.acceptsUpdate next with
    | false =>
      rw [Table.update_eq_self haccepts]
      exact hs
    | true =>
      have hkey : Row.key next = copy.id := hid
      rw [Table.find?_update haccepts, if_pos hkey]
      obtain ⟨row, hrow, -⟩ := Option.map_eq_some_iff.mp hs
      rw [hrow, Option.map_some, Option.map_some, hnext]

variable [DecidableEq κ] [Fintype κ] {c : PgConfig κ Unit} {k : κ}

/-- A turn of a call with a current copy leaves the values that `R` does not move. -/
theorem ofUser_step (hstage : (accountCopies f R).Stage c.committed (c.sessions k)) {userId : Uuid}
    {value : V} (hstays : ∀ next, R value next → next = value)
    (hvalue : ofUser f userId c.committed = some value) :
    ofUser f userId (c.step k).committed = some value := by
  rcases Copies.stage_commit hstage with hsame | ⟨copy, log, hlog, hfresh, hcommitted⟩
  · rwa [hsame]
  · rw [hcommitted]
    by_cases hid : copy.id = userId
    · subst hid
      exact ofUser_writesBack hstays (Option.some.inj (hfresh.symm.trans hvalue)) hlog hvalue
    · rw [ofUser_replay fun x hx htouches => ?_]
      · exact hvalue
      · obtain ⟨base, next, rfl, hnext, -⟩ := hlog x hx
        cases htouches
        exact hid hnext.symm

end commits

end AiKanban.Invariants
