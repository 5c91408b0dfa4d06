import AiKanban.Invariants.WaitingReasons
import AiKanban.Transactions.Locking
import AiKanban.Transitions.Runs

/-!
# Policy changes at once

On Postgres a policy change holds the rows of the boards whose policies it replaces, so that no
other change comes between what it read and the version it writes.
-/
namespace AiKanban.Invariants

open Application Db Domain Effects Policy Relational Services Transactions

section locks

/-- The transaction has written the board's row, and nobody else can until it ends. -/
def HoldsBoard (log : List Write) (boardId : Uuid) : Prop :=
  ∃ base next, Write.boards (.update base next) ∈ log ∧ base.id = boardId

theorem HoldsBoard.append {log : List Write} {boardId : Uuid} (h : HoldsBoard log boardId) (ws : List Write) :
    HoldsBoard (log ++ ws) boardId := by
  obtain ⟨base, next, hmem, hid⟩ := h
  exact ⟨base, next, List.mem_append_left ws hmem, hid⟩

/-- The boards held are the ones whose policies have not moved. -/
def Unmoved (before : Uuid → Option BoardPolicy) (s : Store) (log : List Write) : Prop :=
  ∀ boardId, HoldsBoard log boardId → PolicyRepository.newest s boardId = before boardId

/-- What a policy change may be shown: its boards' policies as they were, until it writes one. -/
def Shown (boards : List Uuid) (before : Uuid → Option BoardPolicy) (log : List Write) (v : Store) :
    Prop :=
  Housed boards v ∧ (Quiet log → Unmoved before v log)

variable {boards : List Uuid} {before : Uuid → Option BoardPolicy}

theorem Unmoved.of_append {s : Store} {log ws : List Write} (h : Unmoved before s (log ++ ws)) :
    Unmoved before s log :=
  fun boardId hheld => h boardId (hheld.append ws)

/-- A policy that is found belongs to a board that was there to be locked. -/
theorem meets_getActiveForUpdate (boardId : Uuid) (log : List Write) (hquiet : Quiet log) :
    Program.Meets (Shown boards before) (VersionWrite HoldsBoard before)
      (ReadForUpdate HoldsBoard before boardId log) (PolicyRepository.getActiveForUpdate boardId) log := by
  unfold PolicyRepository.getActiveForUpdate lockBoard
  refine Program.Meets.bind (Program.meets_write (fun _ _ _ h => by cases h) fun v ws hv hws => ?_)
  have hlocks : ∀ x ∈ ws, ∃ board, x = .boards (.update board board) := by
    cases hws
    intro x hx
    obtain ⟨board, -, rfl⟩ := List.mem_map.mp hx
    exact ⟨board, rfl⟩
  have hlocked : ∀ board ∈ v.boards.rows, board.id = boardId → .boards (.update board board) ∈ ws := by
    cases hws
    intro board hboard hid
    exact List.mem_map.mpr ⟨board, List.mem_filter.mpr ⟨hboard, by simpa using hid⟩, rfl⟩
  have hquiet' : Quiet (log ++ ws) := by
    intro x hx
    rcases List.mem_append.mp hx with hx | hx
    · exact hquiet x hx
    · obtain ⟨board, rfl⟩ := hlocks x hx
      simp [Write.tableName]
  refine ⟨fun x hx => ?_, Program.meets_read fun v' hv' => ⟨⟨ws, rfl, hquiet'⟩, fun policy hpolicy => ?_⟩⟩
  · obtain ⟨board, rfl⟩ := hlocks x hx
    exact .locked board board
  · have hfound : PolicyRepository.newest v' boardId = some policy := Except.ok.inj hpolicy
    have hheld : HoldsBoard (log ++ ws) boardId := by
      obtain ⟨hmem, hboard⟩ := newest_mem hfound
      obtain ⟨board, hrow, hid⟩ := hv.1.rows _ (hv'.1.policies policy hmem)
      exact ⟨board, board, List.mem_append_right log (hlocked board hrow (hid.trans hboard)),
        hid.trans hboard⟩
    exact ⟨hheld, (hv'.2 hquiet' boardId hheld).symm.trans hfound⟩

theorem meets_onPostgres [Platform] (change : PolicyChange) :
    Program.Meets (Shown boards before) (VersionWrite HoldsBoard before) (fun _ _ => True)
      change.onPostgres [] :=
  meets_applyWith (fun _ ws _ hheld => hheld.append ws) meets_getActiveForUpdate ..

theorem mem_boards_of_newest {s : Store} {boardId : Uuid} {policy : BoardPolicy}
    (h : Housed boards s) (hnewest : PolicyRepository.newest s boardId = some policy) :
    boardId ∈ boards := by
  obtain ⟨hmem, rfl⟩ := newest_mem hnewest
  exact h.policies policy hmem

theorem housed_replay {s : Store} {log : List Write} (h : Housed boards s)
    (hlog : VersionLog HoldsBoard before log) (hbefore : Unmoved before s log) :
    Housed boards (replay s log) :=
  h.replay hlog fun boardId _ hheld hcurrent =>
    mem_boards_of_newest h ((hbefore boardId hheld).trans hcurrent)

theorem versionLog_held {log : List Write} (h : Program.Permitted (VersionWrite HoldsBoard before) log) :
    VersionLog HoldsBoard before log :=
  versionLog_of_permitted (fun _ ws _ hheld => hheld.append ws) h

/-- A statement of a change that read what it holds is shown what its contract relies on. -/
theorem shown_replay {s : Store} {log : List Write} (h : Housed boards s)
    (hbefore : Unmoved before s log) (hlog : Program.Permitted (VersionWrite HoldsBoard before) log) :
    Shown boards before log (replay s log) := by
  refine ⟨housed_replay h (versionLog_held hlog) hbefore, fun hquiet boardId hheld => ?_⟩
  rw [newest_congr (sameTable_replay s hquiet)]
  exact hbefore boardId hheld

/-- Two transactions cannot hold the same board. -/
theorem conflicts_of_held {log log' : List Write} {boardId : Uuid} (h : HoldsBoard log boardId)
    (h' : HoldsBoard log' boardId) :
    ∃ x ∈ log, ∃ y ∈ log', Write.conflicts x y = true ∧ Write.conflicts y x = true := by
  obtain ⟨base, next, hmem, hid⟩ := h
  obtain ⟨base', next', hmem', hid'⟩ := h'
  refine ⟨_, hmem, _, hmem', ?_, ?_⟩
  · simp [Write.conflicts, RowWrite.conflicts, RowWrite.versions, Row.clash, hid, hid']
  · simp [Write.conflicts, RowWrite.conflicts, RowWrite.versions, Row.clash, hid, hid']

end locks

section races

variable {κ : Type} {boards : List Uuid} {c : PgConfig κ BoardPolicy}

/-- What holds between any two statements of the policy changes. -/
structure Racing (boards : List Uuid) (c : PgConfig κ BoardPolicy) : Prop where
  defined : ReasonsDefined c.committed
  housed : Housed boards c.committed
  exclusive : c.Exclusive
  frozen : ∀ caller, (c.sessions caller).Frozen Unmoved (Shown boards) (VersionWrite HoldsBoard) c.committed

/-- A board is held by one change alone. -/
theorem Racing.held_unique (h : Racing boards c) {j k : κ} {boardId : Uuid}
    (hj : HoldsBoard (c.sessions j).held boardId) (hk : HoldsBoard (c.sessions k).held boardId) : j = k := by
  by_contra hne
  obtain ⟨x, hx, y, hy, hxy, hyx⟩ := conflicts_of_held hj hk
  rcases h.exclusive j k hne x hx y hy with hfree | hfree
  · exact absurd (hxy.symm.trans hfree) (by decide)
  · exact absurd (hyx.symm.trans hfree) (by decide)

/-- What a commit makes of the policies. -/
theorem Racing.commit (h : Racing boards c) {caller : κ} {version : BoardPolicy} {log : List Write}
    {rest : List (Tx BoardPolicy)} (hk : c.sessions caller = .active (.pure version) log rest) :
    ReasonsDefined (replay c.committed log) ∧ Housed boards (replay c.committed log) ∧
      ∀ boardId, HoldsBoard log boardId ∨
        PolicyRepository.newest (replay c.committed log) boardId =
          PolicyRepository.newest c.committed boardId := by
  have hfrozen := h.frozen caller
  rw [hk] at hfrozen
  have hbefore : Unmoved (PolicyRepository.newest c.committed) c.committed log := fun _ _ => rfl
  have hlog := versionLog_held (hfrozen.1 _ hbefore).1
  refine ⟨?_, housed_replay h.housed hlog hbefore, fun boardId => ?_⟩
  · have hframe : ∀ name, name ∉ versionTables →
        c.committed.SameTable name (replay c.committed log) :=
      fun name hname => sameTable_replay _ fun x hx heq => hname (heq ▸ (hlog x hx).tableName)
    have hkept := reasonsKept_replay (s := c.committed) hlog fun _ _ => rfl
    exact (h.defined.mono hkept).of_tables (hframe .cards (by decide))
      (hframe .cardEvents (by decide))
  · rcases newest_replay c.committed boardId hlog with hsame | ⟨_, _, _, hheld, _⟩
    · exact .inr hsame
    · exact .inl hheld

theorem racing_policyChanges [Platform] {w : World Store Tick} (hw : ReasonsDefined w.store)
    (hhoused : Housed boards w.store) (changes : κ → PolicyChange) :
    Racing boards (policyChanges changes w) where
  defined := hw
  housed := hhoused
  exclusive := fun _ _ _ x hx => by cases hx
  frozen := by
    intro caller p hp before
    obtain rfl := List.mem_singleton.mp hp
    exact meets_onPostgres _

variable [DecidableEq κ] [Fintype κ]

/-- A change's next statement keeps what the others found. -/
theorem Racing.statement (h : Racing boards c) (caller : κ) : Racing boards (c.step caller) := by
  have hown : ((c.step caller).sessions caller).Frozen Unmoved (Shown boards) (VersionWrite HoldsBoard)
      (c.step caller).committed :=
    Config.step_frozen c caller (fun _ _ _ hunmoved => hunmoved.of_append)
      (fun _ _ hunmoved hlog => shown_replay h.housed hunmoved hlog) (h.frozen caller)
  have hexclusive := h.exclusive.step caller
  rcases Config.step_committed c caller with hsame | ⟨version, log, rest, hk, -, hcommitted⟩
  · refine ⟨hsame ▸ h.defined, hsame ▸ h.housed, hexclusive, fun other => ?_⟩
    by_cases hother : other = caller
    · subst hother
      exact hown
    · rw [Config.step_sessions_ne c hother, hsame]
      exact h.frozen other
  · obtain ⟨hdefined, hhoused, hmoved⟩ := h.commit hk
    refine ⟨hcommitted ▸ hdefined, hcommitted ▸ hhoused, hexclusive, fun other => ?_⟩
    by_cases hother : other = caller
    · subst hother
      exact hown
    · rw [Config.step_sessions_ne c hother, hcommitted]
      refine (h.frozen other).of_agrees fun before hunmoved boardId hheld => ?_
      rcases hmoved boardId with hlocked | hsame
      -- the board would be held twice
      · exact absurd (h.held_unique hheld (by rw [hk]; exact hlocked)) hother
      · rw [← hsame]
        exact hunmoved boardId hheld

/-- An operation on a card leaves the policies alone. -/
theorem Racing.card [Platform] (h : Racing boards c) (op : CardOperation) :
    Racing boards (policyTurn c (.card op)) := by
  have hframe : ∀ name, name ∉ cardTables →
      c.committed.SameTable name (policyTurn c (.card op)).committed :=
    fun name hname => card_sameTable (w := ⟨c.committed, c.inputs, c.drawn⟩) op hname
  have hpolicies := hframe .boardPolicies (by decide)
  refine ⟨ReasonsDefined.card (w := ⟨c.committed, c.inputs, c.drawn⟩) h.defined op,
    h.housed.of_tables hpolicies (hframe .boards (by decide)), h.exclusive, fun caller => ?_⟩
  refine (h.frozen caller).of_agrees fun before hunmoved boardId hheld => ?_
  rw [← newest_congr hpolicies]
  exact hunmoved boardId hheld

/-- Reasons stay defined in every interleaving of policy changes with each other and with
operations on cards. -/
theorem reasonsDefined_races [Platform] {w : World Store Tick} (hw : Reasoned w)
    (changes : κ → PolicyChange) (turns : List (PolicyTurn κ)) :
    ReasonsDefined (Transitions.runAll policyTurn (policyChanges changes w) turns).committed := by
  obtain ⟨hdefined, boards, hhoused⟩ := hw
  refine (Transitions.runAll_induction (I := Racing boards) (P := fun _ _ => True) ?_
    (racing_policyChanges hdefined hhoused changes) (Transitions.admitted_of_forall fun _ _ _ => trivial)).defined
  intro c turn h _
  cases turn with
  | statement caller => exact h.statement caller
  | card op => exact h.card op

/-- Every reason that a card or a cancellation names is a key of its board's active policy: after
every run, in every interleaving of policy changes that follows it, and because a stored version
takes over the keys of the one before and is still accepted. -/
theorem waitingReasons_defined [Platform] (inputs : ℕ → Tick) (ops : List Operation)
    (changes : κ → PolicyChange) (turns : List (PolicyTurn κ)) :
    ReasonsDefined (run (freshlySeeded inputs) ops).store ∧
      ReasonsDefined (Transitions.runAll policyTurn
        (policyChanges changes (run (freshlySeeded inputs) ops)) turns).committed ∧
      ∀ boardId actor document w r w',
        transact (PolicyService.apply boardId actor document) w = (.ok r, w') →
          r.boardId = boardId ∧ Merges w.store r ∧ r ∈ w'.store.boardPolicies.rows ∧
            ∀ version ∈ w'.store.boardPolicies.rows,
              version ∈ w.store.boardPolicies.rows ∨ Merges w.store version := by
  have hreasoned := reasoned_run inputs ops
  refine ⟨hreasoned.1, reasonsDefined_races hreasoned changes turns, ?_⟩
  intro boardId actor document w r w' h
  exact runs_apply_merges (transact_ok_iff.mp h)

end races

end AiKanban.Invariants
