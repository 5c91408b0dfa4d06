import Mathlib.Data.List.DropRight
import AiKanban.Application.PolicySessions
import AiKanban.Effects.Roles

/-!
# Policy versions keep waiting reasons

A new version of a policy takes over the reasons it drops, retired, and still parses. What a
policy change writes is bound by what it read under its locks.
-/
namespace AiKanban.Invariants

open Application Db Domain Effects Policy Relational Services Transactions

/-- The waiting-reason keys of the board's active policy. -/
def reasonKeys (s : Store) (boardId : Uuid) : List WaitingReason :=
  ((PolicyRepository.newest s boardId).map fun policy =>
    policy.config.waitingReasons.map (·.key)).getD []

/-- No board loses a reason. -/
def ReasonsKept (s s' : Store) : Prop :=
  ∀ boardId, ∀ reason ∈ reasonKeys s boardId, reason ∈ reasonKeys s' boardId

theorem ReasonsKept.refl (s : Store) : ReasonsKept s s := fun _ _ h => h

theorem ReasonsKept.trans {s s' s'' : Store} (h : ReasonsKept s s') (h' : ReasonsKept s' s'') :
    ReasonsKept s s'' :=
  fun boardId reason hreason => h' boardId reason (h boardId reason hreason)

theorem reasonKeys_of_newest {s : Store} {boardId : Uuid} {policy : BoardPolicy}
    (h : PolicyRepository.newest s boardId = some policy) :
    reasonKeys s boardId = policy.config.waitingReasons.map (·.key) := by
  simp [reasonKeys, h]

theorem reasonsKept_of_policies {s s' : Store} (h : s'.boardPolicies = s.boardPolicies) :
    ReasonsKept s s' := by
  intro boardId reason hreason
  rwa [reasonKeys, newest_congr h]

section merging

/-- A key that was defined is defined after the merge. -/
theorem mem_retireReasons {kept current : List WaitingReasonDefinition} {key : WaitingReason}
    (h : key ∈ current.map (·.key)) :
    key ∈ (PolicyService.retireReasons kept current).map (·.key) := by
  obtain ⟨reason, hreason, rfl⟩ := List.mem_map.mp h
  unfold PolicyService.retireReasons
  rw [List.map_append, List.mem_append]
  by_cases hkept : kept.all (·.key != reason.key)
  · refine .inr (List.mem_map.mpr ⟨{ reason with active := false }, ?_, rfl⟩)
    exact List.mem_map.mpr ⟨reason, List.mem_filter.mpr ⟨hreason, hkept⟩, rfl⟩
  · obtain ⟨other, hother, hkey⟩ : ∃ other ∈ kept, other.key = reason.key := by simpa using hkept
    exact .inl (List.mem_map.mpr ⟨other, hother, hkey⟩)

theorem keys_retired (kept current : List WaitingReasonDefinition) :
    (PolicyService.retireReasons kept current).map (·.key) =
      kept.map (·.key) ++ (current.filter fun reason => kept.all (·.key != reason.key)).map (·.key) := by
  simp [PolicyService.retireReasons, Function.comp_def]

/-- Retired reasons are neither active nor among the kept ones. -/
theorem nodup_retireReasons {kept current : List WaitingReasonDefinition}
    (hkept : (kept.map (·.key)).Nodup) (hcurrent : (current.map (·.key)).Nodup) :
    ((PolicyService.retireReasons kept current).map (·.key)).Nodup := by
  rw [keys_retired]
  refine hkept.append (hcurrent.sublist (List.filter_sublist.map _)) ?_
  intro key hkey hretired
  obtain ⟨reason, hreason, rfl⟩ := List.mem_map.mp hretired
  obtain ⟨other, hother, heq⟩ := List.mem_map.mp hkey
  have hall := List.all_eq_true.mp (List.mem_filter.mp hreason).2 other hother
  exact (bne_iff_ne.mp hall) heq

theorem active_retireReasons (kept current : List WaitingReasonDefinition) :
    (PolicyService.retireReasons kept current).filter (·.active) = kept.filter (·.active) := by
  unfold PolicyService.retireReasons
  have hretired : ((current.filter fun reason => kept.all (·.key != reason.key)).map fun reason =>
      { reason with active := false }).filter (·.active) = [] := by
    refine List.filter_eq_nil_iff.mpr fun reason hreason => ?_
    obtain ⟨_, -, rfl⟩ := List.mem_map.mp hreason
    exact Bool.false_ne_true
  rw [List.filter_append, hretired, List.append_nil]

/-- A parsed reason parses to itself, and a retired one too. -/
theorem parse_reason {raw reason : WaitingReasonDefinition} (h : raw.parse = .ok reason)
    (active : Bool) :
    WaitingReasonDefinition.parse { reason with active } = .ok { reason with active } := by
  unfold WaitingReasonDefinition.parse at h ⊢
  obtain ⟨_, hkey, h⟩ := ok_of_bind h
  obtain ⟨_, hlabel, h⟩ := ok_of_bind h
  cases h
  simp only [trim_trim, hkey, hlabel]
  rfl

theorem mapM_parse {reasons : List WaitingReasonDefinition}
    (h : ∀ reason ∈ reasons, reason.parse = .ok reason) :
    reasons.mapM WaitingReasonDefinition.parse = .ok reasons := by
  induction reasons with
  | nil => rfl
  | cons reason reasons ih =>
    rw [List.mapM_cons, h reason (by simp), ih fun r hr => h r (List.mem_cons_of_mem _ hr)]
    rfl

theorem parsed_of_mapM {raw parsed : List WaitingReasonDefinition}
    (h : raw.mapM WaitingReasonDefinition.parse = .ok parsed) :
    ∀ reason ∈ parsed, ∃ rawReason : WaitingReasonDefinition, rawReason.parse = .ok reason := by
  induction raw generalizing parsed with
  | nil =>
    cases h
    simp
  | cons rawReason raw ih =>
    rw [List.mapM_cons] at h
    obtain ⟨reason, hreason, h⟩ := ok_of_bind h
    obtain ⟨reasons, hreasons, h⟩ := ok_of_bind h
    cases h
    intro x hx
    rcases List.mem_cons.mp hx with rfl | hx
    · exact ⟨rawReason, hreason⟩
    · exact ih hreasons x hx

variable [Platform]

/-- What the schema of the waiting reasons asks for, and what it returns. -/
theorem parseWaitingReasons_iff {reasons parsed : List WaitingReasonDefinition} :
    parseWaitingReasons reasons = .ok parsed ↔
      reasons.mapM WaitingReasonDefinition.parse = .ok parsed ∧ parsed.any (·.active) = true ∧
        (parsed.map (·.key)).Nodup ∧
        ((parsed.filter (·.active)).map fun r => Platform.toLowerCase r.label).Nodup := by
  unfold parseWaitingReasons
  constructor
  · intro h
    obtain ⟨_, hparsed, h⟩ := ok_of_bind h
    obtain ⟨_, hactive, h⟩ := ok_of_bind h
    obtain ⟨_, hkeys, h⟩ := ok_of_bind h
    obtain ⟨_, hlabels, h⟩ := ok_of_bind h
    cases h
    refine ⟨hparsed, check_ok_iff.mp hactive, ?_, ?_⟩
    · exact of_decide_eq_true (check_ok_iff.mp hkeys)
    · exact of_decide_eq_true (check_ok_iff.mp hlabels)
  · rintro ⟨hparsed, hactive, hkeys, hlabels⟩
    refine (bind_of_ok hparsed).trans ?_
    refine (bind_of_ok (check_ok_iff.mpr hactive)).trans ?_
    refine (bind_of_ok (check_ok_iff.mpr (decide_eq_true hkeys))).trans ?_
    exact bind_of_ok (check_ok_iff.mpr (decide_eq_true hlabels))

/-- An accepted document may take over the roles of another, and any reasons that parse to
themselves. -/
theorem parse_mixed {document parsed other parsed' : PolicyDocument}
    {reasons : List WaitingReasonDefinition} (h : document.parse = .ok parsed)
    (hother : other.parse = .ok parsed') (hreasons : parseWaitingReasons reasons = .ok reasons) :
    PolicyDocument.parse { parsed with roles := parsed'.roles, waitingReasons := reasons } =
      .ok { parsed with roles := parsed'.roles, waitingReasons := reasons } := by
  unfold PolicyDocument.parse at h hother
  obtain ⟨_, hedges, h⟩ := ok_of_bind h
  obtain ⟨_, -, h⟩ := ok_of_bind h
  obtain ⟨_, -, h⟩ := ok_of_bind h
  obtain ⟨_, hstart, h⟩ := ok_of_bind h
  obtain ⟨_, hend, h⟩ := ok_of_bind h
  obtain ⟨_, hhours, h⟩ := ok_of_bind h
  obtain ⟨_, -, h⟩ := ok_of_bind h
  obtain ⟨_, -, h⟩ := ok_of_bind h
  obtain ⟨_, -, h⟩ := ok_of_bind h
  obtain ⟨_, hloops, h⟩ := ok_of_bind h
  obtain ⟨_, hdistinct, h⟩ := ok_of_bind h
  cases h
  obtain ⟨_, -, hother⟩ := ok_of_bind hother
  obtain ⟨_, hroles, hother⟩ := ok_of_bind hother
  obtain ⟨_, hrole, hother⟩ := ok_of_bind hother
  iterate 4 obtain ⟨_, -, hother⟩ := ok_of_bind hother
  obtain ⟨_, hkeys, hother⟩ := ok_of_bind hother
  obtain ⟨_, hmanage, hother⟩ := ok_of_bind hother
  iterate 2 obtain ⟨_, -, hother⟩ := ok_of_bind hother
  cases hother
  unfold PolicyDocument.parse
  refine (bind_of_ok hedges).trans ?_
  refine (bind_of_ok hroles).trans ?_
  refine (bind_of_ok hrole).trans ?_
  refine (bind_of_ok hstart).trans ?_
  refine (bind_of_ok hend).trans ?_
  refine (bind_of_ok hhours).trans ?_
  refine (bind_of_ok hreasons).trans ?_
  refine (bind_of_ok hkeys).trans ?_
  refine (bind_of_ok hmanage).trans ?_
  refine (bind_of_ok hloops).trans ?_
  exact bind_of_ok hdistinct

theorem parse_reasons {document parsed : PolicyDocument} (h : document.parse = .ok parsed) :
    parseWaitingReasons document.waitingReasons = .ok parsed.waitingReasons := by
  unfold PolicyDocument.parse at h
  iterate 6 obtain ⟨_, -, h⟩ := ok_of_bind h
  obtain ⟨reasons, hreasons, h⟩ := ok_of_bind h
  iterate 4 obtain ⟨_, -, h⟩ := ok_of_bind h
  cases h
  exact hreasons

/-- Accepted reasons, with accepted reasons they drop retired, are accepted as they are. -/
theorem parse_retireReasons {raw kept rawCurrent current : List WaitingReasonDefinition}
    (hkept : parseWaitingReasons raw = .ok kept)
    (hcurrent : parseWaitingReasons rawCurrent = .ok current) :
    parseWaitingReasons (PolicyService.retireReasons kept current) =
      .ok (PolicyService.retireReasons kept current) := by
  obtain ⟨hparsed, hactive, hkeys, hlabels⟩ := parseWaitingReasons_iff.mp hkept
  obtain ⟨hparsed', -, hkeys', -⟩ := parseWaitingReasons_iff.mp hcurrent
  refine parseWaitingReasons_iff.mpr ⟨mapM_parse ?_, ?_, nodup_retireReasons hkeys hkeys', ?_⟩
  · intro reason hreason
    rcases List.mem_append.mp hreason with hreason | hreason
    · obtain ⟨rawReason, hraw⟩ := parsed_of_mapM hparsed reason hreason
      exact parse_reason hraw reason.active
    · obtain ⟨retired, hretired, rfl⟩ := List.mem_map.mp hreason
      obtain ⟨rawReason, hraw⟩ := parsed_of_mapM hparsed' retired (List.mem_filter.mp hretired).1
      exact parse_reason hraw false
  · rw [PolicyService.retireReasons, List.any_append, hactive, Bool.true_or]
  · rwa [active_retireReasons]

/-- Accepted reasons are accepted as they are. -/
theorem parse_parsed {raw reasons : List WaitingReasonDefinition}
    (h : parseWaitingReasons raw = .ok reasons) : parseWaitingReasons reasons = .ok reasons := by
  obtain ⟨hparsed, hrest⟩ := parseWaitingReasons_iff.mp h
  refine parseWaitingReasons_iff.mpr ⟨mapM_parse fun reason hreason => ?_, hrest⟩
  obtain ⟨rawReason, hraw⟩ := parsed_of_mapM hparsed reason hreason
  exact parse_reason hraw reason.active

/-- The document is what the schema returns for some input. -/
def Accepted (config : PolicyDocument) : Prop := ∃ raw : PolicyDocument, raw.parse = .ok config

/-- What a policy drops, merged into an accepted document, makes an accepted document. -/
theorem parse_merged {document parsed current : PolicyDocument} (h : document.parse = .ok parsed)
    (hcurrent : Accepted current) :
    let merged := { parsed with
      waitingReasons := PolicyService.retireReasons parsed.waitingReasons current.waitingReasons }
    merged.parse = .ok merged := by
  obtain ⟨currentRaw, hcurrent⟩ := hcurrent
  exact parse_mixed h h (parse_retireReasons (parse_reasons h) (parse_reasons hcurrent))

/-- So do the roles of an accepted document in the place of others. -/
theorem parse_withRoles {document parsed current : PolicyDocument} (h : document.parse = .ok parsed)
    (hcurrent : Accepted current) :
    PolicyDocument.parse { current with roles := parsed.roles } =
      .ok { current with roles := parsed.roles } := by
  obtain ⟨currentRaw, hcurrent⟩ := hcurrent
  exact parse_mixed hcurrent h (parse_parsed (parse_reasons hcurrent))

end merging

section contract

/-- No policy version is among the writes. -/
def Quiet (log : List Write) : Prop := ∀ x ∈ log, x.tableName ≠ .boardPolicies

theorem quiet_nil : Quiet [] := by simp [Quiet]

/-- The version keeps every reason of the one its board had before. -/
def Extends (before : Uuid → Option BoardPolicy) (version : BoardPolicy) : Prop :=
  ∃ current, before version.boardId = some current ∧
    ∀ reason ∈ current.config.waitingReasons.map (·.key),
      reason ∈ version.config.waitingReasons.map (·.key)

variable {held : List Write → Uuid → Prop} {before : Uuid → Option BoardPolicy}

/-- What a policy change writes: locks on boards, deleted defaults, and versions for boards it
holds. -/
inductive VersionWrite (held : List Write → Uuid → Prop) (before : Uuid → Option BoardPolicy)
    (log : List Write) : Write → Prop where
  | locked (base next : Board) : VersionWrite held before log (.boards (.update base next))
  | dropped (row : BoardDefault) : VersionWrite held before log (.boardDefaults (.delete row))
  | version {version : BoardPolicy} (holds : held log version.boardId)
      (extends' : Extends before version) :
      VersionWrite held before log (.boardPolicies (.insert version))

/-- What reading a policy for an update promises: the board is held, and the policy is the one
it had before. -/
def ReadForUpdate (held : List Write → Uuid → Prop) (before : Uuid → Option BoardPolicy)
    (boardId : Uuid) (log : List Write) (r : Except DomainError (Option BoardPolicy))
    (log' : List Write) : Prop :=
  (∃ ws, log' = log ++ ws ∧ Quiet log') ∧
    ∀ policy, r = .ok (some policy) → held log' boardId ∧ before boardId = some policy

theorem writes_newId : Program.Writes (fun _ => False) newId :=
  Program.writes_input.bind fun _ => Program.writes_pure _

theorem writes_clockNow : Program.Writes (fun _ => False) clockNow :=
  Program.writes_input.bind fun _ => Program.writes_pure _

theorem writes_dropDefaults (roles : List RoleDefinition) :
    Program.Writes (fun x => ∃ row, x = .boardDefaults (.delete row))
      (ensureEach roles fun role => BoardRepository.setDefault (.role role.key) none) :=
  Program.writes_forEach (fun _ => writes_deleteWhere fun row _ => ⟨row, rfl⟩) _

theorem versionWrite_dropped (log : List Write) (x : Write)
    (h : ∃ row, x = .boardDefaults (.delete row)) : VersionWrite held before log x := by
  obtain ⟨row, rfl⟩ := h
  exact .dropped row

/-- A policy change that reads what it promises writes versions that keep every reason. -/
theorem meets_applyWith [Platform] {rely : List Write → Store → Prop}
    {getActiveForUpdate : Uuid → Tx (Option BoardPolicy)}
    (hheld : ∀ log ws boardId, held log boardId → held (log ++ ws) boardId)
    (hread : ∀ boardId log, Quiet log → Program.Meets rely (VersionWrite held before)
      (ReadForUpdate held before boardId log) (getActiveForUpdate boardId) log)
    (boardId : Uuid) (actor : Actor) (document : PolicyDocument) :
    Program.Meets rely (VersionWrite held before) (fun _ _ => True)
      (applyWith getActiveForUpdate boardId actor document) [] := by
  unfold applyWith requireFound
  refine (Program.writes_ofExcept _).meets_bind (fun _ => trivial) fun parsed => ?_
  refine (Program.writes_read _).meets_bind (fun _ => trivial) fun found => ?_
  refine Program.meets_require_bind trivial fun authority _ => ?_
  refine Program.Meets.bind ((hread authority.id [] quiet_nil).mono fun r log hr => ?_)
  obtain ⟨⟨_, -, hquiet⟩, hglobal⟩ := hr
  cases r with
  | error e => trivial
  | ok found =>
  refine Program.meets_require_bind trivial fun global hfound => ?_
  obtain ⟨hheldGlobal, hbeforeGlobal⟩ := hglobal global (congrArg Except.ok hfound)
  refine (readsOnly_requireBoardAccess _ _).writes.meets_bind (fun _ => trivial) fun _ => ?_
  refine Program.Meets.bind ((hread boardId log hquiet).mono fun r log₁ hr => ?_)
  obtain ⟨⟨ws, hlog₁, -⟩, hcurrent⟩ := hr
  cases r with
  | error e => trivial
  | ok found =>
  refine Program.meets_require_bind trivial fun current hfound => ?_
  obtain ⟨hheldCurrent, hbeforeCurrent⟩ := hcurrent current (congrArg Except.ok hfound)
  refine (readsOnly_decidePolicy _).writes.meets_bind (fun _ => trivial) fun _ => ?_
  refine (readsOnly_ensureNoOrphanedRole _).writes.meets_bind (fun _ => trivial) fun _ => ?_
  refine Program.Meets.bind ((writes_dropDefaults _).meets versionWrite_dropped fun r dropped _ => ?_)
  cases r with
  | error e => trivial
  | ok _ =>
  refine writes_newId.meets_bind (fun _ => trivial) fun id => ?_
  refine writes_clockNow.meets_bind (fun _ => trivial) fun now => ?_
  refine Program.Meets.bind (meets_insertRow (fun _ => trivial)
    (.version ?_ ⟨current, hbeforeCurrent, ?_⟩) ?_)
  · exact hheld _ _ _ hheldCurrent
  · exact fun reason hreason => mem_retireReasons hreason
  -- the authority's version takes over the roles alone
  · change Program.Meets _ _ _ (if _ then _ else _) _
    split_ifs
    · refine writes_newId.meets_bind (fun _ => trivial) fun globalId => ?_
      refine Program.Meets.bind (meets_insertRow (fun _ => trivial)
        (.version ?_ ⟨global, hbeforeGlobal, ?_⟩) ?_)
      · subst hlog₁
        exact hheld _ _ _ (hheld _ _ _ (hheld _ _ _ hheldGlobal))
      · exact fun reason hreason => hreason
      · trivial
    · trivial

/-- The tables a policy change may touch. -/
def versionTables : List TableName := [.boards, .boardDefaults, .boardPolicies]

theorem VersionWrite.tableName {log : List Write} {x : Write} (h : VersionWrite held before log x) :
    x.tableName ∈ versionTables := by
  cases h <;> simp [versionTables, Write.tableName]

theorem VersionWrite.mono {log log' : List Write} {x : Write} (h : VersionWrite held before log x)
    (hheld : ∀ boardId, held log boardId → held log' boardId) : VersionWrite held before log' x := by
  cases h with
  | locked base next => exact .locked base next
  | dropped row => exact .dropped row
  | version hhere hextends => exact .version (hheld _ hhere) hextends

/-- The writes of a transaction, judged by all it holds in the end. -/
def VersionLog (held : List Write → Uuid → Prop) (before : Uuid → Option BoardPolicy)
    (log : List Write) : Prop :=
  ∀ x ∈ log, VersionWrite held before log x

theorem versionLog_of_permitted {log : List Write}
    (hheld : ∀ log ws boardId, held log boardId → held (log ++ ws) boardId)
    (h : Program.Permitted (VersionWrite held before) log) : VersionLog held before log := by
  intro x hx
  obtain ⟨early, late, rfl, hguar⟩ := h.mem x hx
  exact hguar.mono fun boardId => hheld early late boardId

theorem newest_mem {s : Store} {boardId : Uuid} {policy : BoardPolicy}
    (h : PolicyRepository.newest s boardId = some policy) :
    policy ∈ s.boardPolicies.rows ∧ policy.boardId = boardId := by
  have hmem := List.mem_of_head? h
  rw [mem_newestFirst, List.mem_filter] at hmem
  exact ⟨hmem.1, by simpa using hmem.2⟩

/-- A board's newest policy is the one before, or a version that keeps its reasons. -/
theorem newest_replay {full : List Write} (s : Store) (boardId : Uuid) {log : List Write}
    (hlog : ∀ x ∈ log, VersionWrite held before full x) :
    PolicyRepository.newest (replay s log) boardId = PolicyRepository.newest s boardId ∨
      ∃ version, PolicyRepository.newest (replay s log) boardId = some version ∧
        version.boardId = boardId ∧ held full boardId ∧ Extends before version := by
  induction log generalizing s with
  | nil => exact .inl rfl
  | cons x log ih =>
    rcases ih (Replay.apply s x) fun y hy => hlog y (List.mem_cons_of_mem x hy) with hsame | hnew
    · rw [replay_cons, hsame]
      cases hlog x (by simp) with
      | locked | dropped => exact .inl (newest_congr rfl _)
      | @version version hheld hextends =>
        cases haccepts : s.boardPolicies.accepts version with
        | false => exact .inl (newest_congr (Table.insert_eq_self haccepts) _)
        | true =>
          have hrows : (Replay.apply s (Write.boardPolicies (.insert version))).boardPolicies =
              s.boardPolicies.insert version := rfl
          rcases newest_insert haccepts hrows boardId with ⟨hnew, rfl⟩ | hold
          · exact .inr ⟨version, hnew, rfl, hheld, hextends⟩
          · exact .inl hold
    · exact .inr hnew

/-- No board loses a reason to a transaction that knew the policies of the boards it held. -/
theorem reasonsKept_replay {s : Store} {log : List Write} (hlog : VersionLog held before log)
    (hbefore : ∀ boardId, held log boardId → before boardId = PolicyRepository.newest s boardId) :
    ReasonsKept s (replay s log) := by
  intro boardId reason hreason
  rcases newest_replay s boardId hlog with hsame | ⟨version, hnew, rfl, hheld, current, hcurrent, hkeys⟩
  · rwa [reasonKeys, hsame]
  · rw [hbefore _ hheld] at hcurrent
    rw [reasonKeys_of_newest hcurrent] at hreason
    rw [reasonKeys_of_newest hnew]
    exact hkeys reason hreason

/-- Every policy is of a known board, and every known board is there. -/
structure Housed (boards : List Uuid) (s : Store) : Prop where
  policies : ∀ policy ∈ s.boardPolicies.rows, policy.boardId ∈ boards
  rows : ∀ id ∈ boards, ∃ board ∈ s.boards.rows, board.id = id

theorem Housed.of_tables {boards : List Uuid} {s s' : Store} (h : Housed boards s)
    (hpolicies : s'.boardPolicies = s.boardPolicies) (hboards : s'.boards = s.boards) :
    Housed boards s' where
  policies := hpolicies ▸ h.policies
  rows := hboards ▸ h.rows

theorem exists_update {t : Table Board} (board : Board) {id : Uuid}
    (h : ∃ row ∈ t.rows, row.id = id) : ∃ row ∈ (t.update board).rows, row.id = id := by
  obtain ⟨row, hrow, hid⟩ := h
  cases haccepts : t.acceptsUpdate board with
  | false =>
    rw [Table.update_eq_self haccepts]
    exact ⟨row, hrow, hid⟩
  | true =>
    rw [Table.rows_update haccepts]
    refine ⟨_, List.mem_map.mpr ⟨row, hrow, rfl⟩, ?_⟩
    split_ifs with hkey
    · exact (Eq.symm hkey).trans hid
    · exact hid

theorem Housed.replay {boards : List Uuid} {s : Store} {full log : List Write}
    (h : Housed boards s) (hlog : ∀ x ∈ log, VersionWrite held before full x)
    (hbefore : ∀ boardId current, held full boardId → before boardId = some current →
      boardId ∈ boards) : Housed boards (Transactions.replay s log) := by
  induction log generalizing s with
  | nil => exact h
  | cons x log ih =>
    refine ih ?_ fun y hy => hlog y (List.mem_cons_of_mem x hy)
    cases hlog x (by simp) with
    | locked base next => exact ⟨h.policies, fun id hid => exists_update next (h.rows id hid)⟩
    | dropped => exact h.of_tables rfl rfl
    | @version version hheld hextends =>
      obtain ⟨current, hcurrent, -⟩ := hextends
      refine ⟨fun policy hpolicy => ?_, h.rows⟩
      rcases Table.mem_insert.mp hpolicy with hold | ⟨-, rfl⟩
      · exact h.policies policy hold
      · exact hbefore _ current hheld hcurrent

end contract

section merged

variable {w w' : World Store Tick}

/-- The version keeps every reason of the one its board had, and is accepted where that was. -/
def Merges [Platform] (s : Store) (version : BoardPolicy) : Prop :=
  ∃ current, PolicyRepository.newest s version.boardId = some current ∧
    (∀ reason ∈ current.config.waitingReasons.map (·.key),
      reason ∈ version.config.waitingReasons.map (·.key)) ∧
    (Accepted current.config → version.config.parse = .ok version.config)

theorem runs_insertVersion {version : BoardPolicy} {u : Unit}
    (h : Runs (PolicyRepository.insert version) w u w') :
    w'.store.boardPolicies.rows = w.store.boardPolicies.rows ++ [version] := by
  simp only [PolicyRepository.insert, runs_insertRow_iff, table_boardPolicies,
    put_boardPolicies] at h
  obtain ⟨haccepts, -, rfl⟩ := h
  exact Table.rows_insert haccepts

variable [Platform]

/-- A policy change stores the version it returns, and nothing but merged versions. -/
theorem runs_apply_merges {boardId : Uuid} {actor : Actor} {document : PolicyDocument}
    {r : BoardPolicy} (h : Runs (PolicyService.apply boardId actor document) w r w') :
    r.boardId = boardId ∧ Merges w.store r ∧ r ∈ w'.store.boardPolicies.rows ∧
      ∀ version ∈ w'.store.boardPolicies.rows,
        version ∈ w.store.boardPolicies.rows ∨ Merges w.store version := by
  obtain ⟨parsed, authority, global, current, w₁, w₂, hparse, -, hglobal, hcurrent, -, hdropped, hhome,
    hconfig, hversion, hlast⟩ := runs_apply_cases h
  have hpolicies := (runs_dropDefaults hdropped).1
  have hrows := runs_insertVersion hversion
  rw [World.tick_store, World.tick_store, hpolicies] at hrows
  have hmerges : Merges w.store r := by
    refine ⟨current, hhome ▸ hcurrent, ?_, ?_⟩
    · intro reason hreason
      rw [hconfig]
      exact mem_retireReasons hreason
    · rw [hconfig]
      exact parse_merged hparse
  rcases hlast with rfl | ⟨version, hboard, hglobalConfig, hglobalVersion⟩
  · refine ⟨hhome, hmerges, by simp [hrows], fun version hmem => ?_⟩
    rw [hrows] at hmem
    simp only [List.mem_append, List.mem_singleton] at hmem
    rcases hmem with hold | rfl
    · exact .inl hold
    · exact .inr hmerges
  · have hrows' := runs_insertVersion hglobalVersion
    rw [World.tick_store, hrows] at hrows'
    refine ⟨hhome, hmerges, by simp [hrows'], fun other hmem => ?_⟩
    rw [hrows'] at hmem
    simp only [List.mem_append, List.mem_singleton] at hmem
    rcases hmem with (hold | rfl) | rfl
    · exact .inl hold
    · exact .inr hmerges
    · refine .inr ⟨global, hboard ▸ hglobal, ?_, ?_⟩
      · intro reason hreason
        rwa [hglobalConfig]
      · rw [hglobalConfig]
        exact parse_withRoles hparse

end merged

end AiKanban.Invariants
