import AiKanban.Effects.RoleHolders
import AiKanban.Effects.Steps

/-!
# Boards, defaults and groups

What the board service keeps of a seeded database: an active board, the seeded board as
the only flagged one, and no reference to a group that is gone, archived boards apart.
-/
namespace AiKanban.Invariants

open Application Db Domain Effects Relational Server Services Transactions

section rows

/-- The row that was rewritten is one of the rows. -/
theorem mem_update_self {current updated : Board} {t : Table Board} (hcurrent : current ∈ t.rows)
    (hid : updated.id = current.id) (hflag : updated.isDefault = current.isDefault) :
    updated ∈ (t.update updated).rows := by
  have haccepts : t.acceptsUpdate updated = true := by
    apply Table.acceptsUpdate_of_clash hcurrent hid
    intro x
    change (decide (updated.id = x.id) || (updated.isDefault && x.isDefault)) = _
    rw [hid, hflag]
    rfl
  rw [Table.rows_update haccepts]
  exact List.mem_map.mpr ⟨current, hcurrent, if_pos hid.symm⟩

/-- Among two boards or more, one is another than the given one. -/
theorem exists_other {t : Table Board} {p : Board → Bool} (board : Board)
    (hlength : 1 < (t.rows.filter p).length) : ∃ row ∈ t.rows, p row = true ∧ row.id ≠ board.id := by
  by_contra hnone
  push Not at hnone
  have hdistinct := t.distinct.filter p
  match hrows : t.rows.filter p with
  | [] => simp [hrows] at hlength
  | [_] => simp [hrows] at hlength
  | a :: b :: rest =>
    rw [hrows] at hdistinct
    obtain ⟨ha, hap⟩ := List.mem_filter.mp (show a ∈ t.rows.filter p by simp [hrows])
    obtain ⟨hb, hbp⟩ := List.mem_filter.mp (show b ∈ t.rows.filter p by simp [hrows])
    have hclash := (List.pairwise_cons.mp hdistinct).1 b (by simp)
    rw [Row.clash_of_key a b ((hnone a ha hap).trans (hnone b hb hbp).symm)] at hclash
    cases hclash

theorem confined_deleteLocation (boardId : Uuid) (actor : Actor) (locationId : Uuid) :
    Confined [.cards, .locations] (LocationAdminService.delete boardId actor locationId) := by
  unfold LocationAdminService.delete LocationRepository.delete
  refine confined_reads (readsOnly_ensureGranted _ _ _) fun _ => ?_
  refine confined_reads (Program.readsOnly_read _) fun _ => ?_
  refine confined_reads (Program.readsOnly_require _ _) fun _ => ?_
  refine confined_reads (Program.readsOnly_read _) fun _ => ?_
  refine confined_bind (confined_modifyWhere fun _ => List.mem_cons_self ..) fun _ => ?_
  exact confined_forEach
    (fun _ => confined_deleteWhere fun _ => List.mem_cons_of_mem _ (List.mem_cons_self ..)) _

/-- A group that is named is there. -/
def Known (s : Store) (subject : DefaultSubject) : Prop :=
  ∀ id, subject = .group id → ∃ group, s.groups.find? id = some group

theorem known_congr {s s' : Store} (h : s'.groups = s.groups) (subject : DefaultSubject) :
    Known s' subject ↔ Known s subject := by
  unfold Known
  rw [h]

/-- Assigning a board its defaults names groups that are there. -/
theorem known_saveDefaults {w w' : World Store Tick} {boardId : Uuid} {input : Option DefaultAssignments} {u : Unit}
    (h : Runs (BoardService.saveDefaults boardId input) w u w')
    (hknown : ∀ d ∈ w.store.boardDefaults.rows, Known w.store d.subject) :
    ∀ d ∈ w'.store.boardDefaults.rows, Known w.store d.subject := by
  apply subjects_saveDefaults h hknown
  intro assignments _ _ hgroups subject hmem id hid
  subst hid
  exact hgroups id (by simpa [BoardService.desiredDefaults] using hmem)

end rows

section operations

variable [Platform]

/-- The boards, the defaults and the groups fit together; `seeded` is the original board. -/
structure BoardIntegrity (seeded : Uuid) (s : Store) : Prop where
  active : ∃ board ∈ s.boards.rows, board.archivedAt = none
  flagged : ∃ board ∈ s.boards.rows, board.id = seeded ∧ board.isDefault = true
  onlyFlagged : ∀ board ∈ s.boards.rows, board.isDefault = true → board.id = seeded
  access : ∀ board ∈ s.boards.rows, board.archivedAt = none → ∀ id ∈ board.allowedGroupIds,
    ∃ group, s.groups.find? id = some group
  defaults : ∀ a ∈ s.boardDefaults.rows, ∀ b ∈ s.boardDefaults.rows, a.subject = b.subject → a = b
  subjects : ∀ d ∈ s.boardDefaults.rows, ∀ id, d.subject = .group id →
    ∃ group, s.groups.find? id = some group
  names : ∀ a ∈ s.groups.rows, ∀ b ∈ s.groups.rows,
    Platform.toLowerCase a.name = Platform.toLowerCase b.name → a = b

variable {seeded : Uuid} {s s' : Store}

theorem BoardIntegrity.of_boards (h : BoardIntegrity seeded s) (hgroups : s'.groups = s.groups)
    (hboards : s'.boards = s.boards) (hknown : ∀ d ∈ s'.boardDefaults.rows, Known s' d.subject) :
    BoardIntegrity seeded s' where
  active := hboards ▸ h.active
  flagged := hboards ▸ h.flagged
  onlyFlagged := hboards ▸ h.onlyFlagged
  access := by
    rw [hboards, hgroups]
    exact h.access
  defaults := fun _ ha _ hb => Table.eq_of_key ha hb
  subjects := hknown
  names := hgroups ▸ h.names

theorem BoardIntegrity.of_tables (h : BoardIntegrity seeded s) (hgroups : s'.groups = s.groups)
    (hboards : s'.boards = s.boards) (hdefaults : s'.boardDefaults = s.boardDefaults) :
    BoardIntegrity seeded s' := by
  apply h.of_boards hgroups hboards
  intro d hd
  rw [hdefaults] at hd
  exact (known_congr hgroups _).mpr (h.subjects d hd)

section steps

variable {w w' : World Store Tick}

theorem integrity_of_confined {α : Type} {names : List TableName} {p : Tx α} {a : α}
    (hw : BoardIntegrity seeded w.store) (h : Runs p w a w') (hp : Confined names p)
    (hgroups : TableName.groups ∉ names) (hboards : TableName.boards ∉ names)
    (hdefaults : TableName.boardDefaults ∉ names) : BoardIntegrity seeded w'.store :=
  hw.of_tables (sameTable_of_confined h hp hgroups) (sameTable_of_confined h hp hboards)
    (sameTable_of_confined h hp hdefaults)

theorem integrity_createBoard {actor : Actor} {raw : BoardInput} {board : Board}
    (hw : BoardIntegrity seeded w.store) (h : Runs (BoardService.create actor raw) w board w') :
    BoardIntegrity seeded w'.store := by
  have hgroups : w'.store.groups = w.store.groups :=
    sameTable_of_confined h (confined_createBoard actor raw)
      (show TableName.groups ∉ _ by decide)
  simp only [BoardService.create, BoardRepository.insert, runs_bind_iff, runs_ofExcept_iff,
    runs_newId_iff, runs_clockNow_iff, runs_insertRow_iff, runs_pure_iff, table_boards,
    put_boards] at h
  obtain ⟨input, _, ⟨-, rfl⟩, _, _, hlock, _, w, haccess, id, _, ⟨-, rfl⟩, now, _, ⟨-, rfl⟩, _, _,
    ⟨haccepts, -, rfl⟩, _, w₂, hsaved, _, w₃, hlanes, _, _, ⟨-, rfl⟩, _, _, hglobal, _, w₄,
    hversion, -, rfl⟩ := h
  obtain rfl := hlock.of_readsOnly (readsOnly_lockAdministration _)
  have hallowed := groups_of_validateAccess haccess
  obtain ⟨rfl, -⟩ := runs_validateAccess haccess
  obtain ⟨rfl, -⟩ := runs_globalPolicy hglobal
  generalize hcreated : Board.mk id _ _ _ _ _ _ _ _ = created at haccepts hsaved
  generalize hw₁ : w.tick.tick.withStore _ = w₁ at hsaved
  have hboards₁ : w₁.store.boards = w.store.boards.insert created := by rw [← hw₁]; rfl
  have hgroups₁ : w₁.store.groups = w.store.groups := by rw [← hw₁]; rfl
  have hdefaults₁ : w₁.store.boardDefaults = w.store.boardDefaults := by rw [← hw₁]; rfl
  have hsaves : ∀ name, name ≠ .boardDefaults → w₁.store.SameTable name w₂.store :=
    frame_of_confined hsaved (confined_saveDefaults (by simp) _ _)
  have hlaneRows : ∀ name, name ≠ .lanes → w₂.store.SameTable name w₃.store :=
    frame_of_confined hlanes (confined_insertDefaultLanes (by simp) _)
  obtain ⟨hpolicyRows, -⟩ := runs_insertPolicy hversion
  have hboards : w'.store.boards = w.store.boards.insert created :=
    Eq.trans (hpolicyRows .boards (by decide)) <| Eq.trans (hlaneRows .boards (by decide)) <|
      Eq.trans (hsaves .boards (by decide)) hboards₁
  have hdefaults : w'.store.boardDefaults = w₂.store.boardDefaults :=
    Eq.trans (hpolicyRows .boardDefaults (by decide)) (hlaneRows .boardDefaults (by decide))
  have hknown : ∀ d ∈ w₂.store.boardDefaults.rows, Known w₁.store d.subject := by
    apply known_saveDefaults hsaved
    rw [hdefaults₁]
    exact fun d hd => (known_congr hgroups₁ _).mpr (hw.subjects d hd)
  have hmem : ∀ row ∈ w'.store.boards.rows, row ∈ w.store.boards.rows ∨ row = created := by
    intro row hrow
    rw [hboards] at hrow
    exact (Table.mem_insert.mp hrow).imp_right And.right
  have hkept : ∀ row ∈ w.store.boards.rows, row ∈ w'.store.boards.rows := by
    intro row hrow
    rw [hboards]
    exact Table.mem_insert.mpr (.inl hrow)
  refine ⟨?_, ?_, ?_, ?_, fun _ ha _ hb => Table.eq_of_key ha hb, ?_, hgroups ▸ hw.names⟩
  · obtain ⟨row, hrow, hactive⟩ := hw.active
    exact ⟨row, hkept row hrow, hactive⟩
  · obtain ⟨row, hrow, hflag⟩ := hw.flagged
    exact ⟨row, hkept row hrow, hflag⟩
  · intro row hrow hflag
    rcases hmem row hrow with hold | rfl
    · exact hw.onlyFlagged row hold hflag
    · rw [← hcreated] at hflag
      cases hflag
  · intro row hrow hactive
    rw [hgroups]
    rcases hmem row hrow with hold | rfl
    · exact hw.access row hold hactive
    · rw [← hcreated]
      exact hallowed
  · intro d hd
    rw [hdefaults] at hd
    exact (known_congr (hgroups.trans hgroups₁.symm) _).mpr (hknown d hd)

/-- Rewriting an active board, with its flag and its archival as they were. -/
theorem BoardIntegrity.rewrite {current updated : Board} (h : BoardIntegrity seeded s)
    (hcurrent : current ∈ s.boards.rows) (hid : updated.id = current.id)
    (hflag : updated.isDefault = current.isDefault)
    (hactive : ∃ board ∈ (s.boards.update updated).rows, board.archivedAt = none)
    (haccess : updated.archivedAt = none → ∀ id ∈ updated.allowedGroupIds,
      ∃ group, s.groups.find? id = some group) :
    BoardIntegrity seeded { s with boards := s.boards.update updated } where
  active := hactive
  flagged := by
    obtain ⟨board, hboard, hseeded, hdefault⟩ := h.flagged
    by_cases hsame : board.id = updated.id
    · have hboardEq : board = current := Table.eq_of_key hboard hcurrent (hsame.trans hid)
      subst hboardEq
      exact ⟨updated, mem_update_self hcurrent hid hflag, hid.trans hseeded, hflag.trans hdefault⟩
    · exact ⟨board, Table.mem_update_of_ne hboard hsame, hseeded, hdefault⟩
  onlyFlagged := by
    intro board hboard hdefault
    rcases Table.mem_update hboard with hold | rfl
    · exact h.onlyFlagged board hold hdefault
    · rw [hid]
      exact h.onlyFlagged current hcurrent (hflag ▸ hdefault)
  access := by
    intro board hboard hopen
    rcases Table.mem_update hboard with hold | rfl
    · exact h.access board hold hopen
    · exact haccess hopen
  defaults := h.defaults
  subjects := h.subjects
  names := h.names

theorem integrity_updateBoard {actor : Actor} {boardId : Uuid} {raw : BoardInput} {board : Board}
    (hw : BoardIntegrity seeded w.store)
    (h : Runs (BoardService.update actor boardId raw) w board w') :
    BoardIntegrity seeded w'.store := by
  simp only [BoardService.update, runs_bind_iff, runs_ofExcept_iff, runs_pure_iff] at h
  obtain ⟨input, _, ⟨-, rfl⟩, _, _, hlock, current, _, haccess, _, w, hvalidate, _, w₁, hrow, _, _,
    hsaved, -, rfl⟩ := h
  obtain rfl := hlock.of_readsOnly (readsOnly_lockAdministration _)
  obtain ⟨rfl, hfound⟩ := runs_requireBoardAccess haccess
  have hallowed := groups_of_validateAccess hvalidate
  obtain ⟨rfl, -⟩ := runs_validateAccess hvalidate
  have hcurrent := Table.mem_of_find? hfound
  generalize hupdated : Board.mk current.id _ _ _ _ _ _ _ _ = updated at hrow
  have hid : updated.id = current.id := by rw [← hupdated]
  have hflag : updated.isDefault = current.isDefault := by rw [← hupdated]
  have harchived : updated.archivedAt = current.archivedAt := by rw [← hupdated]
  obtain rfl := runs_updateBoardRow hcurrent hid hrow
  have hrewritten : BoardIntegrity seeded
      { w.store with boards := w.store.boards.update updated } := by
    refine hw.rewrite hcurrent hid hflag ?_ fun _ => by rw [← hupdated]; exact hallowed
    obtain ⟨row, hmem, hactive⟩ := hw.active
    by_cases hsame : row.id = updated.id
    · have hrowEq : row = current := Table.eq_of_key hmem hcurrent (hsame.trans hid)
      exact ⟨updated, mem_update_self hcurrent hid hflag, by rw [harchived, ← hrowEq, hactive]⟩
    · exact ⟨row, Table.mem_update_of_ne hmem hsame, hactive⟩
  have hframe := frame_of_confined hsaved (confined_saveDefaults (List.mem_singleton.mpr rfl) _ _)
  apply hrewritten.of_boards (hframe .groups (by decide)) (hframe .boards (by decide))
  intro d hd
  exact (known_congr (hframe .groups (by decide)) _).mpr
    (known_saveDefaults hsaved hrewritten.subjects d hd)

theorem integrity_removeBoard {actor : Actor} {boardId : Uuid} {u : Unit}
    (hw : BoardIntegrity seeded w.store)
    (h : Runs (BoardService.remove actor boardId) w u w') : BoardIntegrity seeded w'.store := by
  simp only [BoardService.remove, BoardRepository.list, runs_bind_iff, runs_read_iff,
    runs_ensure_iff, runs_clockNow_iff] at h
  obtain ⟨_, _, hlock, current, _, haccess, _, _, ⟨rfl, rfl⟩, _, w, ⟨hlength, rfl⟩, now, _,
    ⟨-, rfl⟩, hrow⟩ := h
  obtain rfl := hlock.of_readsOnly (readsOnly_lockAdministration _)
  obtain ⟨rfl, hfound⟩ := runs_requireBoardAccess haccess
  have hcurrent := Table.mem_of_find? hfound
  generalize hremoved : Board.mk current.id _ _ _ _ _ _ _ _ = removed at hrow
  have hid : removed.id = current.id := by rw [← hremoved]
  obtain rfl := runs_updateBoardRow (w := w.tick) hcurrent hid hrow
  refine hw.rewrite hcurrent hid (by rw [← hremoved]) ?_ fun hactive => by
    rw [← hremoved] at hactive
    cases hactive
  have hmany : 1 < (w.store.boards.rows.filter (·.archivedAt.isNone)).length := by
    simpa [length_newestFirst] using hlength
  obtain ⟨row, hmem, hactive, hother⟩ := exists_other removed hmany
  exact ⟨row, Table.mem_update_of_ne hmem hother, by simpa using hactive⟩

theorem integrity_setDefault {subject : DefaultSubject} {boardId : Option Uuid} {u : Unit}
    (hw : BoardIntegrity seeded w.store)
    (hsubject : boardId ≠ none → Known w.store subject)
    (h : Runs (BoardRepository.setDefault subject boardId) w u w') :
    BoardIntegrity seeded w'.store := by
  have hframe := frame_of_confined h (confined_setDefault (List.mem_singleton.mpr rfl) _ _)
  apply hw.of_boards (hframe .groups (by decide)) (hframe .boards (by decide))
  intro d hd
  exact (known_congr (hframe .groups (by decide)) _).mpr
    (subjects_setDefault hw.subjects hsubject h d hd)

theorem integrity_setPreference {actor : Actor} {boardId : Option Uuid} {u : Unit}
    (hw : BoardIntegrity seeded w.store)
    (h : Runs (BoardService.setPreference actor boardId) w u w') :
    BoardIntegrity seeded w'.store := by
  have hown : Known w.store (.user actor.id) := fun _ hid => by cases hid
  simp only [BoardService.setPreference, BoardRepository.getDefault, PolicyRepository.getActive,
    runs_bind_iff, runs_ensure_iff, runs_read_iff, runs_requireFound_iff] at h
  obtain ⟨_, _, ⟨-, rfl⟩, _, _, ⟨-, rfl⟩, _, _, ⟨-, rfl⟩, _, w, ⟨-, rfl⟩, h⟩ := h
  cases boardId with
  | none => exact integrity_setDefault hw (fun _ => hown) h
  | some id =>
    obtain ⟨_, _, haccess, hset⟩ := runs_bind_iff.mp h
    obtain rfl := haccess.of_readsOnly (readsOnly_requireBoardAccess _ _)
    exact integrity_setDefault hw (fun _ => hown) hset

/-- The groups after a group was saved: every one there was is still there, and no other
one carries the saved name. -/
theorem BoardIntegrity.regroup {t : Table Group} (saved : Group) (h : BoardIntegrity seeded s)
    (hfind : ∀ id group, s.groups.find? id = some group → ∃ group, t.find? id = some group)
    (hmem : ∀ group ∈ t.rows, group ∈ s.groups.rows ∨ group = saved)
    (hname : ∀ group ∈ s.groups.rows, group.id ≠ saved.id →
      Platform.toLowerCase group.name ≠ Platform.toLowerCase saved.name) :
    BoardIntegrity seeded { s with groups := t } where
  active := h.active
  flagged := h.flagged
  onlyFlagged := h.onlyFlagged
  access := by
    intro board hboard hactive id hid
    obtain ⟨group, hgroup⟩ := h.access board hboard hactive id hid
    exact hfind id group hgroup
  defaults := h.defaults
  subjects := by
    intro d hd id hid
    obtain ⟨group, hgroup⟩ := h.subjects d hd id hid
    exact hfind id group hgroup
  names := by
    intro a ha b hb hlower
    apply Table.eq_of_key ha hb
    change a.id = b.id
    rcases hmem a ha with haold | rfl
    · rcases hmem b hb with hbold | rfl
      · rw [h.names a haold b hbold hlower]
      · by_contra hne
        exact hname a haold hne hlower
    · rcases hmem b hb with hbold | rfl
      · by_contra hne
        exact hname b hbold (Ne.symm hne) hlower.symm
      · rfl

theorem integrity_saveGroup {actor : Actor} {groupId : Option Uuid} {raw : GroupInput}
    {group : Group} (hw : BoardIntegrity seeded w.store)
    (h : Runs (BoardService.saveGroup actor groupId raw) w group w') :
    BoardIntegrity seeded w'.store := by
  simp only [BoardService.saveGroup, GroupRepository.list, runs_bind_iff, runs_ofExcept_iff,
    runs_read_iff, runs_ensure_iff] at h
  obtain ⟨input, _, ⟨-, rfl⟩, _, _, hlock, existing, _, hexisting, _, _, ⟨rfl, rfl⟩, _, _,
    ⟨hnames, rfl⟩, _, w, husers, h⟩ := h
  obtain rfl := hlock.of_readsOnly (readsOnly_lockAdministration _)
  obtain rfl := husers.of_readsOnly (readsOnly_forEach readsOnly_requireUser _)
  obtain rfl := hexisting.of_readsOnly (readsOnly_existingGroup _)
  have hname : ∀ item ∈ w.store.groups.rows, groupId = some item.id ∨
      Platform.toLowerCase item.name ≠ Platform.toLowerCase input.name := by
    intro item hitem
    have hall := List.all_eq_true.mp hnames item (mem_ascendingBy.mpr hitem)
    simpa using hall
  cases groupId with
  | none =>
    obtain ⟨rfl, -⟩ := runs_pure_iff.mp hexisting
    simp only [GroupRepository.insert, runs_bind_iff, runs_newId_iff, runs_clockNow_iff,
      runs_insertRow_iff, runs_pure_iff, table_groups, put_groups] at h
    obtain ⟨id, _, ⟨-, rfl⟩, now, _, ⟨-, rfl⟩, _, _, ⟨haccepts, -, rfl⟩, -, rfl⟩ := h
    generalize hsaved : Domain.Group.mk id _ _ _ = saved at haccepts
    refine hw.regroup saved ?_ ?_ ?_
    · intro id group hgroup
      have hold := Table.mem_of_find? hgroup
      have hkey := Table.find?_key hgroup
      exact ⟨group, Table.find?_eq_some_iff.mpr ⟨Table.mem_insert.mpr (.inl hold), hkey⟩⟩
    · intro group hgroup
      exact (Table.mem_insert.mp hgroup).imp_right And.right
    · intro group hgroup _
      rw [← hsaved]
      exact (hname group hgroup).resolve_left (by simp)
  | some id =>
    simp only [BoardService.existingGroup, GroupRepository.findById, runs_bind_iff,
      runs_selectKey_iff, runs_requireFound_iff, runs_pure_iff, table_groups] at hexisting
    obtain ⟨_, _, ⟨rfl, -⟩, found, _, ⟨hfound, -⟩, rfl, -⟩ := hexisting
    simp only [GroupRepository.update, runs_bind_iff, runs_modifyRow_iff, runs_pure_iff,
      table_groups, put_groups] at h
    obtain ⟨_, _, ⟨row, hrow, haccepts, -, rfl⟩, -, rfl⟩ := h
    have hid : found.id = id := Table.find?_key hfound
    generalize hsaved : Domain.Group.mk found.id _ _ _ = saved at haccepts
    refine hw.regroup saved ?_ ?_ ?_
    · intro id group hgroup
      rw [Table.find?_update haccepts]
      split_ifs
      · exact ⟨saved, by rw [hgroup]; rfl⟩
      · exact ⟨group, hgroup⟩
    · exact fun group hgroup => Table.mem_update hgroup
    · intro group hgroup hne
      rw [← hsaved] at hne ⊢
      refine (hname group hgroup).resolve_left fun hsame => hne ?_
      rw [← Option.some.inj hsame]
      exact hid.symm

theorem integrity_removeGroup {actor : Actor} {groupId : Uuid} {u : Unit}
    (hw : BoardIntegrity seeded w.store)
    (h : Runs (BoardService.removeGroup actor groupId) w u w') : BoardIntegrity seeded w'.store := by
  simp only [BoardService.removeGroup, BoardService.requireGroup, BoardRepository.list,
    GroupRepository.findById, GroupRepository.remove, BoardRepository.setDefault, runs_bind_iff,
    runs_selectKey_iff, runs_requireFound_iff, runs_read_iff, runs_ensure_iff,
    runs_deleteWhere_iff, runs_pure_iff, table_groups, put_groups, table_boardDefaults,
    put_boardDefaults] at h
  obtain ⟨_, _, hlock, _, _, ⟨_, _, ⟨-, rfl⟩, _, _, ⟨-, rfl⟩, -, rfl⟩, _, _, ⟨rfl, rfl⟩, _, w,
    ⟨hunused, rfl⟩, _, _, rfl, rfl⟩ := h
  obtain rfl := hlock.of_readsOnly (readsOnly_lockAdministration _)
  have hkept : ∀ id, id ≠ groupId → ∀ group, w.store.groups.find? id = some group →
      (w.store.groups.remove fun r : Group => r.id == groupId).find? id = some group := by
    intro id hne group hgroup
    rw [Table.find?_remove, hgroup]
    have hid : group.id = id := Table.find?_key hgroup
    simp [Option.filter, hid, hne]
  refine ⟨hw.active, hw.flagged, hw.onlyFlagged, ?_, fun _ ha _ hb => Table.eq_of_key ha hb, ?_, ?_⟩
  · intro board hboard hactive id hid
    obtain ⟨group, hgroup⟩ := hw.access board hboard hactive id hid
    refine ⟨group, hkept id ?_ group hgroup⟩
    rintro rfl
    -- an active board that allows the group stands against its removal
    have hall := List.all_eq_true.mp hunused board (by
      rw [List.mem_reverse, mem_newestFirst]
      exact List.mem_filter.mpr ⟨hboard, by simp [hactive]⟩)
    simp [hid] at hall
  · intro d hd id hid
    obtain ⟨hold, hother⟩ := Table.mem_remove.mp hd
    obtain ⟨group, hgroup⟩ := hw.subjects d hold id hid
    refine ⟨group, hkept id ?_ group hgroup⟩
    rintro rfl
    simp [hid] at hother
  · intro a ha b hb
    exact hw.names a (Table.mem_remove.mp ha).1 b (Table.mem_remove.mp hb).1

theorem integrity_administration {op : AdministrationOperation} {u : Unit}
    (hw : BoardIntegrity seeded w.store) (h : Runs op.body w u w') :
    BoardIntegrity seeded w'.store := by
  cases op with
  | getPolicy boardId =>
    obtain ⟨_, h⟩ := runs_discard_iff.mp h
    rwa [h.of_readsOnly (readsOnly_getActivePolicy _)]
  | applyPolicy boardId actor document =>
    obtain ⟨_, h⟩ := runs_discard_iff.mp h
    have hframe : ∀ name, name ∉ [TableName.boardPolicies, .boardDefaults] →
        w.store.SameTable name w'.store :=
      fun name hname => sameTable_of_confined h (confined_applyPolicy boardId actor document) hname
    apply hw.of_boards (hframe .groups (by decide)) (hframe .boards (by decide))
    intro d hd
    exact (known_congr (hframe .groups (by decide)) _).mpr
      (hw.subjects d ((runs_apply h).defaults d hd).1)
  | createBoard actor raw =>
    obtain ⟨_, h⟩ := runs_discard_iff.mp h
    exact integrity_createBoard hw h
  | updateBoard actor boardId raw =>
    obtain ⟨_, h⟩ := runs_discard_iff.mp h
    exact integrity_updateBoard hw h
  | removeBoard actor boardId => exact integrity_removeBoard hw h
  | setPreference actor boardId => exact integrity_setPreference hw h
  | saveGroup actor groupId raw =>
    obtain ⟨_, h⟩ := runs_discard_iff.mp h
    exact integrity_saveGroup hw h
  | removeGroup actor groupId => exact integrity_removeGroup hw h
  | createLane boardId actor raw =>
    obtain ⟨_, h⟩ := runs_discard_iff.mp h
    exact integrity_of_confined hw h (confined_createLane ..) (by decide) (by decide) (by decide)
  | updateLane boardId actor laneId raw =>
    obtain ⟨_, h⟩ := runs_discard_iff.mp h
    exact integrity_of_confined hw h (confined_updateLane ..) (by decide) (by decide) (by decide)
  | removeLane boardId actor laneId =>
    exact integrity_of_confined hw h (confined_removeLane ..) (by decide) (by decide) (by decide)
  | reorderLanes boardId actor raw =>
    obtain ⟨_, h⟩ := runs_discard_iff.mp h
    exact integrity_of_confined hw h (confined_reorderLanes ..) (by decide) (by decide) (by decide)
  | createLocation boardId actor raw =>
    obtain ⟨_, h⟩ := runs_discard_iff.mp h
    exact integrity_of_confined hw h (confined_createLocation ..) (by decide) (by decide)
      (by decide)
  | updateLocation boardId actor locationId raw =>
    obtain ⟨_, h⟩ := runs_discard_iff.mp h
    exact integrity_of_confined hw h (confined_updateLocation ..) (by decide) (by decide)
      (by decide)
  | deleteLocation boardId actor locationId =>
    exact integrity_of_confined hw h (confined_deleteLocation ..) (by decide) (by decide)
      (by decide)
  | createUser deps actor raw temp =>
    obtain ⟨_, h⟩ := runs_discard_iff.mp h
    exact integrity_of_confined hw h (confined_createUser ..) (by decide) (by decide) (by decide)
  | updateUser deps actor userId raw temp =>
    obtain ⟨_, h⟩ := runs_discard_iff.mp h
    exact integrity_of_confined hw h (confined_updateUser ..) (by decide) (by decide) (by decide)

end steps

/-- A freshly seeded database has one board, flagged and active, and no groups. -/
theorem integrity_seeded {inputs : ℕ → Tick} {seed : StructuralSeedResult} {w : World Store Tick}
    (h : transact structuralSeed ⟨{}, inputs, 0⟩ = (.ok seed, w)) :
    BoardIntegrity seed.boardId w.store := by
  have hrun := transact_ok_iff.mp h
  have hgroups : w.store.groups = ({} : Store).groups :=
    sameTable_of_confined hrun confined_structuralSeed (show TableName.groups ∉ _ by decide)
  have hdefaults : w.store.boardDefaults = ({} : Store).boardDefaults :=
    sameTable_of_confined hrun confined_structuralSeed (show TableName.boardDefaults ∉ _ by decide)
  have hframe : ∀ {α : Type} {names : List TableName} {p : Tx α} {a : α} {v v' : World Store Tick},
      Runs p v a v' → Confined names p → TableName.boards ∉ names →
        v'.store.boards = v.store.boards := fun hp hc hn => sameTable_of_confined hp hc hn
  have hboards : ∃ board, w.store.boards.rows = [board] ∧ board.id = seed.boardId ∧
      board.isDefault = true ∧ board.archivedAt = none ∧ board.allowedGroupIds = [] := by
    simp only [structuralSeed, runs_bind_iff, runs_clockNow_iff] at hrun
    obtain ⟨now, _, ⟨-, rfl⟩, existing, _, hexisting, hrun⟩ := hrun
    obtain ⟨hnone, rfl⟩ := runs_read_iff.mp hexisting
    obtain rfl : existing = none := hnone
    simp only [seedNewBoard, BoardRepository.insert, Option.isNone_none, if_true, runs_bind_iff,
      runs_newId_iff, runs_insertRow_iff, runs_pure_iff, table_boards, put_boards] at hrun
    obtain ⟨board, w₁, ⟨id, _, ⟨-, rfl⟩, _, _, ⟨haccepts, -, rfl⟩, rfl, rfl⟩, system, w₂, hsystem, _,
      w₃, hlanes, _, w₄, hpolicy, rfl, rfl⟩ := hrun
    have hsame : w.store.boards = _ :=
      (hframe hpolicy (confined_seedPolicy (List.mem_singleton.mpr rfl) ..) (by decide)).trans <|
        (hframe hlanes (confined_insertDefaultLanes (List.mem_singleton.mpr rfl) _)
          (by decide)).trans
            (hframe hsystem (confined_seedSystemUser (List.mem_singleton.mpr rfl) _) (by decide))
    exact ⟨_, (congrArg Table.rows hsame).trans (Table.rows_insert haccepts), rfl, rfl, rfl, rfl⟩
  obtain ⟨board, hrows, hid, hflag, hactive, hallowed⟩ := hboards
  have hall : ∀ row ∈ w.store.boards.rows, row = board := by
    rw [hrows]
    simp
  refine ⟨⟨board, by simp [hrows], hactive⟩, ⟨board, by simp [hrows], hid, hflag⟩, ?_, ?_,
    fun _ ha _ hb => Table.eq_of_key ha hb, ?_, ?_⟩
  · intro row hrow _
    rw [hall row hrow, hid]
  · intro row hrow _ id hmem
    rw [hall row hrow, hallowed] at hmem
    cases hmem
  · rw [hdefaults]
    exact fun d hd => absurd hd List.not_mem_nil
  · rw [hgroups]
    exact fun a ha => absurd ha List.not_mem_nil

section runs

/-- The world after an administration operation; a rejected one leaves the store as it was. -/
def administer (w : World Store Tick) (op : AdministrationOperation) : World Store Tick :=
  (transact op.body w).2

/-- Boards, defaults and groups fit together after every run of administration operations,
those of the board service among them. -/
theorem board_integrity (inputs : ℕ → Tick) (seed : StructuralSeedResult) (w : World Store Tick)
    (hseed : transact structuralSeed ⟨{}, inputs, 0⟩ = (.ok seed, w))
    (ops : List AdministrationOperation) :
    BoardIntegrity seed.boardId (Transitions.runAll administer w ops).store := by
  refine Transitions.runAll_induction (P := fun _ _ => True)
    (I := fun w : World Store Tick => BoardIntegrity seed.boardId w.store) ?_ (integrity_seeded hseed)
    (Transitions.admitted_of_forall fun _ _ _ => trivial)
  intro w op hw _
  rcases ht : transact op.body w with ⟨e | u, w'⟩
  · rw [administer, ht, transact_error ht]
    exact hw
  · rw [administer, ht]
    exact integrity_administration hw (transact_ok_iff.mp ht)

end runs

end operations

/-- A group gets a board of its own and its default, the original board is archived, and the
group can no longer be removed. -/
def integrityRun : List AdministrationOperation :=
  [.saveGroup sampleActor none ⟨"Plumbers", [102]⟩,
    .createBoard sampleActor
      ⟨"Pipes", .restricted, [], [], [111], some ⟨false, [], [111]⟩⟩,
    .removeBoard sampleActor 101, .removeGroup sampleActor 111]

theorem board_integrity_archived :
    @BoardIntegrity samplePlatform 101 (Transitions.runAll (@administer samplePlatform)
      (freshlySeeded sampleTicks) integrityRun).store :=
  @board_integrity samplePlatform sampleTicks sampleSeed (freshlySeeded sampleTicks)
    (Prod.ext (by decide +kernel) rfl) integrityRun

example : ((Transitions.runAll (@administer samplePlatform) (freshlySeeded sampleTicks)
    integrityRun).store.boards.rows.map fun board => (board.id, board.archivedAt.isSome)) =
      [(101, true), (113, false)] := by decide +kernel

end AiKanban.Invariants
