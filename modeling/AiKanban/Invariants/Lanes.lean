import AiKanban.Effects.Tables
import AiKanban.Invariants.BoardIntegrity
import AiKanban.Invariants.LaneOrder
import AiKanban.Invariants.Placement

/-!
# Lanes

Every board keeps a lane, no two lanes of a board share a key or a position, and every card
is in a lane of its own board.
-/
namespace AiKanban.Invariants

open Application Db Domain Effects Relational Server Services Transactions

structure LaneIntegrity (s : Store) : Prop where
  nonempty : ∀ board ∈ s.boards.rows, ∃ lane ∈ s.lanes.rows, lane.boardId = board.id
  keys : ∀ a ∈ s.lanes.rows, ∀ b ∈ s.lanes.rows, a.boardId = b.boardId → a.key = b.key → a = b
  positions : ∀ a ∈ s.lanes.rows, ∀ b ∈ s.lanes.rows, a.boardId = b.boardId →
    a.position = b.position → a = b
  cards : ∀ card ∈ s.cards.rows, ∃ lane ∈ s.lanes.rows,
    lane.id = card.laneId ∧ lane.boardId = card.boardId

/-- The lanes and their boards belong together. -/
structure LaneShape (s : Store) : Prop where
  homes : ∀ lane ∈ s.lanes.rows, ∃ board ∈ s.boards.rows, board.id = lane.boardId
  nonempty : ∀ board ∈ s.boards.rows, ∃ lane ∈ s.lanes.rows, lane.boardId = board.id
  positions : ∀ a ∈ s.lanes.rows, ∀ b ∈ s.lanes.rows, a.boardId = b.boardId →
    a.position = b.position → a = b

section cards

/-- A card that is rewritten stays in a lane of its board. -/
theorem laneOf_change [Platform] {s s' : Store} {op : CardOperation} {card next : Card}
    {bodies : List CardEventBody} {lane : Lane} (h : Change s s' op card next bodies)
    (hlane : LaneOf s card lane) : ∃ lane', LaneOf s next lane' := by
  cases h with
  | edited | archived | expired | blocked | unblocked => exact ⟨lane, hlane⟩
  | reordered _ _ _ _ hof _ => exact ⟨_, hof.1, rfl, hof.2.2⟩
  | moved _ _ _ _ _ hto _ _ _ =>
    obtain ⟨hmem, hboard, -⟩ := laneWithKey_mem hto
    obtain ⟨_, _, _, _, _, hcross⟩ := crossLane_frame card _ _ _ _ _
    rw [hcross]
    exact ⟨_, hmem, rfl, hboard⟩
  | cancelled _ _ _ _ _ _ hto _ =>
    obtain ⟨hmem, hboard, -⟩ := laneWithKey_mem hto
    exact ⟨_, hmem, rfl, hboard⟩
  | reopened _ _ _ _ _ hto _ =>
    obtain ⟨hmem, hboard⟩ := reopenLane_mem hto
    exact ⟨_, hmem, rfl, hboard⟩

theorem bare_lawful [Platform] :
    Lawful (fun _ _ => True) (fun _ => True) (fun _ _ => True) where
  created := fun _ _ => trivial
  changed := by
    intro w s' op card next bodies lane _ _ _ hchange hlane _
    obtain ⟨lane', hlane'⟩ := laneOf_change hchange hlane
    exact ⟨⟨lane', hlane', trivial⟩, fun _ _ _ _ => trivial⟩
  alerted := fun _ => trivial
  unlocated := fun _ => trivial

theorem cards_in_lanes [Platform] (inputs : ℕ → Tick) (ops : List Operation) :
    ∀ card ∈ (run (freshlySeeded inputs) ops).store.cards.rows,
      ∃ lane, LaneOf (run (freshlySeeded inputs) ops).store card lane := by
  have hplaced : Placed (fun _ _ => True) (fun _ => True) (run (freshlySeeded inputs) ops).store := by
    refine run_invariant (I := fun w => Placed (fun _ _ => True) (fun _ => True) w.store)
      (P := fun _ _ => True) (fun _ _ _ _ _ => trivial) (fun _ _ _ _ => trivial)
      (fun _ _ _ hw hop heffect => placed_effect bare_lawful hw hop heffect) ops ?_
      (runsUnder_true ops)
    exact ⟨by simp, by simp⟩
  intro card hcard
  obtain ⟨lane, hlane, -⟩ := hplaced.cards card hcard
  exact ⟨lane, hlane⟩

end cards

section shape

variable {w w' : World Store Tick} {s s' : Store}

/-- The same boards are there, whatever their columns say. -/
def SameBoards (s s' : Store) : Prop :=
  ∀ id, (∃ board ∈ s'.boards.rows, board.id = id) ↔ ∃ board ∈ s.boards.rows, board.id = id

instance : Std.Refl SameBoards := ⟨fun _ _ => Iff.rfl⟩
instance : IsTrans Store SameBoards := ⟨fun _ _ _ h h' id => (h' id).trans (h id)⟩

theorem SameBoards.of_boards (h : s'.boards = s.boards) : SameBoards s s' := by
  intro id
  rw [h]

theorem sameBoards_of_confined {α : Type} {names : List TableName} {p : Tx α}
    (hp : Confined names p) (hname : TableName.boards ∉ names) : Preserves SameBoards p := by
  intro w a w' h
  exact .of_boards (sameTable_of_confined h hp hname)

/-- Rewriting a row under its own id leaves the ids alone. -/
theorem exists_id_update {t : Table Board} {board : Board} {id : Uuid} :
    (∃ row ∈ (t.update board).rows, row.id = id) ↔ ∃ row ∈ t.rows, row.id = id := by
  cases haccepts : t.acceptsUpdate board with
  | false => rw [Table.update_eq_self haccepts]
  | true =>
    have hself : ∀ x : Board, (if x.id = board.id then board else x).id = x.id := by
      intro x
      split_ifs with hid
      · exact hid.symm
      · rfl
    rw [Table.rows_update haccepts]
    constructor
    · rintro ⟨row, hrow, rfl⟩
      obtain ⟨x, hx, rfl⟩ := List.mem_map.mp hrow
      exact ⟨x, hx, (hself x).symm⟩
    · rintro ⟨x, hx, rfl⟩
      exact ⟨_, List.mem_map.mpr ⟨x, hx, rfl⟩, hself x⟩

theorem sameBoards_updateBoard (board : Board) : Preserves SameBoards (BoardRepository.update board) := by
  intro w u w' h id
  simp only [BoardRepository.update, runs_modifyWhere_iff, table_boards, put_boards] at h
  subst h
  have hfold : ∀ (rows : List Board) (t : Table Board),
      (∃ row ∈ ((rows.map fun row => RowWrite.update row board).foldl Table.write t).rows,
        row.id = id) ↔ ∃ row ∈ t.rows, row.id = id := by
    intro rows
    induction rows with
    | nil => exact fun _ => Iff.rfl
    | cons row rows ih =>
      intro t
      rw [List.map_cons, List.foldl_cons, ih]
      exact exists_id_update
  exact hfold _ _

theorem LaneShape.of_boards (h : LaneShape s) (hboards : SameBoards s s') (hlanes : s'.lanes = s.lanes) :
    LaneShape s' where
  homes := by
    rw [hlanes]
    intro lane hlane
    exact (hboards lane.boardId).mpr (h.homes lane hlane)
  nonempty := by
    rw [hlanes]
    intro board hboard
    obtain ⟨old, hold, hid⟩ := (hboards board.id).mp ⟨board, hboard, rfl⟩
    obtain ⟨lane, hlane, hhome⟩ := h.nonempty old hold
    exact ⟨lane, hlane, hhome.trans hid⟩
  positions := by
    rw [hlanes]
    exact h.positions

/-- Lanes that keep their board and do not come to share a position. -/
theorem LaneShape.mapped {f : Lane → Lane} (h : LaneShape s) (hboards : s'.boards = s.boards)
    (hlanes : s'.lanes.rows = s.lanes.rows.map f)
    (hhome : ∀ lane ∈ s.lanes.rows, (f lane).boardId = lane.boardId)
    (hposition : ∀ a ∈ s.lanes.rows, ∀ b ∈ s.lanes.rows, a.boardId = b.boardId →
      (f a).position = (f b).position → a.position = b.position ∨ a = b) : LaneShape s' where
  homes := by
    rw [hboards, hlanes]
    intro lane hlane
    obtain ⟨old, hold, rfl⟩ := List.mem_map.mp hlane
    rw [hhome old hold]
    exact h.homes old hold
  nonempty := by
    rw [hboards, hlanes]
    intro board hboard
    obtain ⟨lane, hlane, hid⟩ := h.nonempty board hboard
    exact ⟨f lane, List.mem_map_of_mem hlane, (hhome lane hlane).trans hid⟩
  positions := by
    rw [hlanes]
    intro a ha b hb hboard heq
    obtain ⟨a, hold, rfl⟩ := List.mem_map.mp ha
    obtain ⟨b, hold', rfl⟩ := List.mem_map.mp hb
    rw [hhome a hold, hhome b hold'] at hboard
    rcases hposition a hold b hold' hboard heq with hsame | rfl
    · rw [h.positions a hold b hold' hboard hsame]
    · rfl

/-- New lanes of a board that had none of their positions. -/
theorem LaneShape.added {news : List Lane} {boardId : Uuid} (h : LaneShape s)
    (hlanes : s'.lanes.rows = s.lanes.rows ++ news) (hhome : ∀ lane ∈ news, lane.boardId = boardId)
    (hboard : ∃ board ∈ s'.boards.rows, board.id = boardId)
    (hold : ∀ id, (∃ board ∈ s.boards.rows, board.id = id) → ∃ board ∈ s'.boards.rows, board.id = id)
    (hthere : ∀ board ∈ s'.boards.rows, (∃ old ∈ s.boards.rows, old.id = board.id) ∨
      board.id = boardId ∧ news ≠ [])
    (hdistinct : (news.map (·.position)).Nodup)
    (hfree : ∀ lane ∈ s.lanes.rows, lane.boardId = boardId → ∀ new ∈ news,
      lane.position ≠ new.position) : LaneShape s' where
  homes := by
    intro lane hlane
    rw [hlanes] at hlane
    rcases List.mem_append.mp hlane with hlane | hlane
    · exact hold lane.boardId (h.homes lane hlane)
    · rw [hhome lane hlane]
      exact hboard
  nonempty := by
    rw [hlanes]
    intro board hmem
    rcases hthere board hmem with ⟨old, hmem, hid⟩ | ⟨hid, hsome⟩
    · obtain ⟨lane, hlane, hlaneHome⟩ := h.nonempty old hmem
      exact ⟨lane, List.mem_append_left _ hlane, hlaneHome.trans hid⟩
    · obtain ⟨lane, hlane⟩ := List.exists_mem_of_ne_nil _ hsome
      exact ⟨lane, List.mem_append_right _ hlane, (hhome lane hlane).trans hid.symm⟩
  positions := by
    rw [hlanes]
    intro a ha b hb hsame heq
    rcases List.mem_append.mp ha with ha | ha
    · rcases List.mem_append.mp hb with hb | hb
      · exact h.positions a ha b hb hsame heq
      · exact absurd heq (hfree a ha (hsame.trans (hhome b hb)) b hb)
    · rcases List.mem_append.mp hb with hb | hb
      · exact absurd heq.symm (hfree b hb (hsame.symm.trans (hhome a ha)) a ha)
      · exact List.inj_on_of_nodup_map hdistinct ha hb heq

end shape

section writes

variable {w w' : World Store Tick}

theorem le_foldl_position (lanes : List Lane) (start : ℤ) :
    start ≤ lanes.foldl (fun max lane => Max.max max lane.position) start ∧
      ∀ lane ∈ lanes,
        lane.position ≤ lanes.foldl (fun max lane => Max.max max lane.position) start := by
  induction lanes generalizing start with
  | nil => exact ⟨le_rfl, fun _ h => nomatch h⟩
  | cons lane lanes ih =>
    obtain ⟨hstart, hall⟩ := ih (max start lane.position)
    refine ⟨(le_max_left _ _).trans hstart, fun x hx => ?_⟩
    rcases List.mem_cons.mp hx with rfl | hx
    · exact (le_max_right _ _).trans hstart
    · exact hall x hx

theorem mem_boards_of_hasBoard {s : Store} {id : Uuid} (h : s.hasBoard id = true) :
    ∃ board ∈ s.boards.rows, board.id = id := by
  obtain ⟨board, hboard⟩ := Option.isSome_iff_exists.mp h
  exact ⟨board, Table.mem_of_find? hboard, Table.find?_key hboard⟩

theorem laneShape_createLane [Platform] {boardId : Uuid} {actor : Actor} {raw : CreateLaneInput}
    {lane : Lane} (hw : LaneShape w.store)
    (h : Runs (LaneAdminService.create boardId actor raw) w lane w') : LaneShape w'.store := by
  unfold LaneAdminService.create at h
  replace h := runs_bind_iff.mp h
  obtain ⟨input, _, hparse, h⟩ := h
  obtain ⟨-, rfl⟩ := runs_ofExcept_iff.mp hparse
  replace h := runs_bind_iff.mp h
  obtain ⟨_, w₀, hauthorize, h⟩ := h
  obtain rfl := hauthorize.of_readsOnly (readsOnly_authorize _ _)
  simp only [LaneRepository.listByBoard, LaneRepository.insert, runs_bind_iff, runs_read_iff,
    runs_ofExcept_iff, runs_newId_iff, runs_insertRow_iff, runs_pure_iff, table_lanes, put_lanes]
    at h
  obtain ⟨existing, _, ⟨rfl, rfl⟩, key, w₁, ⟨-, rfl⟩, id, _, ⟨-, rfl⟩, _, _,
    ⟨haccepts, hhas, rfl⟩, rfl, rfl⟩ := h
  have hboard := mem_boards_of_hasBoard hhas
  refine hw.added (Table.rows_insert haccepts) ?_ hboard (fun _ hid => hid)
    (fun board hmem => .inl ⟨board, hmem, rfl⟩) (List.nodup_singleton _) ?_
  · intro new hnew
    rw [List.mem_singleton.mp hnew]
  · intro lane hlane hhome new hnew
    rw [List.mem_singleton.mp hnew]
    have hlisted : lane ∈ LaneRepository.boardLanes w₁.store boardId :=
      mem_boardLanes.mpr ⟨hlane, hhome⟩
    have hle := (le_foldl_position _ (-1)).2 lane hlisted
    simp only
    omega

theorem laneShape_updateLane {boardId : Uuid} {actor : Actor} {laneId : Uuid}
    {raw : UpdateLaneInput} {lane : Lane} (hw : LaneShape w.store)
    (h : Runs (LaneAdminService.update boardId actor laneId raw) w lane w') :
    LaneShape w'.store := by
  unfold LaneAdminService.update at h
  replace h := runs_bind_iff.mp h
  obtain ⟨input, _, hparse, h⟩ := h
  obtain ⟨-, rfl⟩ := runs_ofExcept_iff.mp hparse
  replace h := runs_bind_iff.mp h
  obtain ⟨_, w₀, hauthorize, h⟩ := h
  obtain rfl := hauthorize.of_readsOnly (readsOnly_authorize _ _)
  simp only [LaneRepository.listByBoard, LaneRepository.update, runs_bind_iff, runs_read_iff,
    runs_require_iff, runs_modifyRow_iff, runs_pure_iff, table_lanes, put_lanes] at h
  obtain ⟨_, _, ⟨rfl, rfl⟩, found, w₁, ⟨-, rfl⟩, _, _, ⟨row, hrow, haccepts, -, rfl⟩, -, rfl⟩ := h
  have hmem := Table.mem_of_find? hrow
  generalize hnext : Lane.mk row.id _ _ _ _ _ = next at haccepts
  have hsame : ∀ lane ∈ w₁.store.lanes.rows, next.id = lane.id →
      next.boardId = lane.boardId ∧ next.position = lane.position := by
    intro lane hlane hid
    rw [← hnext] at hid ⊢
    rw [Table.eq_of_key hmem hlane hid]
    exact ⟨rfl, rfl⟩
  have hkept : ∀ lane ∈ w₁.store.lanes.rows,
      (if lane.id = next.id then next else lane).boardId = lane.boardId ∧
        (if lane.id = next.id then next else lane).position = lane.position := by
    intro lane hlane
    split_ifs with hid
    · exact hsame lane hlane hid.symm
    · exact ⟨rfl, rfl⟩
  refine hw.mapped rfl (Table.rows_update haccepts) (fun lane hlane => (hkept lane hlane).1) ?_
  intro a ha b hb _ heq
  exact .inl ((hkept a ha).2.symm.trans (heq.trans (hkept b hb).2))

theorem laneShape_removeLane {boardId : Uuid} {actor : Actor} {laneId : Uuid} {u : Unit}
    (hw : LaneShape w.store) (h : Runs (LaneAdminService.remove boardId actor laneId) w u w') :
    LaneShape w'.store := by
  unfold LaneAdminService.remove at h
  replace h := runs_bind_iff.mp h
  obtain ⟨_, _, hauthorize, h⟩ := h
  obtain rfl := hauthorize.of_readsOnly (readsOnly_authorize _ _)
  simp only [LaneRepository.listByBoard, runs_bind_iff, runs_read_iff, runs_require_iff,
    runs_ensure_iff, LaneRepository.remove, runs_write_iff] at h
  obtain ⟨lanes, _, ⟨rfl, rfl⟩, lane, _, ⟨hlane, rfl⟩, _, _, ⟨hmany, rfl⟩, edge, _, hedge, _, w₀,
    ⟨-, rfl⟩, ws, hws, rfl⟩ := h
  obtain rfl := hedge.of_readsOnly (readsOnly_edgeOfLane _ _)
  obtain ⟨hmem, hhome⟩ := mem_boardLanes.mp (List.mem_of_find?_eq_some hlane)
  rw [show w₀.store.lanes.find? lane.id = some lane from Table.find?_of_mem hmem] at hws
  dsimp only at hws
  split_ifs at hws with hcards
  cases hws
  have hrows : ∀ x, x ∈ (w₀.store.lanes.write (.delete lane)).rows ↔
      x ∈ w₀.store.lanes.rows ∧ x.id ≠ lane.id := by
    intro x
    rw [Table.write, Table.mem_remove]
    exact and_congr_right fun _ => decide_eq_false_iff_not
  refine ⟨fun x hx => hw.homes x ((hrows x).mp hx).1, fun board hboard => ?_, fun a ha b hb => ?_⟩
  · obtain ⟨kept, hkept, hkeptHome⟩ := hw.nonempty board hboard
    by_cases hgone : kept.id = lane.id
    · -- The board of the lane that goes has another one.
      obtain rfl : kept = lane := Table.eq_of_key hkept hmem hgone
      obtain ⟨other, hother, hne⟩ : ∃ other ∈ LaneRepository.boardLanes w₀.store boardId,
          other ≠ kept := by
        by_contra hnone
        push Not at hnone
        have hnodup : (LaneRepository.boardLanes w₀.store boardId).Nodup :=
          (List.perm_insertionSort _ _).nodup_iff.mpr (w₀.store.lanes.nodup.filter _)
        have hshort := (hnodup.subperm fun x hx => List.mem_singleton.mpr (hnone x hx)).length_le
        simp only [decide_eq_true_eq] at hmany
        simp only [List.length_singleton] at hshort
        omega
      obtain ⟨hotherMem, hotherHome⟩ := mem_boardLanes.mp hother
      refine ⟨other, (hrows other).mpr ⟨hotherMem, fun hid => hne ?_⟩, ?_⟩
      · exact Table.eq_of_key hotherMem hmem hid
      · exact hotherHome.trans (hhome.symm.trans hkeptHome)
    · exact ⟨kept, (hrows kept).mpr ⟨hkept, hgone⟩, hkeptHome⟩
  · exact hw.positions a ((hrows a).mp ha).1 b ((hrows b).mp hb).1

theorem laneShape_reorder {boardId : Uuid} {actor : Actor} {raw : ReorderLanesInput}
    {lanes : List Lane} (hw : LaneShape w.store)
    (h : Runs (LaneAdminService.reorder boardId actor raw) w lanes w') : LaneShape w'.store := by
  have hboards : w'.store.boards = w.store.boards :=
    sameTable_of_confined h (confined_reorderLanes _ _ _) (show TableName.boards ∉ _ by decide)
  obtain ⟨hrows, hordered⟩ := runs_reorder h
  refine hw.mapped hboards hrows (fun lane _ => placed_boardId _ _) fun a ha b hb hboard heq => ?_
  by_cases hhere : a.boardId = boardId
  · -- On the board, the position is the index in a list without repetitions.
    right
    have hnodup : raw.orderedIds.Nodup := hordered.perm.nodup_iff.mpr <| by
      refine List.Nodup.map_on (fun x hx y hy hid => ?_)
        ((List.perm_insertionSort _ _).nodup_iff.mpr (w.store.lanes.nodup.filter _))
      exact Table.eq_of_key (mem_boardLanes.mp hx).1 (mem_boardLanes.mp hy).1 hid
    have hindex : ∀ lane ∈ w.store.lanes.rows, lane.boardId = boardId →
        lane.id ∈ raw.orderedIds ∧ (placed boardId raw.orderedIds.zipIdx lane).position =
          raw.orderedIds.idxOf lane.id := by
      intro lane hlane hhome
      have hlisted : lane.id ∈ raw.orderedIds :=
        hordered.perm.mem_iff.mpr (List.mem_map_of_mem (mem_boardLanes.mpr ⟨hlane, hhome⟩))
      refine ⟨hlisted, position_placed hhome ?_ ?_⟩
      · rwa [List.zipIdx_map_fst]
      · exact List.mem_zipIdx_iff_getElem?.mpr (by simp [List.getElem?_idxOf hlisted])
    obtain ⟨hlisted, hposition⟩ := hindex a ha hhere
    obtain ⟨-, hposition'⟩ := hindex b hb (hboard ▸ hhere)
    rw [hposition, hposition'] at heq
    have hsame : a.id = b.id := (List.idxOf_inj hlisted).mp (by omega)
    exact Table.eq_of_key ha hb hsame
  · left
    have hother : ∀ lane : Lane, lane.boardId ≠ boardId →
        placed boardId raw.orderedIds.zipIdx lane = lane := fun lane hne =>
      placed_of_ne fun hhome => absurd hhome hne
    rwa [hother a hhere, hother b (hboard ▸ hhere)] at heq

/-- The starting columns come with their places in the list. -/
theorem runs_insertDefaultLanes {boardId : Uuid}
    {columns : List ((LaneKey × String × Option ℕ) × ℕ)} {u : Unit}
    (h : Runs (ensureEach columns (BoardService.insertDefaultLane boardId)) w u w') :
    ∃ news : List Lane, w'.store.lanes.rows = w.store.lanes.rows ++ news ∧
      (∀ lane ∈ news, lane.boardId = boardId) ∧
        news.map (·.position) = columns.map fun column => (column.2 : ℤ) := by
  unfold ensureEach at h
  induction columns generalizing w with
  | nil =>
    obtain ⟨-, rfl⟩ := runs_progPure_iff.mp h
    exact ⟨[], (List.append_nil _).symm, fun _ hlane => (List.not_mem_nil hlane).elim, rfl⟩
  | cons column columns ih =>
    obtain ⟨⟨key, label, wipLimit⟩, position⟩ := column
    obtain ⟨_, w₁, hfirst, hrest⟩ := runs_progBind_iff.mp h
    simp only [BoardService.insertDefaultLane, LaneRepository.insert, runs_bind_iff,
      runs_newId_iff, runs_insertRow_iff, table_lanes, put_lanes] at hfirst
    obtain ⟨id, _, ⟨-, rfl⟩, haccepts, -, rfl⟩ := hfirst
    obtain ⟨news, hrows, hhome, hpositions⟩ := ih hrest
    refine ⟨⟨id, boardId, key, label, position, wipLimit⟩ :: news, ?_, ?_, ?_⟩
    · rw [hrows, World.withStore_store, Table.rows_insert haccepts, List.append_assoc]
      rfl
    · intro lane hlane
      rcases List.mem_cons.mp hlane with rfl | hlane
      · rfl
      · exact hhome lane hlane
    · rw [List.map_cons, List.map_cons, hpositions]

theorem defaultPositions_nodup :
    (defaultLanes.zipIdx.map fun column => (column.2 : ℤ)).Nodup := by decide

/-- A new board comes with its starting columns. -/
theorem LaneShape.founded {s s' : Store} {board : Board} {news : List Lane} (h : LaneShape s)
    (haccepts : s.boards.accepts board = true) (hboards : s'.boards = s.boards.insert board)
    (hlanes : s'.lanes.rows = s.lanes.rows ++ news) (hhome : ∀ lane ∈ news, lane.boardId = board.id)
    (hpositions : news.map (·.position) = defaultLanes.zipIdx.map fun column => (column.2 : ℤ)) :
    LaneShape s' := by
  have hrows : s'.boards.rows = s.boards.rows ++ [board] := by
    rw [hboards, Table.rows_insert haccepts]
  have hfresh : ∀ old ∈ s.boards.rows, old.id ≠ board.id := fun old hold =>
    Table.find?_eq_none_iff.mp (Table.find?_of_accepts haccepts) old hold
  refine h.added hlanes hhome ⟨board, by simp [hrows], rfl⟩ ?_ ?_
    (hpositions ▸ defaultPositions_nodup) ?_
  · rintro id ⟨old, hold, rfl⟩
    exact ⟨old, by simp [hrows, hold], rfl⟩
  · intro x hx
    rw [hrows] at hx
    rcases List.mem_append.mp hx with hold | hnew
    · exact .inl ⟨x, hold, rfl⟩
    · refine .inr ⟨congrArg Board.id (List.mem_singleton.mp hnew), ?_⟩
      rintro rfl
      cases hpositions
  · intro lane hlane hid
    obtain ⟨old, hold, holdId⟩ := h.homes lane hlane
    exact absurd (holdId.trans hid) (hfresh old hold)

theorem laneShape_createBoard {actor : Actor} {raw : BoardInput} {board : Board}
    (hw : LaneShape w.store) (h : Runs (BoardService.create actor raw) w board w') :
    LaneShape w'.store := by
  simp only [BoardService.create, BoardRepository.insert, runs_bind_iff, runs_ofExcept_iff,
    runs_newId_iff, runs_clockNow_iff, runs_insertRow_iff, runs_pure_iff, table_boards,
    put_boards] at h
  obtain ⟨input, _, ⟨-, rfl⟩, _, _, hlock, _, w, haccess, id, _, ⟨-, rfl⟩, now, _, ⟨-, rfl⟩, _, _,
    ⟨haccepts, -, rfl⟩, _, w₂, hsaved, _, w₃, hlanes, _, _, ⟨-, rfl⟩, _, _, hglobal, _, w₄,
    hversion, -, rfl⟩ := h
  obtain rfl := hlock.of_readsOnly (readsOnly_lockAdministration _)
  obtain ⟨rfl, -⟩ := runs_validateAccess haccess
  obtain ⟨rfl, -⟩ := runs_globalPolicy hglobal
  generalize hcreated : Board.mk id _ _ _ _ _ _ _ _ = created at haccepts hsaved
  have hid : created.id = id := by rw [← hcreated]
  have hsaves := frame_of_confined hsaved (confined_saveDefaults (List.mem_singleton.mpr rfl) _ _)
  have hlaneRows := frame_of_confined hlanes (confined_insertDefaultLanes (List.mem_singleton.mpr rfl) _)
  obtain ⟨hpolicyRows, -⟩ := runs_insertPolicy hversion
  obtain ⟨news, hrows, hhome, hpositions⟩ := runs_insertDefaultLanes hlanes
  have hfinal : w'.store.lanes = w₃.store.lanes := hpolicyRows .lanes (by decide)
  have hbefore : w₂.store.lanes = _ := hsaves .lanes (by decide)
  refine hw.founded haccepts ?_ ?_ ?_ hpositions
  · exact Eq.trans (hpolicyRows .boards (by decide)) <| Eq.trans (hlaneRows .boards (by decide))
      (hsaves .boards (by decide))
  · rw [hfinal, hrows, hbefore]
    rfl
  · rw [hid]
    exact hhome

theorem laneShape_seeded (inputs : ℕ → Tick) : LaneShape (freshlySeeded inputs).store := by
  have hempty : LaneShape {} :=
    ⟨fun _ h => absurd h List.not_mem_nil, fun _ h => absurd h List.not_mem_nil,
      fun _ h => absurd h List.not_mem_nil⟩
  unfold freshlySeeded
  rcases ht : transact structuralSeed ⟨{}, inputs, 0⟩ with ⟨e | seed, w⟩
  · have hstore : w.store = {} := transact_error ht
    rw [hstore]
    exact hempty
  have hrun := transact_ok_iff.mp ht
  have hframe : ∀ {α : Type} {names : List TableName} {p : Tx α} {a : α} {v v' : World Store Tick},
      Runs p v a v' → Confined names p → ∀ name, name ∉ names → v.store.SameTable name v'.store :=
    fun hp hc _ hn => sameTable_of_confined hp hc hn
  simp only [structuralSeed, runs_bind_iff, runs_clockNow_iff] at hrun
  obtain ⟨now, _, ⟨-, rfl⟩, existing, _, hexisting, hrun⟩ := hrun
  obtain ⟨hnone, rfl⟩ := runs_read_iff.mp hexisting
  obtain rfl : existing = none := hnone
  simp only [seedNewBoard, BoardRepository.insert, Option.isNone_none, if_true, runs_bind_iff,
    runs_newId_iff, runs_insertRow_iff, runs_pure_iff, table_boards, put_boards] at hrun
  obtain ⟨board, w₁, ⟨id, _, ⟨-, rfl⟩, _, _, ⟨haccepts, -, rfl⟩, hboard, rfl⟩, system, w₂, hsystem, _,
    w₃, hlanes, _, w₄, hpolicy, -, rfl⟩ := hrun
  have hsystemRows := hframe hsystem (confined_seedSystemUser (List.mem_singleton.mpr rfl) _)
  have hlaneRows := hframe hlanes (confined_insertDefaultLanes (List.mem_singleton.mpr rfl) _)
  have hpolicyRows := hframe hpolicy (confined_seedPolicy (List.mem_singleton.mpr rfl) ..)
  obtain ⟨news, hrows, hhome, hpositions⟩ := runs_insertDefaultLanes hlanes
  have hfinal : w.store.lanes = w₃.store.lanes := hpolicyRows .lanes (by decide)
  have hbefore : w₂.store.lanes = _ := hsystemRows .lanes (by decide)
  rw [← hboard] at haccepts
  refine hempty.founded haccepts ?_ ?_ hhome hpositions
  · rw [hboard]
    exact Eq.trans (hpolicyRows .boards (by decide)) <| Eq.trans (hlaneRows .boards (by decide))
      (hsystemRows .boards (by decide))
  · rw [hfinal, hrows, hbefore]
    rfl

end writes

section boards

theorem sameBoards_reads {α β : Type} {p : Tx α} {f : α → Tx β} (hp : p.ReadsOnly)
    (hf : ∀ a, Preserves SameBoards (f a)) : Preserves SameBoards (p >>= f) :=
  (Preserves.of_readsOnly hp).bind hf

theorem sameBoards_ofExcept {α β : Type} {value : Except DomainError α} {f : α → Tx β}
    (hf : ∀ a, Preserves SameBoards (f a)) : Preserves SameBoards (.ofExcept value >>= f) :=
  sameBoards_reads (Program.readsOnly_ofExcept _) hf

theorem sameBoards_updateService (actor : Actor) (boardId : Uuid) (raw : BoardInput) :
    Preserves SameBoards (BoardService.update actor boardId raw) := by
  unfold BoardService.update
  refine sameBoards_ofExcept fun _ => ?_
  refine sameBoards_reads (readsOnly_lockAdministration _) fun _ => ?_
  refine sameBoards_reads (readsOnly_requireBoardAccess _ _) fun _ => ?_
  refine sameBoards_reads (readsOnly_validateAccess _ _ _) fun _ => ?_
  refine (sameBoards_updateBoard _).bind fun _ => ?_
  have hdefaults : ∀ id assignments, Preserves SameBoards (BoardService.saveDefaults id assignments) := by
    intro id assignments
    have hconfined : Confined [.boardDefaults] (BoardService.saveDefaults id assignments) :=
      confined_saveDefaults (List.mem_singleton_self _) id assignments
    exact sameBoards_of_confined hconfined (by decide)
  exact (hdefaults _ _).bind fun _ => .of_readsOnly (Program.readsOnly_pure _)

theorem sameBoards_removeService (actor : Actor) (boardId : Uuid) :
    Preserves SameBoards (BoardService.remove actor boardId) := by
  unfold BoardService.remove
  refine sameBoards_reads (readsOnly_lockAdministration _) fun _ => ?_
  refine sameBoards_reads (readsOnly_requireBoardAccess _ _) fun _ => ?_
  refine sameBoards_reads (Program.readsOnly_read _) fun _ => ?_
  refine sameBoards_reads (Program.readsOnly_ensure _ _) fun _ => ?_
  have hclock : Preserves SameBoards clockNow :=
    sameBoards_of_confined confined_clockNow (List.not_mem_nil (a := TableName.boards))
  exact hclock.bind fun _ => sameBoards_updateBoard _

end boards

section runs

variable [Platform] {w : World Store Tick}

theorem laneShape_administration (op : AdministrationOperation) (hw : LaneShape w.store) :
    LaneShape (transact op.body w).2.store := by
  rcases ht : transact op.body w with ⟨e | u, w'⟩
  · have hstore : w'.store = w.store := transact_error ht
    rwa [hstore]
  have h := transact_ok_iff.mp ht
  have hframe : ∀ {α : Type} {names : List TableName} {p : Tx α} {a : α}, Confined names p →
      TableName.boards ∉ names → TableName.lanes ∉ names → Runs p w a w' → LaneShape w'.store := by
    intro α names p a hp hboards hlanes hrun
    exact hw.of_boards (.of_boards (sameTable_of_confined hrun hp hboards))
      (sameTable_of_confined hrun hp hlanes)
  cases op with
  | getPolicy boardId =>
    obtain ⟨a, h⟩ := runs_discard_iff.mp h
    exact hframe (confined_readsOnly (readsOnly_getActivePolicy _)) List.not_mem_nil
      List.not_mem_nil h
  | applyPolicy boardId actor document =>
    obtain ⟨a, h⟩ := runs_discard_iff.mp h
    exact hframe (confined_applyPolicy _ _ _) (by decide) (by decide) h
  | createBoard actor raw =>
    obtain ⟨a, h⟩ := runs_discard_iff.mp h
    exact laneShape_createBoard hw h
  | updateBoard actor boardId raw =>
    obtain ⟨a, h⟩ := runs_discard_iff.mp h
    exact hw.of_boards (sameBoards_updateService _ _ _ _ _ _ h)
      (sameTable_of_confined h (confined_updateBoard _ _ _) (show TableName.lanes ∉ _ by decide))
  | removeBoard actor boardId =>
    exact hw.of_boards (sameBoards_removeService _ _ _ _ _ h)
      (sameTable_of_confined h (confined_removeBoard _ _) (show TableName.lanes ∉ _ by decide))
  | setPreference actor boardId =>
    exact hframe (confined_setPreference _ _) (by decide) (by decide) h
  | saveGroup actor groupId raw =>
    obtain ⟨a, h⟩ := runs_discard_iff.mp h
    exact hframe (confined_saveGroup _ _ _) (by decide) (by decide) h
  | removeGroup actor groupId => exact hframe (confined_removeGroup _ _) (by decide) (by decide) h
  | createLane boardId actor raw =>
    obtain ⟨a, h⟩ := runs_discard_iff.mp h
    exact laneShape_createLane hw h
  | updateLane boardId actor laneId raw =>
    obtain ⟨a, h⟩ := runs_discard_iff.mp h
    exact laneShape_updateLane hw h
  | removeLane boardId actor laneId => exact laneShape_removeLane hw h
  | reorderLanes boardId actor raw =>
    obtain ⟨a, h⟩ := runs_discard_iff.mp h
    exact laneShape_reorder hw h
  | createLocation boardId actor raw =>
    obtain ⟨a, h⟩ := runs_discard_iff.mp h
    exact hframe (confined_createLocation _ _ _) (by decide) (by decide) h
  | updateLocation boardId actor locationId raw =>
    obtain ⟨a, h⟩ := runs_discard_iff.mp h
    exact hframe (confined_updateLocation _ _ _ _) (by decide) (by decide) h
  | deleteLocation boardId actor locationId =>
    exact hframe (confined_deleteLocation _ _ _) (by decide) (by decide) h
  | createUser deps actor raw temp =>
    obtain ⟨a, h⟩ := runs_discard_iff.mp h
    exact hframe (confined_createUser _ _ _ _) (by decide) (by decide) h
  | updateUser deps actor userId raw temp =>
    obtain ⟨a, h⟩ := runs_discard_iff.mp h
    exact hframe (confined_updateUser _ _ _ _ _) (by decide) (by decide) h

theorem laneShape_step (op : Operation) (hw : LaneShape w.store) : LaneShape (step w op).store := by
  have hlanes : TableName.lanes ∉ cardTables := by decide
  have hboards : TableName.boards ∉ cardTables := by decide
  cases op with
  | card op => exact hw.of_boards (.of_boards (card_sameTable op hboards)) (card_sameTable op hlanes)
  | collaboration op =>
    exact hw.of_boards (.of_boards (collaboration_sameTable op hboards))
      (collaboration_sameTable op hlanes)
  | administration op => exact laneShape_administration op hw

theorem laneShape_run (inputs : ℕ → Tick) (ops : List Operation) :
    LaneShape (run (freshlySeeded inputs) ops).store :=
  run_induction (I := fun w => LaneShape w.store) (P := fun _ _ => True)
    (fun _ op hw _ => laneShape_step op hw) ops _ (laneShape_seeded inputs) (runsUnder_true ops)

/-- In every reachable state the lanes are sound, and a reorder is exact or changes nothing. -/
theorem lanes_sound (inputs : ℕ → Tick) (ops : List Operation) :
    LaneIntegrity (run (freshlySeeded inputs) ops).store ∧
      ∀ (boardId : Uuid) (actor : Actor) (raw : ReorderLanesInput),
        ReordersExactly (run (freshlySeeded inputs) ops) boardId actor raw := by
  have hshape := laneShape_run inputs ops
  refine ⟨⟨hshape.nonempty, ?_, hshape.positions, ?_⟩, fun _ _ _ => reorder_exact _ _ _ _⟩
  · exact fun _ ha _ hb hboard hkey => lane_eq_of_key ha hb hboard hkey
  · intro card hcard
    obtain ⟨lane, hmem, hid, hboard⟩ := cards_in_lanes inputs ops card hcard
    exact ⟨lane, hmem, hid, hboard⟩

end runs

example : (LaneRepository.boardLanes (@run samplePlatform (freshlySeeded sampleTicks)
    [.administration (.removeLane 101 sampleActor 104),
      .administration (.createLane 101 sampleActor ⟨"Ready", none⟩),
      .administration (.reorderLanes 101 sampleActor ⟨[107, 103, 111, 105, 106, 108, 109]⟩)]).store
        101).map (fun lane => (lane.id, lane.key)) =
    [(107, "waiting_parts_vendor"), (103, "intake"), (111, "ready_2"), (105, "ready"),
      (106, "in_progress"), (108, "review"), (109, "done")] := by decide +kernel

end AiKanban.Invariants
