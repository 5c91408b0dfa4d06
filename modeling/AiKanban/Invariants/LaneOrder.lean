import AiKanban.Effects.Roles
import AiKanban.Effects.Steps

/-!
# The order of the lanes

A reorder makes the lanes of a board appear in exactly the order it is given, or it is
rejected and changes nothing.
-/
namespace AiKanban.Invariants

open Domain Db Relational Services Server Transactions Effects

/-- The place a list of lanes with their indices gives to a lane. -/
def placed (boardId : Uuid) : List (Uuid × ℕ) → Lane → Lane
  | [], lane => lane
  | place :: places, lane => placed boardId places
      (if lane.boardId == boardId && lane.id == place.1 then { lane with position := place.2 } else lane)

variable {w w' : World Store Tick} {boardId : Uuid}

theorem runs_placeLanes {places : List (Uuid × ℕ)} {u : Unit}
    (h : Runs (Program.forEach
      (fun p : Uuid × ℕ => (modifyWhere (fun r : Lane => r.boardId == boardId && r.id == p.1)
        fun r => { r with position := p.2 } : Tx Unit)) places) w u w') :
    w'.store.lanes.rows = w.store.lanes.rows.map (placed boardId places) := by
  induction places generalizing w with
  | nil =>
    obtain ⟨-, rfl⟩ := runs_progPure_iff.mp h
    exact (List.map_id _).symm
  | cons place places ih =>
    obtain ⟨_, w₁, hfirst, hrest⟩ := runs_progBind_iff.mp h
    simp only [runs_modifyWhere_iff, table_lanes, put_lanes] at hfirst
    subst hfirst
    rw [ih hrest, World.withStore_store,
      Table.rows_foldl_updateWhere (f := fun r : Lane => { r with position := place.2 })
        (fun _ => rfl) (fun _ _ => rfl), List.map_map]
    rfl

@[simp] theorem placed_id (places : List (Uuid × ℕ)) (lane : Lane) :
    (placed boardId places lane).id = lane.id := by
  induction places generalizing lane with
  | nil => rfl
  | cons place places ih =>
    rw [placed, ih]
    split_ifs <;> rfl

@[simp] theorem placed_boardId (places : List (Uuid × ℕ)) (lane : Lane) :
    (placed boardId places lane).boardId = lane.boardId := by
  induction places generalizing lane with
  | nil => rfl
  | cons place places ih =>
    rw [placed, ih]
    split_ifs <;> rfl

theorem placed_eq (places : List (Uuid × ℕ)) (lane : Lane) :
    placed boardId places lane = { lane with position := (placed boardId places lane).position } := by
  induction places generalizing lane with
  | nil => rfl
  | cons place places ih =>
    rw [placed, ih]
    split_ifs <;> rfl

/-- A lane that the list does not name keeps its position. -/
theorem placed_of_ne {places : List (Uuid × ℕ)} {lane : Lane}
    (h : lane.boardId = boardId → ∀ place ∈ places, place.1 ≠ lane.id) :
    placed boardId places lane = lane := by
  induction places with
  | nil => rfl
  | cons place places ih =>
    rw [placed, if_neg, ih fun hboard p hp => h hboard p (List.mem_cons_of_mem _ hp)]
    simp only [Bool.and_eq_true, beq_iff_eq, not_and]
    exact fun hboard hid => h hboard place (List.mem_cons_self ..) hid.symm

/-- A lane of the board that the list names once gets the index it has there. -/
theorem position_placed {places : List (Uuid × ℕ)} {lane : Lane} {index : ℕ}
    (hboard : lane.boardId = boardId) (hdistinct : (places.map (·.1)).Nodup)
    (hplace : (lane.id, index) ∈ places) : (placed boardId places lane).position = index := by
  induction places with
  | nil => cases hplace
  | cons place places ih =>
    obtain ⟨hnew, hrest⟩ := List.nodup_cons.mp hdistinct
    rcases List.mem_cons.mp hplace with rfl | hplace
    · rw [placed, if_pos (by simp [hboard]), placed_of_ne]
      intro _ p hp hid
      exact hnew (List.mem_map.mpr ⟨p, hp, hid⟩)
    · have hne : lane.id ≠ place.1 := fun hid => hnew (List.mem_map.mpr ⟨_, hplace, hid⟩)
      rw [placed, if_neg (by simp [hne])]
      exact ih hrest hplace

/-- Lanes whose positions are their indices in a list are in the order of the list. -/
theorem ids_ascending {ids : List Uuid} {lanes : List Lane} (hids : ids.Nodup)
    (hperm : (lanes.map (·.id)).Perm ids)
    (hposition : ∀ lane ∈ lanes, ∀ index, (lane.id, index) ∈ ids.zipIdx → lane.position = index) :
    (ascendingBy (·.position) lanes).map (·.id) = ids := by
  have hindex : ∀ lane ∈ lanes, lane.position = ids.idxOf lane.id := by
    intro lane hlane
    have hmem : lane.id ∈ ids := hperm.mem_iff.mp (List.mem_map_of_mem hlane)
    apply hposition lane hlane
    exact List.mem_zipIdx_iff_getElem?.mpr (by simp [List.getElem?_idxOf hmem])
  have hsorted : ((ascendingBy (·.position) lanes).map (·.id)).Pairwise
      fun a b => ids.idxOf a ≤ ids.idxOf b := by
    refine List.pairwise_map.mpr ((pairwise_ascendingBy (fun l : Lane => l.position) lanes).imp_of_mem ?_)
    intro a b ha hb hle
    rw [hindex a (mem_ascendingBy.mp ha), hindex b (mem_ascendingBy.mp hb)] at hle
    omega
  have hself : ids.Pairwise fun a b => ids.idxOf a ≤ ids.idxOf b := by
    refine List.pairwise_iff_getElem.mpr fun i j hi hj hij => ?_
    rw [hids.idxOf_getElem i hi, hids.idxOf_getElem j hj]
    omega
  refine List.Perm.eq_of_pairwise ?_ hsorted hself ?_
  · intro a b ha hb hab hba
    exact (List.idxOf_inj (hperm.mem_iff.mp (((List.perm_insertionSort _ _).map _).mem_iff.mp ha))).mp
      (le_antisymm hab hba)
  · exact ((List.perm_insertionSort _ lanes).map _).trans hperm

/-- What an accepted reorder leaves: the lanes of the board, in the order that was asked for. -/
structure ReorderedAs (s s' : Store) (boardId : Uuid) (ids : List Uuid) (lanes : List Lane) :
    Prop where
  listed : lanes = LaneRepository.boardLanes s' boardId
  order : lanes.map (·.id) = ids
  perm : ids.Perm ((LaneRepository.boardLanes s boardId).map (·.id))
  same : ∀ lane ∈ lanes, ∃ old ∈ LaneRepository.boardLanes s boardId,
    lane = { old with position := lane.position }

theorem runs_reorder {actor : Actor} {raw : ReorderLanesInput} {lanes : List Lane}
    (h : Runs (LaneAdminService.reorder boardId actor raw) w lanes w') :
    w'.store.lanes.rows = w.store.lanes.rows.map (placed boardId raw.orderedIds.zipIdx) ∧
      ReorderedAs w.store w'.store boardId raw.orderedIds lanes := by
  unfold LaneAdminService.reorder at h
  replace h := runs_bind_iff.mp h
  obtain ⟨input, _, hparse, h⟩ := h
  obtain ⟨hvalue, rfl⟩ := runs_ofExcept_iff.mp hparse
  obtain rfl : input = raw := by
    obtain ⟨_, -, hrest⟩ := ok_of_bind hvalue
    cases hrest
    rfl
  replace h := runs_bind_iff.mp h
  obtain ⟨_, w₀, hauthorize, h⟩ := h
  obtain rfl := hauthorize.of_readsOnly (readsOnly_authorize _ _)
  simp only [LaneRepository.listByBoard, LaneRepository.reorder, runs_bind_iff, runs_read_iff,
    runs_ensure_iff] at h
  obtain ⟨existing, _, ⟨rfl, rfl⟩, _, w₁, ⟨hguard, rfl⟩, _, _, hplaced, rfl, rfl⟩ := h
  have hrows := runs_placeLanes hplaced
  simp only [Bool.and_eq_true, beq_iff_eq, decide_eq_true_eq, List.all_eq_true, List.any_eq_true]
    at hguard
  obtain ⟨⟨hlength, hnodup⟩, hknown⟩ := hguard
  have hperm : input.orderedIds.Perm ((LaneRepository.boardLanes w₁.store boardId).map (·.id)) := by
    apply (List.subperm_of_subset hnodup ?_).perm_of_length_le
    · rw [List.length_map, hlength]
    · intro id hid
      obtain ⟨lane, hlane, rfl⟩ := hknown id hid
      exact List.mem_map_of_mem hlane
  have hlanes : w'.store.lanes.rows.filter (fun l => l.boardId == boardId) =
      (w₁.store.lanes.rows.filter fun l => l.boardId == boardId).map
        (placed boardId input.orderedIds.zipIdx) := by
    rw [hrows, List.filter_map]
    congr 1
    apply List.filter_congr
    intro lane _
    simp
  refine ⟨hrows, rfl, ?_, hperm, ?_⟩
  · unfold LaneRepository.boardLanes
    rw [hlanes]
    apply ids_ascending hnodup
    · rw [List.map_map]
      refine List.Perm.trans ?_ hperm.symm
      have hids : ((fun l : Lane => l.id) ∘ placed boardId input.orderedIds.zipIdx) =
          fun l : Lane => l.id := by
        funext lane
        simp
      rw [hids]
      exact (List.perm_insertionSort _ _).symm.map _
    · intro lane hlane index hindex
      obtain ⟨old, hold, rfl⟩ := List.mem_map.mp hlane
      apply position_placed (by simpa using (List.mem_filter.mp hold).2)
      · rwa [List.zipIdx_map_fst]
      · rwa [placed_id] at hindex
  · intro lane hlane
    have hmem : lane ∈ w'.store.lanes.rows.filter fun l => l.boardId == boardId :=
      mem_ascendingBy.mp hlane
    rw [hlanes] at hmem
    obtain ⟨old, hold, rfl⟩ := List.mem_map.mp hmem
    exact ⟨old, mem_ascendingBy.mpr hold, placed_eq _ _⟩

/-- A reorder leaves the order it was asked for, or is rejected and changes nothing. -/
def ReordersExactly (w : World Store Tick) (boardId : Uuid) (actor : Actor)
    (raw : ReorderLanesInput) : Prop :=
  match transact (LaneAdminService.reorder boardId actor raw) w with
  | (.ok lanes, w') => ReorderedAs w.store w'.store boardId raw.orderedIds lanes
  | (.error _, w') => w'.store = w.store

theorem reorder_exact (w : World Store Tick) (boardId : Uuid) (actor : Actor)
    (raw : ReorderLanesInput) : ReordersExactly w boardId actor raw := by
  unfold ReordersExactly
  rcases ht : transact (LaneAdminService.reorder boardId actor raw) w with ⟨e | lanes, w'⟩
  · exact transact_error ht
  · exact (runs_reorder (transact_ok_iff.mp ht)).2

end AiKanban.Invariants
