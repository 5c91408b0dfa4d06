import AiKanban.Db.Seed
import AiKanban.Effects.Places
import AiKanban.Services.BoardQuery
import AiKanban.Web.BoardCache

/-!
# The optimistic order

The order the web client gives to its view of the board at once is the order the server gives to
the same cards when it accepts the move.
-/
namespace AiKanban.Invariants

open Domain Db Relational Services Transactions Effects Web
open Application (run)

/-- The lanes of a board, each with some of its cards in position order. -/
structure ViewOf (s : Store) (boardId : Uuid) (view : BoardResponse) : Prop where
  lanes : view.lanes.map (·.lane) = LaneRepository.boardLanes s boardId
  cards : ∀ snapshot ∈ view.lanes, (snapshot.cards.map (·.id)).Sublist
    ((CardRepository.laneRows s snapshot.lane.id).map (·.id))

def cardIds (view : BoardResponse) : List ℕ :=
  view.lanes.flatMap fun snapshot => snapshot.cards.map (·.id)

/-- The intents the web client makes of a card on a view; a move into the waiting lane is given
its waiting fields besides. -/
inductive IntendedOn (view : BoardResponse) (cardId : ℕ) : MoveIntent → Prop where
  | dropped {target : DropTarget} {intent : MoveIntent} {reason : Option WaitingReason}
      {day : Option Day} (made : moveIntentFromDrop view cardId target = some intent) :
      IntendedOn view cardId { intent with waitingReason := reason, expectedResumeAt := day }
  | chosen {snapshot : LaneSnapshot} {labels : PositionLabels} {choice : PositionChoice}
      {reason : Option WaitingReason} {day : Option Day} (lane : snapshot ∈ view.lanes)
      (offered : choice ∈ positionChoices snapshot.cards cardId labels) :
      IntendedOn view cardId ⟨snapshot.lane.key, choice.prevCardId, choice.nextCardId, reason, day⟩

/-- The lanes of a view with the ids of their cards, in order. -/
def viewOrder (view : BoardResponse) : List (Lane × List ℕ) :=
  view.lanes.map fun snapshot => (snapshot.lane, snapshot.cards.map (·.id))

/-- The lanes of the board with those of their cards that are among the ids, in order. -/
def serverOrder (s : Store) (boardId : Uuid) (ids : List ℕ) : List (Lane × List ℕ) :=
  (LaneRepository.boardLanes s boardId).map fun lane =>
    (lane, ((CardRepository.laneRows s lane.id).map (·.id)).filter (· ∈ ids))

theorem IntendedOn.namesPlace {view : BoardResponse} {cardId : ℕ} {intent : MoveIntent}
    (h : IntendedOn view cardId intent) :
    ∃ lane ∈ view.lanes, lane.lane.key = intent.toLane ∧
      ∃ index, NamesPlace (lane.cards.filter (·.id ≠ cardId)) index intent.prevCardId
        intent.nextCardId := by
  cases h with
  | dropped hmade =>
    obtain ⟨lane, hlane, hkey, hplace⟩ := namesPlace_of_drop hmade
    exact ⟨lane, hlane, hkey, hplace⟩
  | chosen hlane hoffered => exact ⟨_, hlane, rfl, namesPlace_of_choice hoffered⟩

/-- The view after a move of a card it shows to a lane it shows. -/
theorem viewOrder_applyMoveToBoard {view : BoardResponse} {cardId : ℕ} {intent : MoveIntent}
    (hshown : cardId ∈ cardIds view) (hlane : ∃ lane ∈ view.lanes, lane.lane.key = intent.toLane) :
    ∃ movedCard : BoardCard, movedCard.id = cardId ∧
      viewOrder (applyMoveToBoard view cardId intent) = view.lanes.map fun snapshot =>
        (snapshot.lane, (cardsAfter snapshot movedCard cardId intent).map (·.id)) := by
  obtain ⟨home, hhome, hin⟩ := List.mem_flatMap.mp hshown
  obtain ⟨c, hc, hid⟩ := List.mem_map.mp hin
  obtain ⟨moving, hmoving⟩ := Option.isSome_iff_exists.mp (List.find?_isSome.mpr
    ⟨c, List.mem_flatMap.mpr ⟨home, hhome, hc⟩, by simpa using hid⟩ :
      ((view.lanes.flatMap (·.cards)).find? (·.id = cardId)).isSome)
  obtain ⟨target, htarget, hkey⟩ := hlane
  obtain ⟨targetLane, hfound⟩ := Option.isSome_iff_exists.mp
    (List.find?_isSome.mpr ⟨target, htarget, by simpa using hkey⟩ :
      (view.lanes.find? (·.lane.key = intent.toLane)).isSome)
  have hmovingId : moving.id = cardId := by simpa using List.find?_some hmoving
  rw [applyMoveToBoard, hmoving, hfound, viewOrder, List.map_map]
  exact ⟨movedTo moving targetLane.lane intent, hmovingId, rfl⟩

section views

variable {s : Store} {boardId : Uuid} {view : BoardResponse}

theorem ViewOf.lane_mem (h : ViewOf s boardId view) {snapshot : LaneSnapshot}
    (hs : snapshot ∈ view.lanes) :
    snapshot.lane ∈ s.lanes.rows ∧ snapshot.lane.boardId = boardId := by
  have hmem : snapshot.lane ∈ view.lanes.map (·.lane) := List.mem_map_of_mem hs
  rw [h.lanes] at hmem
  exact mem_boardLanes.mp hmem

/-- A view shows a lane once. -/
theorem ViewOf.snapshot_eq (h : ViewOf s boardId view) {a b : LaneSnapshot} (ha : a ∈ view.lanes)
    (hb : b ∈ view.lanes) (hid : a.lane.id = b.lane.id) : a = b := by
  have hnodup : (view.lanes.map (·.lane)).Nodup := by
    rw [h.lanes]
    exact (List.perm_insertionSort _ _).nodup_iff.mpr (s.lanes.nodup.filter _)
  exact List.inj_on_of_nodup_map hnodup ha hb
    (lane_eq_of_id (h.lane_mem ha).1 (h.lane_mem hb).1 hid)

/-- The rows a lane of a view shows. -/
theorem ViewOf.rows (h : ViewOf s boardId view) {snapshot : LaneSnapshot}
    (hs : snapshot ∈ view.lanes) :
    ∃ rows : List Card, rows.Sublist (CardRepository.laneRows s snapshot.lane.id) ∧
      snapshot.cards.map (·.id) = rows.map (·.id) ∧
      ∀ c ∈ s.cards.rows, c.laneId = snapshot.lane.id → (c.id ∈ cardIds view ↔ c ∈ rows) := by
  obtain ⟨rows, hsub, hids⟩ := List.sublist_map_iff.mp (h.cards snapshot hs)
  refine ⟨rows, hsub, hids, fun c hc hlane => ?_⟩
  constructor
  · intro hid
    obtain ⟨other, hother, hshown⟩ := List.mem_flatMap.mp hid
    obtain ⟨d, hd, hsame⟩ := List.mem_map.mp ((h.cards other hother).subset hshown)
    obtain ⟨hd, hdlane⟩ := mem_laneRows.mp hd
    obtain rfl := Table.eq_of_key hd hc hsame
    obtain rfl := h.snapshot_eq hother hs (hdlane.symm.trans hlane)
    rw [hids] at hshown
    obtain ⟨e, he, hsame⟩ := List.mem_map.mp hshown
    obtain rfl := Table.eq_of_key (mem_laneRows.mp (hsub.subset he)).1 hd hsame
    exact he
  · intro hrow
    refine List.mem_flatMap.mpr ⟨snapshot, hs, ?_⟩
    rw [hids]
    exact List.mem_map_of_mem hrow

end views

/-- The unfiltered board is a view. -/
theorem viewOf_snapshotOf (s : Store) (boardId : Uuid) :
    ViewOf s boardId (BoardQueryService.snapshotOf s boardId) where
  lanes := by
    rw [BoardQueryService.snapshotOf, List.map_map]
    exact List.map_id _
  cards := by
    intro snapshot hs
    obtain ⟨lane, -, rfl⟩ := List.mem_map.mp hs
    simp only [BoardQueryService.laneSnapshot, List.map_map]
    exact List.filter_sublist.map fun c : Card => c.id

section moves

variable {w w' : World Store Tick} {card r : Card} {toLane : Lane} {next : Option Card}

/-- A list of rows of the target lane, with the moved card at the place its next neighbor gives. -/
theorem placed_ascending (hplaced : PlacedBefore w.store card r toLane next) {rows : List Card}
    {index : ℕ} (hrows : ∀ c ∈ rows, c ∈ w.store.cards.rows ∧ c.laneId = toLane.id ∧ c.id ≠ card.id)
    (hsorted : rows.Pairwise fun a b => a.position < b.position)
    (hnext : rows[index]? = next) :
    (rows.take index ++ r :: rows.drop index).Pairwise fun a b => a.position < b.position := by
  have hsplit : (rows.take index ++ rows.drop index).Pairwise fun a b => a.position < b.position := by
    rwa [List.take_append_drop]
  obtain ⟨htake, hdrop, hacross⟩ := List.pairwise_append.mp hsplit
  have hbefore : ∀ a ∈ rows.take index, a.position < r.position := by
    intro a ha
    obtain ⟨hmem, hlane, hne⟩ := hrows a (List.mem_of_mem_take ha)
    apply hplaced.after a hmem hlane hne
    intro n hn
    rw [← hnext] at hn
    exact hacross a ha n (List.mem_of_getElem? (i := 0) (by simpa using hn))
  have hafter : ∀ b ∈ rows.drop index, r.position < b.position := by
    intro b hb
    cases hrest : rows.drop index with
    | nil =>
      rw [hrest] at hb
      cases hb
    | cons n rest =>
      have hn : n ∈ next := by
        have hhead : (rows.drop index)[0]? = some n := by rw [hrest]; rfl
        rw [← hnext]
        simpa using hhead
      rw [hrest] at hb hdrop
      rcases List.mem_cons.mp hb with rfl | hb
      · exact hplaced.before _ hn
      · exact Std.lt_trans (hplaced.before n hn) ((List.pairwise_cons.mp hdrop).1 b hb)
  refine List.pairwise_append.mpr ⟨htake, List.pairwise_cons.mpr ⟨hafter, hdrop⟩, ?_⟩
  intro a ha b hb
  rcases List.mem_cons.mp hb with rfl | hb
  · exact hbefore a ha
  · exact hacross a ha b hb

/-- A lane of the view after the move is the lane of the server after it, as far as it is shown. -/
theorem cardsAfter_order {boardId : Uuid} {view : BoardResponse} {intent : MoveIntent}
    {snapshot : LaneSnapshot} {movedCard : BoardCard} {index : ℕ}
    (hview : ViewOf w.store boardId view) (hplaced : PlacedBefore w.store card r toLane next)
    (hcards : ∀ c, c ∈ w'.store.cards.rows ↔ c = r ∨ c ∈ w.store.cards.rows ∧ c.id ≠ card.id)
    (hnext : Neighbor w.store card toLane intent.nextCardId next)
    (hshown : card.id ∈ cardIds view) (hs : snapshot ∈ view.lanes)
    (hmoved : movedCard.id = card.id)
    (htarget : snapshot.lane.key = intent.toLane ↔ toLane.id = snapshot.lane.id)
    (hplace : snapshot.lane.key = intent.toLane →
      NamesPlace (snapshot.cards.filter (·.id ≠ card.id)) index intent.prevCardId
        intent.nextCardId) :
    (cardsAfter snapshot movedCard card.id intent).map (·.id) =
      ((CardRepository.laneRows w'.store snapshot.lane.id).map (·.id)).filter
        (· ∈ cardIds view) := by
  obtain ⟨rows, hsub, hids, hrows⟩ := hview.rows hs
  set others := rows.filter (·.id ≠ card.id) with hothers
  have hsorted : others.Pairwise fun a b => a.position < b.position :=
    (laneRows_ascending.sublist hsub).filter _
  have hmem : ∀ c, c ∈ others ↔ c ∈ w.store.cards.rows ∧ c.laneId = snapshot.lane.id ∧
      c.id ≠ card.id ∧ c.id ∈ cardIds view := by
    intro c
    rw [hothers, List.mem_filter, decide_eq_true_eq]
    constructor
    · rintro ⟨hc, hne⟩
      obtain ⟨hstored, hlane⟩ := mem_laneRows.mp (hsub.subset hc)
      exact ⟨hstored, hlane, hne, (hrows c hstored hlane).mpr hc⟩
    · rintro ⟨hstored, hlane, hne, hc⟩
      exact ⟨(hrows c hstored hlane).mp hc, hne⟩
  have hothersIds : (snapshot.cards.filter (·.id ≠ card.id)).map (·.id) = others.map (·.id) := by
    have hfilter := congrArg (List.filter (· ≠ card.id)) hids
    simpa [List.filter_map, Function.comp_def, hothers] using hfilter
  suffices hafter : ∃ after : List Card, (after.Pairwise fun a b => a.position < b.position) ∧
      (∀ c, c ∈ after ↔ c ∈ w'.store.cards.rows ∧ c.laneId = snapshot.lane.id ∧
        decide (c.id ∈ cardIds view) = true) ∧
      (cardsAfter snapshot movedCard card.id intent).map (·.id) = after.map (·.id) by
    obtain ⟨after, hascending, hmembers, hsame⟩ := hafter
    rw [hsame, ← laneRows_filter_eq (p := fun c => decide (c.id ∈ cardIds view)) hascending hmembers,
      List.filter_map]
    rfl
  by_cases hkey : snapshot.lane.key = intent.toLane
  · have hlane := htarget.mp hkey
    have hnamed := hplace hkey
    have hatNext : others[index]? = next := by
      apply hnext.eq_of_id
      · rw [hnamed.next, idAt, ← List.getElem?_map, ← List.getElem?_map, hothersIds]
      · exact fun c hc => ((hmem c).mp (List.mem_of_getElem? hc)).1
    refine ⟨others.take index ++ r :: others.drop index, ?_, fun c => ?_, ?_⟩
    · apply placed_ascending hplaced ?_ hsorted hatNext
      intro c hc
      obtain ⟨hstored, hin, hne, -⟩ := (hmem c).mp hc
      exact ⟨hstored, hin.trans hlane.symm, hne⟩
    · have hsplit : c ∈ others.take index ++ r :: others.drop index ↔ c = r ∨ c ∈ others := by
        rw [List.mem_append, List.mem_cons, or_left_comm, ← List.mem_append, List.take_append_drop]
      rw [hsplit, hcards, hmem, decide_eq_true_eq]
      constructor
      · rintro (rfl | ⟨hstored, hin, hne, hc⟩)
        · exact ⟨.inl rfl, hplaced.laneId.trans hlane, hplaced.id ▸ hshown⟩
        · exact ⟨.inr ⟨hstored, hne⟩, hin, hc⟩
      · rintro ⟨rfl | ⟨hstored, hne⟩, hin, hc⟩
        · exact .inl rfl
        · exact .inr ⟨hstored, hin, hne, hc⟩
    · have hnodup : ((snapshot.cards.filter (·.id ≠ card.id)).map (·.id)).Nodup := by
        rw [hothersIds]
        refine List.pairwise_map.mpr (hsorted.imp_of_mem ?_)
        intro a b ha hb hlt hsame
        obtain rfl := Table.eq_of_key ((hmem a).mp ha).1 ((hmem b).mp hb).1 hsame
        exact Std.lt_irrefl hlt
      simp only [cardsAfter, if_pos hkey]
      rw [insertBetweenNeighbors_eq hnodup hnamed]
      simp only [List.map_append, List.map_cons, List.map_take, List.map_drop, hothersIds, hmoved,
        hplaced.id]
  · have hother : toLane.id ≠ snapshot.lane.id := fun h => hkey (htarget.mpr h)
    refine ⟨others, hsorted, fun c => ?_, ?_⟩
    · rw [hcards, hmem, decide_eq_true_eq]
      constructor
      · rintro ⟨hstored, hin, hne, hc⟩
        exact ⟨.inr ⟨hstored, hne⟩, hin, hc⟩
      · rintro ⟨rfl | ⟨hstored, hne⟩, hin, hc⟩
        · exact absurd (hplaced.laneId.symm.trans hin) hother
        · exact ⟨hstored, hin, hne, hc⟩
    · simp only [cardsAfter, if_neg hkey]
      exact hothersIds

theorem move_parse_eq {raw input : MoveCardInput} (h : raw.parse = .ok input) : input = raw := by
  unfold MoveCardInput.parse at h
  obtain ⟨_, -, h⟩ := ok_of_bind h
  obtain ⟨_, -, h⟩ := ok_of_bind h
  obtain ⟨_, -, h⟩ := ok_of_bind h
  obtain ⟨_, -, h⟩ := ok_of_bind h
  obtain ⟨_, -, h⟩ := ok_of_bind h
  exact (Except.ok.inj h).symm

/-- What the web client shows at once of a move that the server accepts is in the order the
server gives to the cards shown. -/
theorem optimistic_order [Platform] (hkeys : KeysBetween) (w w' : World Store Tick) (boardId : Uuid)
    (view : BoardResponse) (cardId version : ℕ) (intent : MoveIntent) (actor : Actor) (r : Card)
    (hview : ViewOf w.store boardId view) (hshown : cardId ∈ cardIds view)
    (hintent : IntendedOn view cardId intent)
    (haccepted : (CardService.move actor cardId (intent.ifMatch version)).perform w = (.ok r, w')) :
    viewOrder (applyMoveToBoard view cardId intent) =
      serverOrder w'.store boardId (cardIds view) := by
  obtain ⟨w₁, hdrew, hbody⟩ := perform_retry haccepted
  obtain ⟨input, hparse, hrest⟩ := runs_parse_iff.mp hbody
  rw [← hdrew.store] at hview
  obtain ⟨found, event, hchanged⟩ := runs_moveBody hparse hrest
  obtain ⟨card, fromLane, toLane, prev, next, hfound, hfrom, hto, -, hnext, -, hplaced⟩ :=
    runs_moveBody_place hkeys hrest
  obtain rfl := move_parse_eq hparse
  obtain rfl : card.id = cardId := Table.find?_key hfound
  have hr := hchanged.rewritten
  have hcard := Table.mem_of_find? hfound
  obtain rfl : found = card :=
    Table.eq_of_key (Table.mem_of_find? hr.found) hcard (hr.key.symm.trans hplaced.id)
  obtain ⟨hmem, hboardTo, hkeyTo⟩ := laneWithKey_mem hto
  obtain ⟨target, htarget, hkey, index, hplace⟩ := hintent.namesPlace
  obtain ⟨home, hhome, hin⟩ := List.mem_flatMap.mp hshown
  have hboard : found.boardId = boardId := by
    obtain ⟨c, hc, hsame⟩ := List.mem_map.mp ((hview.cards home hhome).subset hin)
    obtain ⟨hc, hlane⟩ := mem_laneRows.mp hc
    obtain rfl := Table.eq_of_key hc hcard hsame
    obtain ⟨hhomeMem, hhomeBoard⟩ := hview.lane_mem hhome
    rw [← hfrom.2.2, lane_eq_of_id hfrom.1 hhomeMem (hfrom.2.1.trans hlane), hhomeBoard]
  have hisTarget : ∀ snapshot ∈ view.lanes,
      (snapshot.lane.key = intent.toLane ↔ toLane.id = snapshot.lane.id) := by
    intro snapshot hs
    obtain ⟨hlaneMem, hlaneBoard⟩ := hview.lane_mem hs
    constructor
    · intro hsame
      rw [lane_eq_of_key hmem hlaneMem (hboardTo.trans (hboard.trans hlaneBoard.symm))
        (hkeyTo.trans hsame.symm)]
    · intro hid
      rw [← lane_eq_of_id hmem hlaneMem hid]
      exact hkeyTo
  obtain ⟨movedCard, hmovedId, horder⟩ := viewOrder_applyMoveToBoard hshown ⟨target, htarget, hkey⟩
  have hboardLanes : LaneRepository.boardLanes w'.store boardId = view.lanes.map (·.lane) := by
    rw [hview.lanes, LaneRepository.boardLanes, hr.lanes, LaneRepository.boardLanes]
  rw [horder, serverOrder, hboardLanes, List.map_map]
  refine List.map_congr_left fun snapshot hs => Prod.ext rfl ?_
  apply cardsAfter_order hview hplaced (fun _ => hr.mem_cards_iff) hnext hshown hs hmovedId
    (hisTarget snapshot hs)
  intro hsame
  obtain rfl : snapshot = target := hview.snapshot_eq hs htarget
    (((hisTarget snapshot hs).mp hsame).symm.trans ((hisTarget target htarget).mp hkey))
  exact hplace

end moves

theorem keysBetween_sample : @KeysBetween samplePlatform := by
  intro prev next key h
  change sampleKeyBetween prev next = .ok key at h
  unfold sampleKeyBetween at h
  split at h <;> cases h
  all_goals constructor
  all_goals rintro a ⟨⟩ <;> decide +kernel

/-- Two cards in the entry lane, the second one above the first. -/
def twoCards : World Store Tick :=
  @run samplePlatform (freshlySeeded sampleTicks)
    [.card (.create ⟨101, 102, .sqlite⟩ sampleActor { title := "Pump" } {}),
      .card (.create ⟨101, 102, .sqlite⟩ sampleActor { title := "Valve" } {})]

/-- The lower one, dropped on the upper edge of the other. -/
theorem optimistic_order_swap :
    viewOrder (applyMoveToBoard (BoardQueryService.snapshotOf twoCards.store 101) 1
        ⟨"intake", none, some 2, none, none⟩) =
      serverOrder ((@CardService.move samplePlatform sampleActor 1
        ⟨"intake", none, some 2, none, none, 1⟩).perform twoCards).2.store 101 [2, 1] := by
  obtain ⟨r, haccepted⟩ : ∃ r, ((@CardService.move samplePlatform sampleActor 1
      ((⟨"intake", none, some 2, none, none⟩ : MoveIntent).ifMatch 1)).perform twoCards).1 = .ok r :=
    exists_ok (by decide +kernel)
  have hids : cardIds (BoardQueryService.snapshotOf twoCards.store 101) = [2, 1] := by decide +kernel
  have hmade : moveIntentFromDrop (BoardQueryService.snapshotOf twoCards.store 101) 1
      ⟨"intake", some 2, some .top⟩ = some ⟨"intake", none, some 2, none, none⟩ := by decide +kernel
  have horder := @optimistic_order samplePlatform keysBetween_sample twoCards _ 101
    (BoardQueryService.snapshotOf twoCards.store 101) 1 1 ⟨"intake", none, some 2, none, none⟩
    sampleActor r (viewOf_snapshotOf _ _) (by rw [hids]; decide)
    (.dropped hmade)
    (Prod.ext haccepted rfl)
  rw [hids] at horder
  exact horder

end AiKanban.Invariants
