import AiKanban.Invariants.CancelReopen
import AiKanban.Invariants.OptimisticOrder

/-!
# Undoing a move

The inverse that the web client keeps of a move is a move itself. It takes the card back to its
place and to its waiting fields; a resolution comes back only as `completed`.
-/
namespace AiKanban.Invariants

open Domain Db Relational Services Services.CardService Transactions Effects Web
open Application

/-- What holds of every row, however it came about: only cards in `done` are resolved, and a
flag comes with its reason, without white space around. -/
structure SettledRow (key : LaneKey) (card : Card) : Prop where
  resolved : key ≠ doneKey → card.resolution = none
  flagged : card.blocked = card.blockedReason.isSome
  trimmed : ∀ reason ∈ card.blockedReason, trim reason = reason

section settled

variable {key : LaneKey} {card card' : Card}

theorem SettledRow.congr (h : SettledRow key card)
    (hresolution : key ≠ doneKey → card'.resolution = card.resolution)
    (hblocked : card'.blocked = card.blocked)
    (hreason : card'.blockedReason = card.blockedReason) : SettledRow key card' where
  resolved := fun hkey => (hresolution hkey).trans (h.resolved hkey)
  flagged := by rw [hblocked, hreason]; exact h.flagged
  trimmed := by rw [hreason]; exact h.trimmed

theorem block_parse {raw input : BlockCardInput} (h : raw.parse = .ok input) :
    input.reason = trim raw.reason ∧ input.expectedVersion = raw.expectedVersion := by
  unfold BlockCardInput.parse at h
  obtain ⟨_, -, h⟩ := ok_of_bind h
  obtain ⟨_, -, h⟩ := ok_of_bind h
  obtain rfl := Except.ok.inj h
  exact ⟨rfl, rfl⟩

variable [Platform]

theorem lawful_settled : Lawful SettledRow (fun _ => True) (fun _ _ => True) where
  created := fun _ _ => ⟨fun _ => rfl, rfl, fun _ h => nomatch h⟩
  changed := by
    intro w s' op card next bodies lane _ _ _ hchange hlane hrule
    refine ⟨?_, fun _ _ _ _ => trivial⟩
    cases hchange with
    | edited => exact ⟨lane, hlane, hrule.congr (fun _ => rfl) rfl rfl⟩
    | reordered _ _ _ _ hof _ =>
      obtain rfl := LaneOf.unique hlane hof
      exact ⟨lane, ⟨hlane.1, rfl, hlane.2.2⟩, hrule.congr (fun _ => rfl) rfl rfl⟩
    | @moved _ _ _ _ _ fromLane toLane fields position updatedAt startedAt _ _ _ _ _ hof hto =>
      obtain rfl := LaneOf.unique hlane hof
      obtain ⟨hmem, hboard, -⟩ := laneWithKey_mem hto
      have hresolution := resolution_crossLane card (placedCard card toLane position updatedAt) lane
        toLane fields startedAt
      obtain ⟨_, _, _, _, _, hcross⟩ := crossLane_frame card
        (placedCard card toLane position updatedAt) lane toLane fields startedAt
      rw [hcross] at hresolution ⊢
      refine ⟨toLane, ⟨hmem, rfl, hboard⟩, ?_, hrule.flagged, hrule.trimmed⟩
      intro hkey
      rw [hresolution, if_neg hkey]
      split_ifs with hfrom
      · rfl
      · exact hrule.resolved hfrom
    | cancelled _ _ _ _ _ _ hto _ =>
      obtain ⟨hmem, hboard, hkey⟩ := laneWithKey_mem hto
      exact ⟨_, ⟨hmem, rfl, hboard⟩, fun hne => absurd hkey hne, hrule.flagged, hrule.trimmed⟩
    | reopened _ _ _ _ _ hto _ =>
      obtain ⟨hmem, hboard⟩ := reopenLane_mem hto
      exact ⟨_, ⟨hmem, rfl, hboard⟩, fun _ => rfl, hrule.flagged, hrule.trimmed⟩
    | archived | expired => exact ⟨lane, hlane, hrule.congr (fun _ => rfl) rfl rfl⟩
    | blocked hparse =>
      refine ⟨lane, hlane, hrule.resolved, rfl, ?_⟩
      rintro _ ⟨⟩
      rw [(block_parse hparse).1, trim_trim]
    | unblocked => exact ⟨lane, hlane, hrule.resolved, rfl, fun _ h => nomatch h⟩
  alerted := fun hrule => ⟨hrule.resolved, hrule.flagged, hrule.trimmed⟩
  unlocated := fun hrule => ⟨hrule.resolved, hrule.flagged, hrule.trimmed⟩

theorem placed_settled (inputs : ℕ → Tick) (ops : List Operation) :
    Placed SettledRow (fun _ => True) (run (freshlySeeded inputs) ops).store := by
  refine run_invariant (I := fun w => Placed SettledRow (fun _ => True) w.store)
    (P := fun _ _ => True) (fun _ _ _ _ _ => trivial) (fun _ _ _ _ => trivial)
    (fun _ _ _ hw hop heffect => placed_effect lawful_settled hw hop heffect) ops ?_
    (runsUnder_true ops)
  exact ⟨by simp, fun _ _ _ _ => trivial⟩

end settled

section moves

variable {s s' : Store} {card next r : Card} {fromLane toLane : Lane}

/-- A row within its lane keeps how the card ended and what it waits for. -/
structure Carried (card next : Card) : Prop where
  resolution : next.resolution = card.resolution
  waitingReason : next.waitingReason = card.waitingReason
  expectedResumeAt : next.expectedResumeAt = card.expectedResumeAt

theorem Carried.trans (h : Carried card next) (h' : Carried next r) : Carried card r :=
  ⟨h'.resolution.trans h.resolution, h'.waitingReason.trans h.waitingReason,
    h'.expectedResumeAt.trans h.expectedResumeAt⟩

/-- What another lane makes of these fields. -/
structure Crossed (input : MoveCardInput) (fromLane toLane : Lane) (card next : Card) : Prop where
  resolution : next.resolution = if fromLane.key = doneKey then none
    else if toLane.key = doneKey then some .completed else card.resolution
  waiting : ∃ fields, EntryFields input toLane fields ∧
    next.waitingReason = (if fromLane.key = waitingKey then none
      else (fields.map (·.waitingReason)).or card.waitingReason) ∧
    next.expectedResumeAt = (if fromLane.key = waitingKey then none
      else (fields.map (·.expectedResumeAt)).or card.expectedResumeAt)

/-- The row of an accepted move. -/
structure MovedRow (input : MoveCardInput) (fromLane toLane : Lane) (card next : Card) : Prop where
  id : next.id = card.id
  boardId : next.boardId = card.boardId
  laneId : next.laneId = toLane.id
  active : card.archivedAt = none
  stays : next.archivedAt = none
  fields : toLane.id = fromLane.id ∧ Carried card next ∨
    toLane.id ≠ fromLane.id ∧ Crossed input fromLane toLane card next

theorem movedRow_of_change [Platform] {actor : Actor} {cardId : ℕ} {input : MoveCardInput}
    {bodies : List CardEventBody} (h : Change s s' (.move actor cardId input) card next bodies)
    (hfrom : LaneOf s card fromLane)
    (hto : LaneRepository.laneWithKey s card.boardId input.toLane = some toLane)
    (hlane : next.laneId = toLane.id) : MovedRow input fromLane toLane card next := by
  cases h with
  | reordered _ _ hactive _ hof _ =>
    obtain rfl := LaneOf.unique hfrom hof
    exact ⟨rfl, rfl, hlane, hactive, hactive, .inl ⟨hlane.symm, rfl, rfl, rfl⟩⟩
  | @moved _ _ _ _ _ home target fields position updatedAt startedAt _ hparse _ hactive _ hof hto'
      hother hentry _ =>
    obtain rfl := LaneOf.unique hfrom hof
    obtain rfl := move_parse_eq hparse
    obtain rfl := Option.some.inj (hto.symm.trans hto')
    have hresolution := resolution_crossLane card (placedCard card toLane position updatedAt) fromLane
      toLane fields startedAt
    have hwaiting := waiting_crossLane card (placedCard card toLane position updatedAt) fromLane
      toLane fields startedAt
    obtain ⟨_, _, _, _, _, hcross⟩ := crossLane_frame card
      (placedCard card toLane position updatedAt) fromLane toLane fields startedAt
    rw [hcross] at hlane hresolution hwaiting ⊢
    exact ⟨rfl, rfl, hlane, hactive, hactive,
      .inr ⟨hother, hresolution, fields, hentry, hwaiting.1, hwaiting.2⟩⟩

/-- The intent leads back to the place of the card in its lane, with its waiting fields. -/
structure Restores (s : Store) (card : Card) (lane : Lane) (restore : MoveIntent) : Prop where
  toLane : restore.toLane = lane.key
  place : ∃ above below, BoardQueryService.activeRows s lane.id = above ++ card :: below ∧
    restore.nextCardId = below.head?.map (·.id)
  reason : lane.key = waitingKey → restore.waitingReason = card.waitingReason
  day : lane.key = waitingKey → card.waitingReason.isSome →
    restore.expectedResumeAt = card.expectedResumeAt

theorem id_of_findIdx? {cards : List BoardCard} {id index : ℕ} {shown : BoardCard}
    (hindex : cards.findIdx? (·.id = id) = some index) (hshown : cards[index]? = some shown) :
    shown.id = id := by
  obtain ⟨hlt, hid, -⟩ := List.findIdx?_eq_some_iff_getElem.mp hindex
  rw [List.getElem?_eq_getElem hlt] at hshown
  obtain rfl := Option.some.inj hshown
  simpa using hid

theorem restores_of_snapshot {lane : Lane} {restore : MoveIntent} (hcard : card ∈ s.cards.rows)
    (hlane : LaneOf s card lane)
    (h : restoreIntentForCard (BoardQueryService.snapshotOf s card.boardId) card.id = some restore) :
    Restores s card lane restore := by
  simp only [restoreIntentForCard, Option.bind_eq_bind, Option.bind_eq_some_iff, Option.pure_def,
    Option.some.injEq] at h
  obtain ⟨snapshot, hsnapshot, index, hindex, shown, hshown, rfl⟩ := h
  obtain ⟨home, -, rfl⟩ := List.mem_map.mp (List.mem_of_find?_eq_some hsnapshot)
  have hhome := (viewOf_snapshotOf s card.boardId).lane_mem (List.mem_of_find?_eq_some hsnapshot)
  have hid := id_of_findIdx? hindex hshown
  simp only [BoardQueryService.laneSnapshot, List.getElem?_map, Option.map_eq_some_iff] at hshown hhome
  obtain ⟨row, hrow, rfl⟩ := hshown
  have hmem := mem_laneRows.mp (List.mem_of_mem_filter (List.mem_of_getElem? hrow))
  obtain rfl : row = card := Table.eq_of_key hmem.1 hcard hid
  obtain rfl : home = lane := lane_eq_of_id hhome.1 hlane.1 (hmem.2.symm.trans hlane.2.1.symm)
  obtain ⟨hlen, hget⟩ := List.getElem?_eq_some_iff.mp hrow
  have hsplit : BoardQueryService.activeRows s home.id =
      (BoardQueryService.activeRows s home.id).take index ++
        row :: (BoardQueryService.activeRows s home.id).drop (index + 1) := by
    rw [← hget, List.getElem_cons_drop, List.take_append_drop]
  refine ⟨rfl, ⟨_, _, hsplit, ?_⟩, ?_, ?_⟩
  · simp only [BoardQueryService.laneSnapshot, idAt, List.head?_drop, List.getElem?_map,
      Option.map_map]
    rfl
  · intro hkey
    cases hreason : row.waitingReason <;>
      simp [BoardQueryService.laneSnapshot, boardCardOf, isWaitingLane, hkey, waitingKey, hreason]
  · intro hkey hreason
    simp [BoardQueryService.laneSnapshot, boardCardOf, isWaitingLane, hkey, waitingKey, hreason]

/-- Every active card has an intent that leads back. -/
theorem restoreIntentForCard_isSome {lane : Lane} (hcard : card ∈ s.cards.rows)
    (hactive : card.archivedAt = none) (hlane : LaneOf s card lane) :
    ∃ restore, restoreIntentForCard (BoardQueryService.snapshotOf s card.boardId) card.id =
      some restore := by
  obtain ⟨snapshot, hsnapshot⟩ := Option.isSome_iff_exists.mp (List.find?_isSome.mpr (by
    refine ⟨BoardQueryService.laneSnapshot s lane,
      List.mem_map_of_mem (mem_boardLanes.mpr ⟨hlane.1, hlane.2.2⟩), List.any_eq_true.mpr ?_⟩
    refine ⟨_, List.mem_map_of_mem (List.mem_filter.mpr ⟨mem_laneRows.mpr ⟨hcard, ?_⟩, ?_⟩), ?_⟩
    · exact hlane.2.1.symm
    · simp [hactive]
    · simp [boardCardOf]) :
    ((BoardQueryService.snapshotOf s card.boardId).lanes.find? fun snapshot =>
      snapshot.cards.any (·.id = card.id)).isSome)
  have hshows : (snapshot.cards.any fun c => decide (c.id = card.id)) = true := by
    have hfound := List.find?_some hsnapshot
    exact hfound
  obtain ⟨index, hindex⟩ := Option.isSome_iff_exists.mp (List.findIdx?_isSome.trans hshows)
  obtain ⟨hlt, -⟩ := List.findIdx?_eq_some_iff_getElem.mp hindex
  simp [restoreIntentForCard, hsnapshot, hindex, hlt]

/-- After a move away and back the card is where it was among the active cards of its lane. -/
theorem activeRows_restored {w w₁ w₂ : World Store Tick} {moved : Card} {lane : Lane}
    {events events' : List CardEvent} {restore : MoveIntent} {neighbor : Option Card}
    (haway : Rewritten w w₁ card moved events) (hback : Rewritten w₁ w₂ moved r events')
    (hrestore : Restores w.store card lane restore)
    (hnext : Neighbor w₁.store moved lane restore.nextCardId neighbor)
    (hplaced : PlacedBefore w₁.store moved r lane neighbor) (hstays : r.archivedAt = none) :
    (BoardQueryService.activeRows w₂.store lane.id).map (·.id) =
      (BoardQueryService.activeRows w.store lane.id).map (·.id) := by
  obtain ⟨above, below, hrows, hnamed⟩ := hrestore.place
  have hid : moved.id = card.id := haway.key
  have hstored : ∀ c, c ∈ w₂.store.cards.rows ↔ c = r ∨ c ∈ w.store.cards.rows ∧ c.id ≠ card.id := by
    intro c
    rw [hback.mem_cards_iff, haway.mem_cards_iff, hid]
    constructor
    · rintro (h | ⟨rfl | h, hne⟩)
      · exact .inl h
      · exact absurd hid hne
      · exact .inr h
    · rintro (h | h)
      · exact .inl h
      · exact .inr ⟨.inr h, h.2⟩
  have hascending : (above ++ card :: below).Pairwise fun a b => a.position < b.position := by
    rw [← hrows]
    exact laneRows_ascending.filter _
  have hmem : ∀ c, c ∈ above ++ below ↔ c ∈ w.store.cards.rows ∧ c.laneId = lane.id ∧
      c.archivedAt = none ∧ c.id ≠ card.id := by
    intro c
    have hall : c ∈ above ++ card :: below ↔ (c ∈ w.store.cards.rows ∧ c.laneId = lane.id) ∧
        c.archivedAt = none := by
      rw [← hrows, BoardQueryService.activeRows, List.mem_filter, mem_laneRows,
        Option.isNone_iff_eq_none]
    have hne : c ∈ above ++ below → c.id ≠ card.id := by
      intro hc hsame
      have hin : c ∈ above ++ card :: below := by
        rcases List.mem_append.mp hc with h | h <;> simp [h]
      obtain rfl := Table.eq_of_key ((hall.mp hin).1).1 (Table.mem_of_find? haway.found) hsame
      obtain ⟨-, hbelow, hacross⟩ := List.pairwise_append.mp hascending
      rcases List.mem_append.mp hc with h | h
      · exact Std.lt_irrefl (hacross c h c (List.mem_cons_self ..))
      · exact Std.lt_irrefl ((List.pairwise_cons.mp hbelow).1 c h)
    constructor
    · intro hc
      have hin : c ∈ above ++ card :: below := by
        rcases List.mem_append.mp hc with h | h <;> simp [h]
      obtain ⟨⟨hrow, hlane⟩, hopen⟩ := hall.mp hin
      exact ⟨hrow, hlane, hopen, hne hc⟩
    · rintro ⟨hrow, hlane, hopen, hother⟩
      have hin := hall.mpr ⟨⟨hrow, hlane⟩, hopen⟩
      rw [List.mem_append, List.mem_cons] at hin
      rw [List.mem_append]
      rcases hin with h | rfl | h
      · exact .inl h
      · exact absurd rfl hother
      · exact .inr h
  have hhead : (above ++ below)[above.length]? = neighbor := by
    rw [List.getElem?_append_right le_rfl, Nat.sub_self, ← List.head?_eq_getElem?]
    apply hnext.eq_of_id hnamed.symm
    intro c hc
    obtain ⟨hrow, -, -, hne⟩ := (hmem c).mp (List.mem_append_right _ (List.mem_of_head? hc))
    exact haway.mem_cards_iff.mpr (.inr ⟨hrow, hne⟩)
  have hothers : ∀ c ∈ above ++ below,
      c ∈ w₁.store.cards.rows ∧ c.laneId = lane.id ∧ c.id ≠ moved.id := by
    intro c hc
    obtain ⟨hrow, hlane, -, hne⟩ := (hmem c).mp hc
    exact ⟨haway.mem_cards_iff.mpr (.inr ⟨hrow, hne⟩), hlane, by rwa [hid]⟩
  have hrest : (above ++ below).Pairwise fun a b => a.position < b.position := by
    obtain ⟨habove, hbelow, hacross⟩ := List.pairwise_append.mp hascending
    refine List.pairwise_append.mpr ⟨habove, (List.pairwise_cons.mp hbelow).2, ?_⟩
    exact fun a ha b hb => hacross a ha b (List.mem_cons_of_mem _ hb)
  have hsorted := placed_ascending hplaced hothers hrest hhead
  rw [List.take_left, List.drop_left] at hsorted
  have hnow : BoardQueryService.activeRows w₂.store lane.id = above ++ r :: below := by
    apply laneRows_filter_eq hsorted
    intro c
    have hsplit : c ∈ above ++ r :: below ↔ c = r ∨ c ∈ above ++ below := by
      rw [List.mem_append, List.mem_cons, or_left_comm, ← List.mem_append]
    rw [hsplit, hmem, hstored, Option.isNone_iff_eq_none]
    constructor
    · rintro (rfl | ⟨hrow, hlane, hopen, hne⟩)
      · exact ⟨.inl rfl, hplaced.laneId, hstays⟩
      · exact ⟨.inr ⟨hrow, hne⟩, hlane, hopen⟩
    · rintro ⟨rfl | ⟨hrow, hne⟩, hlane, hopen⟩
      · exact .inl rfl
      · exact .inr ⟨hrow, hlane, hopen, hne⟩
  rw [hnow, hrows]
  simp only [List.map_append, List.map_cons, hplaced.id, hid]

/-- The card is back in its lane and its place there, and its row says what it said. -/
structure MoveUndone (s s' : Store) (card : Card) : Prop where
  row : ∃ r ∈ s'.cards.find? card.id, r.laneId = card.laneId ∧ r.resolution = card.resolution ∧
    r.waitingReason = card.waitingReason ∧ r.expectedResumeAt = card.expectedResumeAt
  order : (BoardQueryService.activeRows s' card.laneId).map (·.id) =
    (BoardQueryService.activeRows s card.laneId).map (·.id)

/-- The waiting fields come back with a move away and back. -/
theorem waiting_restored {input : MoveCardInput} {restore : MoveIntent} {version : ℕ} {moved : Card}
    (hother : toLane.key ≠ fromLane.key) (hidle : idleRule fromLane.key card)
    (haway : Crossed input fromLane toLane card moved)
    (hback : Crossed (restore.ifMatch version) toLane fromLane moved r)
    (hrestore : Restores s card fromLane restore) :
    r.waitingReason = card.waitingReason ∧ r.expectedResumeAt = card.expectedResumeAt := by
  obtain ⟨fields, hentry, hreason, hday⟩ := haway.waiting
  obtain ⟨fields', hentry', hreason', hday'⟩ := hback.waiting
  rcases hentry' with ⟨hwaiting, entry, rfl, hparse⟩ | ⟨hnot, rfl⟩
  · have hleft : toLane.key ≠ waitingKey := fun h => hother (h.trans hwaiting.symm)
    rw [hreason', hday', if_neg hleft, if_neg hleft]
    change WaitingLaneEntry.parse restore.waitingReason restore.expectedResumeAt = .ok entry at hparse
    have hsame := hrestore.reason hwaiting
    cases hgiven : restore.waitingReason with
    | none =>
      rw [hgiven] at hparse
      cases hparse
    | some reason =>
      rw [hgiven] at hsame hparse
      have hsome := hrestore.day hwaiting (by rw [← hsame]; rfl)
      cases hresume : restore.expectedResumeAt with
      | none =>
        rw [hresume] at hparse
        cases hparse
      | some day =>
        rw [hresume] at hparse hsome
        cases hparse
        exact ⟨hsame, hsome⟩
  · obtain ⟨hnone, hnone'⟩ := hidle hnot
    rw [hreason', hday']
    by_cases hleft : toLane.key = waitingKey
    · rw [if_pos hleft, if_pos hleft, hnone, hnone']
      exact ⟨rfl, rfl⟩
    · rcases hentry with ⟨hin, -⟩ | ⟨-, rfl⟩
      · exact absurd hin hleft
      · rw [if_neg hleft, if_neg hleft, hreason, hday, if_neg hnot, if_neg hnot]
        exact ⟨rfl, rfl⟩

/-- The resolution comes back unless the card left `done` with another one than `completed`. -/
theorem resolution_restored_iff {input input' : MoveCardInput} {moved : Card}
    (hother : toLane.key ≠ fromLane.key) (hsettled : SettledRow fromLane.key card)
    (haway : Crossed input fromLane toLane card moved)
    (hback : Crossed input' toLane fromLane moved r) :
    r.resolution = card.resolution ↔
      fromLane.key ≠ doneKey ∨ card.resolution = some .completed := by
  rw [hback.resolution, haway.resolution]
  by_cases hfrom : fromLane.key = doneKey
  · have hto : toLane.key ≠ doneKey := fun h => hother (h.trans hfrom.symm)
    rw [if_neg hto, if_pos hfrom]
    simp [hfrom, eq_comm]
  · rw [if_neg hfrom, if_neg hfrom, hsettled.resolved hfrom]
    simp [hfrom]

variable [Platform]

/-- An accepted move, as a step of the system. -/
theorem moved_of_ok (hkeys : KeysBetween) {w : World Store Tick} {actor : Actor} {card : Card}
    {input : MoveCardInput} {result : Result} (hfound : w.store.cards.find? card.id = some card)
    (hok : ((Operation.card (.move actor card.id input)).perform w).1 = .ok result) :
    ∃ moved fromLane toLane neighbor event,
      Rewritten w (step w (.card (.move actor card.id input))) card moved [event] ∧
      LaneOf w.store card fromLane ∧
      LaneRepository.laneWithKey w.store card.boardId input.toLane = some toLane ∧
      Neighbor w.store card toLane input.nextCardId neighbor ∧
      PlacedBefore w.store card moved toLane neighbor ∧
      MovedRow input fromLane toLane card moved := by
  obtain ⟨a, houtcome⟩ := perform_of_ok hok
  change _ = (Except.ok a, step w (.card (.move actor card.id input))) at houtcome
  generalize step w (.card (.move actor card.id input)) = w' at houtcome ⊢
  obtain ⟨w₁, hdrew, hbody⟩ := perform_retry houtcome
  obtain ⟨parsed, hparse, hrest⟩ := runs_parse_iff.mp hbody
  obtain ⟨found, event, hchanged⟩ := runs_moveBody hparse hrest
  obtain ⟨c, fromLane, toLane, prev, next, hcard, hfrom, hto, -, hnext, -, hplaced⟩ :=
    runs_moveBody_place hkeys hrest
  obtain rfl := move_parse_eq hparse
  have hr := hchanged.rewritten.of_drew hdrew
  rw [hdrew.store] at hcard hfrom hto hnext hplaced
  obtain rfl : c = card := Option.some.inj (hcard.symm.trans hfound)
  obtain rfl : found = c :=
    Table.eq_of_key (Table.mem_of_find? hr.found) (Table.mem_of_find? hfound)
      (hr.key.symm.trans hplaced.id)
  have hchange := hchanged.change
  rw [hdrew.store] at hchange
  exact ⟨a, fromLane, toLane, next, event, hr, hfrom, hto, hnext, hplaced,
    movedRow_of_change hchange hfrom hto hplaced.laneId⟩

theorem move_undone_of_restore (hkeys : KeysBetween) (inputs : ℕ → Tick) (ops : List Operation)
    (w w₁ : World Store Tick) (card : Card) (lane : Lane) (actor actor' : Actor)
    (input : MoveCardInput) (restore : MoveIntent) (version : ℕ) (result result' : Result)
    (hw : w = run (freshlySeeded inputs) ops) (hfound : w.store.cards.find? card.id = some card)
    (hlane : LaneOf w.store card lane)
    (hmove : ((Operation.card (.move actor card.id input)).perform w).1 = .ok result)
    (hw₁ : w₁ = step w (.card (.move actor card.id input)))
    (hrestore : restoreIntentForCard (BoardQueryService.snapshotOf w.store card.boardId) card.id =
      some restore)
    (hundo : ((Operation.card (.move actor' card.id (restore.ifMatch version))).perform w₁).1 =
      .ok result') :
    MoveUndone w.store (step w₁ (.card (.move actor' card.id (restore.ifMatch version)))).store card ↔
      input.toLane = lane.key ∨ lane.key ≠ doneKey ∨ card.resolution = some .completed := by
  have hcard := Table.mem_of_find? hfound
  have hidle : idleRule lane.key card := by
    subst hw
    exact (placed_idle inputs ops).rule_of hcard hlane
  have hsettled : SettledRow lane.key card := by
    subst hw
    exact (placed_settled inputs ops).rule_of hcard hlane
  have hrestores := restores_of_snapshot hcard hlane hrestore
  obtain ⟨moved, fromLane, toLane, _, event, haway, hfrom, hto, -, -, hawayRow⟩ :=
    moved_of_ok hkeys hfound hmove
  obtain rfl := LaneOf.unique hlane hfrom
  rw [← hw₁] at haway
  have hid : moved.id = card.id := haway.key
  have hfound₁ : w₁.store.cards.find? moved.id = some moved := by rw [hid]; exact haway.find?_self
  rw [← hid] at hundo ⊢
  obtain ⟨r, away, home, neighbor, event', hback, haway₁, hhome, hneighbor, hplaced, hbackRow⟩ :=
    moved_of_ok hkeys hfound₁ hundo
  generalize step w₁ (.card (.move actor' moved.id (restore.ifMatch version))) = w₂ at hback
  have hlanes : w₁.store.lanes = w.store.lanes := haway.lanes
  obtain ⟨hhomeMem, hhomeBoard, hhomeKey⟩ := laneWithKey_mem hhome
  obtain ⟨htoMem, -, htoKey⟩ := laneWithKey_mem hto
  obtain rfl : home = lane := by
    rw [hlanes] at hhomeMem
    refine lane_eq_of_key hhomeMem hlane.1 ?_ (hhomeKey.trans hrestores.toLane)
    rw [hhomeBoard, hawayRow.boardId, hlane.2.2]
  obtain rfl : away = toLane := by
    refine lane_eq_of_id (hlanes ▸ haway₁.1) htoMem ?_
    rw [haway₁.2.1, hawayRow.laneId]
  have horder := activeRows_restored haway hback hrestores hneighbor hplaced hbackRow.stays
  have hlaneId : r.laneId = card.laneId := hbackRow.laneId.trans hlane.2.1
  have hat : w₂.store.cards.find? card.id = some r := by
    rw [← hid]
    exact hback.find?_self
  have hrow : MoveUndone w.store w₂.store card ↔ r.resolution = card.resolution ∧
      r.waitingReason = card.waitingReason ∧ r.expectedResumeAt = card.expectedResumeAt := by
    rw [hlane.2.1] at horder
    constructor
    · rintro ⟨⟨r', hr', -, hfields⟩, -⟩
      rw [hat] at hr'
      rwa [Option.some.inj hr']
    · exact fun hfields => ⟨⟨r, hat, hlaneId, hfields⟩, horder⟩
  rw [hrow]
  rcases hawayRow.fields with ⟨hsame, hcarried⟩ | ⟨hother, hcrossed⟩
  · obtain rfl : away = home := lane_eq_of_id htoMem hlane.1 hsame
    rcases hbackRow.fields with ⟨-, hcarried'⟩ | ⟨hother, -⟩
    · have hboth := hcarried.trans hcarried'
      exact iff_of_true ⟨hboth.resolution, hboth.waitingReason, hboth.expectedResumeAt⟩
        (.inl htoKey.symm)
    · exact absurd rfl hother
  · have hkeys' : away.key ≠ home.key := by
      intro hkey
      refine hother (congrArg Lane.id (lane_eq_of_key htoMem hlane.1 ?_ hkey))
      rw [(laneWithKey_mem hto).2.1, hlane.2.2]
    rcases hbackRow.fields with ⟨hsame, -⟩ | ⟨-, hcrossed'⟩
    · exact absurd hsame.symm hother
    · have hwaiting := waiting_restored hkeys' hidle hcrossed hcrossed' hrestores
      have hresolution := resolution_restored_iff hkeys' hsettled hcrossed hcrossed'
      have hleft : input.toLane ≠ home.key := fun h => hkeys' (htoKey.trans h)
      rw [hresolution]
      constructor
      · rintro ⟨hcond, -⟩
        exact .inr hcond
      · rintro (h | hcond)
        · exact absurd h hleft
        · exact ⟨hcond, hwaiting⟩

end moves

instance (s s' : Store) (card : Card) : Decidable (MoveUndone s s' card) :=
  decidable_of_iff ((∃ r ∈ s'.cards.find? card.id, r.laneId = card.laneId ∧
      r.resolution = card.resolution ∧ r.waitingReason = card.waitingReason ∧
      r.expectedResumeAt = card.expectedResumeAt) ∧
    (BoardQueryService.activeRows s' card.laneId).map (·.id) =
      (BoardQueryService.activeRows s card.laneId).map (·.id))
    ⟨fun h => ⟨h.1, h.2⟩, fun h => ⟨h.row, h.order⟩⟩

/-- A waiting card, taken to work. -/
def resumed : Operation :=
  .card (.move sampleActor 1 ⟨"in_progress", none, none, none, none, 2⟩)

/-- A declined card, dragged out of `done`. -/
def declinedWorld : World Store Tick :=
  @run samplePlatform (freshlySeeded sampleTicks)
    [.card (.create ⟨101, 102, .sqlite⟩ sampleActor { title := "Pump" } {}),
      .card (.cancel sampleActor 1 ⟨.declined, 1⟩)]

end AiKanban.Invariants
