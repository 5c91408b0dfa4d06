import AiKanban.Effects.Steps

/-!
# Where a move puts its card

A card goes directly before its next neighbor among all the cards of the lane, hidden and
archived ones included, or to the end.
-/
namespace AiKanban.Effects

open Domain Db Relational Services Services.CardService Transactions

section lanes

variable {s : Store} {laneId : Uuid} {card : Card}

theorem mem_laneRows : card ∈ CardRepository.laneRows s laneId ↔
    card ∈ s.cards.rows ∧ card.laneId = laneId := by
  simp [CardRepository.laneRows]

/-- Two cards of a lane have different positions. -/
theorem card_eq_of_position {a b : Card} (ha : a ∈ s.cards.rows) (hb : b ∈ s.cards.rows)
    (hlane : a.laneId = b.laneId) (hposition : a.position = b.position) : a = b := by
  by_contra hne
  have hsymm : Std.Symm fun x y : Card => Row.clash x y = false :=
    ⟨fun x y h => (Row.clash_symm y x).trans h⟩
  have hclash := s.cards.distinct.forall ha hb hne
  simp [Row.clash, hlane, hposition] at hclash

theorem nodup_laneRows : (CardRepository.laneRows s laneId).Nodup :=
  (List.perm_insertionSort _ _).nodup_iff.mpr (s.cards.nodup.filter _)

theorem laneRows_ascending :
    (CardRepository.laneRows s laneId).Pairwise fun a b => a.position < b.position := by
  have hsorted := pairwise_ascendingBy (fun c : Card => c.position)
    (s.cards.rows.filter fun c => c.laneId == laneId)
  refine (hsorted.and nodup_laneRows).imp_of_mem ?_
  intro a b ha hb ⟨hle, hne⟩
  obtain ⟨ha, hlane⟩ := mem_laneRows.mp ha
  obtain ⟨hb, hlane'⟩ := mem_laneRows.mp hb
  refine Std.lt_of_le_of_ne hle fun hsame => hne ?_
  exact card_eq_of_position ha hb (hlane.trans hlane'.symm) hsame

/-- Cards that are the rows of a lane with some property, in position order, are that part of it. -/
theorem laneRows_filter_eq {cards : List Card} {p : Card → Bool}
    (hsorted : cards.Pairwise fun a b => a.position < b.position)
    (hcards : ∀ c, c ∈ cards ↔ c ∈ s.cards.rows ∧ c.laneId = laneId ∧ p c = true) :
    (CardRepository.laneRows s laneId).filter p = cards := by
  have hanti : Std.Antisymm fun a b : Card => a.position < b.position :=
    ⟨fun a b hab hba => absurd (Std.lt_trans hab hba) Std.lt_irrefl⟩
  have hirrefl : Std.Irrefl fun a b : Card => a.position < b.position :=
    ⟨fun a => Std.lt_irrefl⟩
  apply (laneRows_ascending.filter _).eq_of_mem_iff hsorted
  intro c
  rw [List.mem_filter, mem_laneRows, hcards, and_assoc]

end lanes

/-- The card of the lane that an intent names as a neighbor, when it names one. -/
structure Neighbor (s : Store) (card : Card) (toLane : Lane) (id : Option ℕ)
    (neighbor : Option Card) : Prop where
  named : neighbor.map (·.id) = id
  stored : ∀ c ∈ neighbor,
    c ∈ s.cards.rows ∧ c.id ≠ card.id ∧ c.laneId = toLane.id ∧ c.archivedAt = none

/-- The neighbor is the stored card with the id that is named. -/
theorem Neighbor.eq_of_id {s : Store} {card : Card} {toLane : Lane} {id : Option ℕ}
    {neighbor found : Option Card} (h : Neighbor s card toLane id neighbor)
    (hid : found.map (·.id) = id) (hstored : ∀ c ∈ found, c ∈ s.cards.rows) : found = neighbor := by
  have hsame := hid.trans h.named.symm
  cases found with
  | none => exact (Option.map_eq_none_iff.mp hsame.symm).symm
  | some c =>
    obtain ⟨n, hn, hkey⟩ := Option.map_eq_some_iff.mp hsame.symm
    rw [hn, Table.eq_of_key (hstored c rfl) (h.stored n hn).1 hkey.symm]

/-- An order key lies strictly between its bounds. -/
def KeysBetween [Platform] : Prop :=
  ∀ prev next key, Platform.generateKeyBetween prev next = .ok key →
    (∀ a ∈ prev, a < key) ∧ ∀ b ∈ next, key < b

/-- The row of the moved card is in the target lane, directly before the next neighbor. -/
structure PlacedBefore (s : Store) (card moved : Card) (toLane : Lane) (next : Option Card) :
    Prop where
  id : moved.id = card.id
  laneId : moved.laneId = toLane.id
  after : ∀ c ∈ s.cards.rows, c.laneId = toLane.id → c.id ≠ card.id →
    (∀ n ∈ next, c.position < n.position) → c.position < moved.position
  before : ∀ n ∈ next, moved.position < n.position

section specs

variable {w w' : World Store Tick} {card : Card}

theorem runs_readNeighbor {toLane : Lane} {id : Option ℕ} {neighbor : Option Card}
    (h : Runs (readNeighbor card toLane id) w neighbor w') :
    Neighbor w.store card toLane id neighbor := by
  cases id with
  | none =>
    obtain ⟨rfl, -⟩ := runs_pure_iff.mp h
    exact ⟨rfl, fun c hc => nomatch hc⟩
  | some id =>
    simp only [readNeighbor, CardRepository.findById, runs_bind_iff, runs_selectKey_iff,
      runs_require_iff, runs_ensure_iff, runs_pure_iff] at h
    obtain ⟨_, _, ⟨rfl, rfl⟩, c, _, ⟨hfound, rfl⟩, _, _, ⟨hguard, rfl⟩, rfl, rfl⟩ := h
    simp only [Bool.and_eq_true, bne_iff_ne, ne_eq, beq_iff_eq, Option.isNone_iff_eq_none] at hguard
    obtain ⟨⟨hne, hlane⟩, hactive⟩ := hguard
    refine ⟨congrArg some (Table.find?_key hfound), ?_⟩
    rintro _ ⟨⟩
    exact ⟨Table.mem_of_find? hfound, hne, hlane, hactive⟩

/-- A key after the last of some rows is after all of them. -/
theorem position_lt_of_getLast {rows : List Card} {key : String}
    (hsorted : rows.Pairwise fun a b => a.position < b.position)
    (hkey : ∀ a ∈ rows.getLast?.map (·.position), a < key) :
    ∀ c ∈ rows, c.position < key := by
  intro c hc
  rcases List.eq_nil_or_concat' rows with rfl | ⟨rows, last, rfl⟩
  · cases hc
  · have hlast : last.position < key := hkey _ (by simp)
    rcases List.mem_append.mp hc with hold | hnew
    · exact Std.lt_trans ((List.pairwise_append.mp hsorted).2.2 c hold last (by simp)) hlast
    · rwa [List.mem_singleton.mp hnew]

variable [Platform]

theorem runs_keyBetween {prev next : Option String} {key : String}
    (h : Runs (keyBetween prev next card) w key w') :
    Platform.generateKeyBetween prev next = .ok key := by
  unfold keyBetween at h
  cases hkey : Platform.generateKeyBetween prev next with
  | error message =>
    rw [hkey] at h
    cases h
  | ok found =>
    rw [hkey] at h
    rw [(runs_pure_iff.mp h).1]

/-- The key of a gap that the named neighbors bracket. -/
theorem runs_targetPosition (hkeys : KeysBetween) {toLane : Lane} {input : MoveCardInput}
    {position : String} (h : Runs (targetPosition card toLane input) w position w') :
    ∃ prev next, Neighbor w.store card toLane input.prevCardId prev ∧
      Neighbor w.store card toLane input.nextCardId next ∧
      (∀ p ∈ prev, ∀ n ∈ next, p.position < n.position) ∧
      (∀ c ∈ w.store.cards.rows, c.laneId = toLane.id → c.id ≠ card.id →
        (∀ n ∈ next, c.position < n.position) → c.position < position) ∧
      ∀ n ∈ next, position < n.position := by
  simp only [targetPosition, runs_bind_iff] at h
  obtain ⟨prev, _, hprev, next, _, hnext, bracket, _, hbracket, actual, _, hactual, hkey⟩ := h
  have hprevious := runs_readNeighbor hprev
  obtain rfl := hprev.of_readsOnly (readsOnly_readNeighbor _ _ _)
  have hnextCard := runs_readNeighbor hnext
  obtain rfl := hnext.of_readsOnly (readsOnly_readNeighbor _ _ _)
  obtain ⟨hbracketAfter, hbracketBefore⟩ := hkeys _ _ _ (runs_keyBetween hbracket)
  obtain rfl := hbracket.of_readsOnly (readsOnly_keyBetween _ _ _)
  obtain ⟨rfl, rfl⟩ := runs_read_iff.mp hactual
  obtain ⟨hafter, hbefore⟩ := hkeys _ _ _ (runs_keyBetween hkey)
  refine ⟨prev, next, hprevious, hnextCard, fun p hp n hn => ?_, ?_,
    fun n hn => hbefore _ (Option.mem_map_of_mem _ hn)⟩
  · have hlow : p.position < bracket := hbracketAfter _ (Option.mem_map_of_mem _ hp)
    exact Std.lt_trans hlow (hbracketBefore _ (Option.mem_map_of_mem _ hn))
  intro c hc hlane hne hlt
  refine position_lt_of_getLast (laneRows_ascending.filter _) hafter c ?_
  simp only [List.mem_filter, mem_laneRows, hc, hlane, true_and, Bool.and_eq_true, bne_iff_ne, ne_eq,
    hne, not_false_eq_true, Option.all_eq_true, decide_eq_true_eq]
  intro p hp
  obtain ⟨n, hn, rfl⟩ := Option.mem_map.mp hp
  exact hlt n hn

/-- The lane of an accepted move, and how its position was found. -/
theorem runs_moveBody_target {actor : Actor} {cardId : ℕ} {input : MoveCardInput} {r : Card}
    (h : Runs (moveBody actor cardId input) w r w') :
    ∃ card fromLane toLane, w.store.cards.find? cardId = some card ∧
      LaneOf w.store card fromLane ∧
      LaneRepository.laneWithKey w.store card.boardId input.toLane = some toLane ∧
      Runs (targetPosition card toLane input) w r.position w ∧ r.id = card.id ∧
      r.laneId = toLane.id := by
  simp only [moveBody, runs_bind_iff, runs_ensureNotArchived_iff, runs_laneByKey_iff,
    runs_decidePolicy_iff, runs_ensureVersion_iff, runs_clockNow_iff] at h
  obtain ⟨card, _, hcard, _, _, ⟨hactive, rfl⟩, fromLane, _, hfrom, toLane, _, ⟨hto, rfl⟩, policy,
    _, hpolicy, _, _, ⟨-, rfl⟩, _, _, hgate, _, _, ⟨hversion, rfl⟩, fields, _, hfields, position,
    w₀, hposition, _, _, ⟨rfl, rfl⟩, ⟨updated, body⟩, w₁, hmoved, hwrite⟩ := h
  obtain ⟨rfl, hfound⟩ := runs_accessibleCard hcard
  obtain ⟨rfl, hlaneOf⟩ := runs_laneOfCard hfrom
  obtain rfl := runs_activePolicy hpolicy
  obtain rfl := runs_ensureReopenAllowed hgate
  obtain rfl := hfields.of_readsOnly (readsOnly_waitingEntry _ _ _ _ _)
  obtain rfl := hposition.of_readsOnly (readsOnly_targetPosition _ _ _)
  obtain ⟨hdrew, hcases⟩ := runs_moved hmoved
  have hid : card.id = cardId := Table.find?_key hfound
  have hframe : updated.id = card.id ∧ updated.laneId = toLane.id ∧ updated.position = position := by
    rcases hcases with ⟨-, hresult⟩ | ⟨-, startedAt, exceeded, hresult⟩
    · cases hresult
      exact ⟨rfl, rfl, rfl⟩
    · obtain ⟨_, _, _, _, _, hcross⟩ := crossLane_frame card
        (placedCard card toLane position w₀.peek.now) fromLane toLane fields startedAt
      cases hresult
      rw [hcross]
      exact ⟨rfl, rfl, rfl⟩
  obtain ⟨hupdated, hlane, rfl⟩ := hframe
  obtain ⟨rfl, -⟩ := runs_writeWithEvent hwrite ((Drew.tick w₀).trans hdrew) (by rwa [hid]) hupdated
  exact ⟨card, fromLane, toLane, hfound, hlaneOf, hto, hposition, hupdated, hlane⟩

/-- Where an accepted move puts its card. -/
theorem runs_moveBody_place (hkeys : KeysBetween) {actor : Actor} {cardId : ℕ}
    {input : MoveCardInput} {r : Card} (h : Runs (moveBody actor cardId input) w r w') :
    ∃ card fromLane toLane prev next, w.store.cards.find? cardId = some card ∧
      LaneOf w.store card fromLane ∧
      LaneRepository.laneWithKey w.store card.boardId input.toLane = some toLane ∧
      Neighbor w.store card toLane input.prevCardId prev ∧
      Neighbor w.store card toLane input.nextCardId next ∧
      (∀ p ∈ prev, ∀ n ∈ next, p.position < n.position) ∧
      PlacedBefore w.store card r toLane next := by
  obtain ⟨card, fromLane, toLane, hfound, hfrom, hto, hposition, hid, hlane⟩ :=
    runs_moveBody_target h
  obtain ⟨prev, next, hprev, hnext, horder, hafter, hbefore⟩ := runs_targetPosition hkeys hposition
  exact ⟨card, fromLane, toLane, prev, next, hfound, hfrom, hto, hprev, hnext, horder, hid, hlane,
    hafter, hbefore⟩

end specs
end AiKanban.Effects
