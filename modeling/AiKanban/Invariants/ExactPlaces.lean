import AiKanban.Invariants.UndoneMoves

/-!
# The exact place of a moved card

A move puts its card between the neighbors that the intent names, whatever else the lane holds,
or leaves the store alone.
-/
namespace AiKanban.Invariants

open Domain Db Relational Services Transactions Effects

/-- No active card of the lane, other than the moved one, has the id that is named. -/
def StaleNeighbor (s : Store) (card : Card) (toLane : Lane) (id : Option ℕ) : Prop :=
  ∃ named ∈ id, ∀ c ∈ s.cards.find? named,
    c.id = card.id ∨ c.archivedAt ≠ none ∨ c.laneId ≠ toLane.id

/-- The two cards that are named are not in the order in which they are named. -/
def Misordered (s : Store) (input : MoveCardInput) : Prop :=
  ∃ prevId ∈ input.prevCardId, ∃ nextId ∈ input.nextCardId,
    ∃ prev ∈ s.cards.find? prevId, ∃ next ∈ s.cards.find? nextId, ¬ prev.position < next.position

/-- The moved card is in its lane where the intent says, and no other card has changed. -/
structure PlacedExactly (s s' : Store) (cardId : ℕ) (input : MoveCardInput) (r : Card) : Prop where
  id : r.id = cardId
  stored : s'.cards.find? cardId = some r
  lane : ∃ lane ∈ s'.lanes.rows,
    lane.id = r.laneId ∧ lane.boardId = r.boardId ∧ lane.key = input.toLane
  distinct : ((CardRepository.laneRows s' r.laneId).map (·.position)).Nodup
  order : ∃ above below, CardRepository.laneRows s' r.laneId = above ++ r :: below ∧
    below.head?.map (·.id) = input.nextCardId ∧ ∀ prev ∈ input.prevCardId, prev ∈ above.map (·.id)
  others : ∀ c, c.id ≠ cardId → (c ∈ s'.cards.rows ↔ c ∈ s.cards.rows)

theorem not_staleNeighbor {s : Store} {card : Card} {toLane : Lane} {id : Option ℕ}
    {neighbor : Option Card} (h : Neighbor s card toLane id neighbor) :
    ¬ StaleNeighbor s card toLane id := by
  rintro ⟨named, hnamed, hstale⟩
  rw [← h.named] at hnamed
  obtain ⟨c, hc, rfl⟩ := Option.mem_map.mp hnamed
  obtain ⟨hmem, hne, hlane, hactive⟩ := h.stored c hc
  rcases hstale c (Table.find?_of_mem hmem) with hsame | harchived | haway
  · exact hne hsame
  · exact harchived hactive
  · exact haway hlane

section order

variable {w w' : World Store Tick} {card r : Card} {toLane : Lane} {prev next : Option Card}
  {input : MoveCardInput}

/-- The positions of a lane are distinct. -/
theorem nodup_positions {s : Store} {laneId : Uuid} :
    ((CardRepository.laneRows s laneId).map (·.position)).Nodup := by
  apply List.pairwise_map.mpr
  apply laneRows_ascending.imp
  intro a b hlt hsame
  exact Std.lt_irrefl (hsame ▸ hlt)

/-- Among the cards of its lane the moved one is directly before the next neighbor. -/
theorem laneRows_split (hplaced : PlacedBefore w.store card r toLane next)
    (hcards : ∀ c, c ∈ w'.store.cards.rows ↔ c = r ∨ c ∈ w.store.cards.rows ∧ c.id ≠ card.id)
    (hprev : Neighbor w.store card toLane input.prevCardId prev)
    (hnext : Neighbor w.store card toLane input.nextCardId next)
    (hordered : ∀ p ∈ prev, ∀ n ∈ next, p.position < n.position) :
    ∃ above below, CardRepository.laneRows w'.store toLane.id = above ++ r :: below ∧
      below.head?.map (·.id) = input.nextCardId ∧
      ∀ id ∈ input.prevCardId, id ∈ above.map (·.id) := by
  have hrow : ∀ c, c ∈ CardRepository.laneRows w'.store toLane.id ↔
      c = r ∨ c ∈ w.store.cards.rows ∧ c.id ≠ card.id ∧ c.laneId = toLane.id := by
    intro c
    rw [mem_laneRows, hcards]
    constructor
    · rintro ⟨rfl | ⟨hc, hne⟩, hlane⟩
      · exact .inl rfl
      · exact .inr ⟨hc, hne, hlane⟩
    · rintro (rfl | ⟨hc, hne, hlane⟩)
      · exact ⟨.inl rfl, hplaced.laneId⟩
      · exact ⟨.inr ⟨hc, hne⟩, hlane⟩
  obtain ⟨above, below, hsplit⟩ := List.append_of_mem ((hrow r).mpr (.inl rfl))
  have hsorted := hsplit ▸ @laneRows_ascending w'.store toLane.id
  obtain ⟨-, htail, habove⟩ := List.pairwise_append.mp hsorted
  obtain ⟨hafter, hbelow⟩ := List.pairwise_cons.mp htail
  -- A card is above the moved one when its position is before, and below when it is after.
  have habove_of : ∀ c ∈ CardRepository.laneRows w'.store toLane.id,
      c.position < r.position → c ∈ above := by
    intro c hc hlt
    rw [hsplit, List.mem_append, List.mem_cons] at hc
    rcases hc with hc | rfl | hc
    · exact hc
    · exact absurd hlt Std.lt_irrefl
    · exact absurd (Std.lt_trans hlt (hafter c hc)) Std.lt_irrefl
  have hbelow_of : ∀ c ∈ CardRepository.laneRows w'.store toLane.id,
      r.position < c.position → c ∈ below := by
    intro c hc hlt
    rw [hsplit, List.mem_append, List.mem_cons] at hc
    rcases hc with hc | rfl | hc
    · exact absurd (Std.lt_trans hlt (habove c hc r (List.mem_cons_self ..))) Std.lt_irrefl
    · exact absurd hlt Std.lt_irrefl
    · exact hc
  have hnot_before : ∀ b ∈ below, ¬ ∀ n ∈ next, b.position < n.position := by
    intro b hb hbefore
    have hin : b ∈ CardRepository.laneRows w'.store toLane.id := by
      rw [hsplit]
      exact List.mem_append_right _ (List.mem_cons_of_mem _ hb)
    have hlt := hafter b hb
    rcases (hrow b).mp hin with rfl | ⟨hmem, hne, hlane⟩
    · exact Std.lt_irrefl hlt
    · exact Std.lt_irrefl (Std.lt_trans hlt (hplaced.after b hmem hlane hne hbefore))
  refine ⟨above, below, hsplit, ?_, ?_⟩
  · rw [← hnext.named]
    cases hgiven : next with
    | none =>
      cases below with
      | nil => rfl
      | cons b rest =>
        refine absurd ?_ (hnot_before b (List.mem_cons_self ..))
        simp [hgiven]
    | some n =>
      obtain ⟨hmem, hne, hlane, -⟩ := hnext.stored n hgiven
      have hn := hbelow_of n ((hrow n).mpr (.inr ⟨hmem, hne, hlane⟩)) (hplaced.before n hgiven)
      cases below with
      | nil => cases hn
      | cons b rest =>
        rcases List.mem_cons.mp hn with rfl | hn
        · rfl
        · refine absurd ?_ (hnot_before b (List.mem_cons_self ..))
          have hlt := (List.pairwise_cons.mp hbelow).1 n hn
          simpa [hgiven] using hlt
  · intro id hid
    rw [← hprev.named] at hid
    obtain ⟨p, hp, rfl⟩ := Option.mem_map.mp hid
    obtain ⟨hmem, hne, hlane, -⟩ := hprev.stored p hp
    refine List.mem_map_of_mem (habove_of p ((hrow p).mpr (.inr ⟨hmem, hne, hlane⟩)) ?_)
    exact hplaced.after p hmem hlane hne (hordered p hp)

end order

section moves

variable [Platform] {w w' : World Store Tick} {actor : Actor} {cardId : ℕ} {input : MoveCardInput}

/-- What an accepted move did, and what it had checked. -/
theorem placed_of_ok (hkeys : KeysBetween) {r : Card}
    (h : (CardService.move actor cardId input).perform w = (.ok r, w')) :
    PlacedExactly w.store w'.store cardId input r ∧ ¬ Misordered w.store input ∧
      ∀ card toLane, w.store.cards.find? cardId = some card →
        LaneRepository.laneWithKey w.store card.boardId input.toLane = some toLane →
        ¬ StaleNeighbor w.store card toLane input.prevCardId ∧
          ¬ StaleNeighbor w.store card toLane input.nextCardId := by
  obtain ⟨w₁, hdrew, hbody⟩ := perform_retry h
  obtain ⟨parsed, hparse, hrest⟩ := runs_parse_iff.mp hbody
  obtain rfl := move_parse_eq hparse
  obtain ⟨found, event, hchanged⟩ := runs_moveBody hparse hrest
  obtain ⟨card, fromLane, toLane, prev, next, hfound, hfrom, hto, hprev, hnext, hordered, hplaced⟩ :=
    runs_moveBody_place hkeys hrest
  have hr := hchanged.rewritten.of_drew hdrew
  have hchange := hchanged.change
  rw [hdrew.store] at hfound hfrom hto hprev hnext hplaced hchange
  have hid : card.id = cardId := Table.find?_key hfound
  obtain rfl : found = card :=
    Table.eq_of_key (Table.mem_of_find? hr.found) (Table.mem_of_find? hfound)
      (hr.key.symm.trans hplaced.id)
  obtain ⟨hmem, hboard, hkey⟩ := laneWithKey_mem hto
  have hboardId := (movedRow_of_change hchange hfrom hto hplaced.laneId).boardId
  have hrow : ∀ c, c ∈ w'.store.cards.rows ↔ c = r ∨ c ∈ w.store.cards.rows ∧ c.id ≠ found.id :=
    fun _ => hr.mem_cards_iff
  refine ⟨{
    id := hplaced.id.trans hid
    stored := hid ▸ hr.find?_self
    lane := ⟨toLane, hr.lanes ▸ hmem, hplaced.laneId.symm, hboard.trans hboardId.symm, hkey⟩
    distinct := nodup_positions
    order := ?_
    others := ?_ }, ?_, ?_⟩
  · rw [hplaced.laneId]
    exact laneRows_split hplaced hrow hprev hnext hordered
  · intro c hne
    rw [hrow]
    constructor
    · rintro (rfl | ⟨hc, -⟩)
      · exact absurd (hplaced.id.trans hid) hne
      · exact hc
    · exact fun hc => .inr ⟨hc, fun hsame => hne (hsame.trans hid)⟩
  · rintro ⟨prevId, hprevId, nextId, hnextId, p, hp, n, hn, hnot⟩
    have hprevCard : some p = prev := by
      apply hprev.eq_of_id
      · exact (congrArg some (Table.find?_key hp)).trans hprevId.symm
      · rintro _ ⟨⟩
        exact Table.mem_of_find? hp
    have hnextCard : some n = next := by
      apply hnext.eq_of_id
      · exact (congrArg some (Table.find?_key hn)).trans hnextId.symm
      · rintro _ ⟨⟩
        exact Table.mem_of_find? hn
    exact hnot (hordered p hprevCard.symm n hnextCard.symm)
  · intro c lane hc hlane
    obtain rfl := Option.some.inj (hfound.symm.trans hc)
    obtain rfl := Option.some.inj (hto.symm.trans hlane)
    exact ⟨not_staleNeighbor hprev, not_staleNeighbor hnext⟩

/-- A move puts its card exactly where the intent says, or leaves the store as it was; the
neighbors it goes by are cards that are there, in the order in which they are named. -/
theorem move_places_exactly (hkeys : KeysBetween) (w w' : World Store Tick) (actor : Actor)
    (cardId : ℕ) (input : MoveCardInput) (outcome : Except DomainError Card)
    (hmove : (CardService.move actor cardId input).perform w = (outcome, w')) :
    (∀ r, outcome = .ok r → PlacedExactly w.store w'.store cardId input r) ∧
      (∀ e, outcome = .error e → w'.store = w.store) ∧
      ((Misordered w.store input ∨ ∃ card toLane, w.store.cards.find? cardId = some card ∧
          LaneRepository.laneWithKey w.store card.boardId input.toLane = some toLane ∧
          (StaleNeighbor w.store card toLane input.prevCardId ∨
            StaleNeighbor w.store card toLane input.nextCardId)) →
        ∃ e, outcome = .error e) := by
  refine ⟨?_, ?_, ?_⟩
  · rintro r rfl
    exact (placed_of_ok hkeys hmove).1
  · rintro e rfl
    rcases attempt_cases hmove with ⟨_, -, hstore, -⟩ | ⟨_, _, _, _, hok, -⟩
    · exact hstore
    · cases hok
  · intro hrefused
    cases outcome with
    | error e => exact ⟨e, rfl⟩
    | ok r =>
      obtain ⟨-, hordered, hneighbors⟩ := placed_of_ok hkeys hmove
      rcases hrefused with hmisordered | ⟨card, toLane, hcard, hto, hstale⟩
      · exact absurd hmisordered hordered
      · obtain ⟨hprev, hnext⟩ := hneighbors card toLane hcard hto
        exact absurd hstale (not_or.mpr ⟨hprev, hnext⟩)

end moves

/-- The first of two cards, moved above the second one. -/
theorem move_places_above :
    ∃ r, ((@CardService.move samplePlatform sampleActor 1
        ⟨"intake", none, some 2, none, none, 1⟩).perform twoCards).1 = .ok r ∧
      PlacedExactly twoCards.store ((@CardService.move samplePlatform sampleActor 1
        ⟨"intake", none, some 2, none, none, 1⟩).perform twoCards).2.store 1
          ⟨"intake", none, some 2, none, none, 1⟩ r := by
  obtain ⟨r, haccepted⟩ : ∃ r, ((@CardService.move samplePlatform sampleActor 1
      ⟨"intake", none, some 2, none, none, 1⟩).perform twoCards).1 = .ok r :=
    exists_ok (by decide +kernel)
  have hplaces := @move_places_exactly samplePlatform keysBetween_sample twoCards _ sampleActor 1
    ⟨"intake", none, some 2, none, none, 1⟩ _ rfl
  exact ⟨r, haccepted, hplaces.1 r haccepted⟩

end AiKanban.Invariants
