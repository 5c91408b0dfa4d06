import AiKanban.Effects.Lifecycle
import AiKanban.Effects.Roles
import AiKanban.Services.BoardPages

/-!
# Pages

Whatever limits the requests carry, the pages of a listing that nothing changes in between put
together are the listing: nothing is lost and nothing comes twice.
-/
namespace AiKanban.Invariants

open Application Db Domain Effects Pagination Relational Services Transactions
open BoardQueryService
open CardService (utcDayOf)

section orders

variable {ρ : Type} {time : ρ → Instant} {id : ρ → Uuid} {rows : List ρ}

/-- The second is older, or as old with a smaller id. -/
def Older (a b : Instant × ℕ) : Prop := b.1 < a.1 ∨ b.1 = a.1 ∧ b.2 < a.2

instance : DecidableRel Older := fun _ _ => inferInstanceAs (Decidable (_ ∨ _))

/-- The second is newer, or as new with a greater id. -/
def Newer (a b : Instant × ℕ) : Prop := Older b a

instance : DecidableRel Newer := fun a b => inferInstanceAs (Decidable (Older b a))

theorem Older.irrefl (a : Instant × ℕ) : ¬ Older a a := by
  rintro (h | ⟨-, h⟩)
  · exact lt_irrefl _ h
  · exact lt_irrefl _ h

theorem Older.asymm (a b : Instant × ℕ) (h : Older a b) : ¬ Older b a := by
  rintro (h' | ⟨hsame, h'⟩)
  · rcases h with h | ⟨hsame, -⟩
    · exact lt_asymm h h'
    · exact absurd hsame h'.ne'
  · rcases h with h | ⟨-, h⟩
    · exact absurd hsame h.ne'
    · exact lt_asymm h h'

theorem Newer.irrefl (a : Instant × ℕ) : ¬ Newer a a := Older.irrefl a

theorem Newer.asymm (a b : Instant × ℕ) (h : Newer a b) : ¬ Newer b a := Older.asymm b a h

/-- Rows with distinct ids are listed strictly from new to old. -/
theorem older_newestFirst (hids : (rows.map id).Nodup) :
    (newestFirst time id rows).Pairwise fun a b => Older (time a, id a) (time b, id b) := by
  have hperm : (newestFirst time id rows).Perm rows := List.perm_insertionSort _ _
  have hnodup : ((newestFirst time id rows).map id).Nodup := (hperm.map id).nodup_iff.mpr hids
  refine (pairwise_newestFirst time id rows).imp₂ (fun a b hab hne => ?_)
    (List.pairwise_map.mp hnodup)
  rcases hab with hlt | ⟨hsame, hle⟩
  · exact .inl hlt
  · exact .inr ⟨hsame, lt_of_le_of_ne hle (Ne.symm hne)⟩

/-- Choosing rows before the sort or after it is the same. -/
theorem newestFirst_filter (hids : (rows.map id).Nodup) (p : ρ → Bool) :
    newestFirst time id (rows.filter p) = (newestFirst time id rows).filter p := by
  have hperm : (newestFirst time id (rows.filter p)).Perm ((newestFirst time id rows).filter p) :=
    (List.perm_insertionSort _ _).trans ((List.perm_insertionSort _ _).symm.filter p)
  have hsub : ((rows.filter p).map id).Nodup := hids.sublist (List.filter_sublist.map _)
  refine hperm.eq_of_pairwise (fun a b _ _ hab hba => absurd hba (Older.asymm _ _ hab))
    (older_newestFirst hsub) ((older_newestFirst hids).filter _)

/-- The rows after a cursor can be chosen before the sort. -/
theorem newestFirst_after {before : Instant × ℕ → Instant × ℕ → Prop} [DecidableRel before]
    {pair : ρ → Instant × ℕ} (toKey : Instant × ℕ → CursorKey) (beyond : CursorKey → ρ → Bool)
    (hbeyond : ∀ key row, beyond (toKey key) row = true ↔ before key (pair row))
    (hids : (rows.map id).Nodup) (p : ρ → Bool) (cursor : Option (Instant × ℕ)) :
    newestFirst time id (rows.filter fun row => p row && (cursor.map toKey).all (beyond · row)) =
      after before pair cursor (newestFirst time id (rows.filter p)) := by
  have hsub : ((rows.filter p).map id).Nodup := hids.sublist (List.filter_sublist.map _)
  have hafter : ∀ row, (cursor.map toKey).all (beyond · row) =
      cursor.all fun key => decide (before key (pair row)) := by
    intro row
    cases cursor with
    | none => rfl
    | some key =>
      rw [Option.map_some, Option.all_some, Option.all_some, Bool.eq_iff_iff, hbeyond,
        decide_eq_true_iff]
  simp only [after, ← newestFirst_filter hsub, List.filter_filter, hafter, Bool.and_comm]

end orders

section slicing

variable {α β κ τ : Type}

theorem slice_comp (f : κ → τ) (keyOf : α → κ) (limit : ℕ) (rows : List α) :
    slice (fun a => f (keyOf a)) limit rows = (slice keyOf limit rows).mapCursor f := by
  unfold slice Page.mapCursor
  split_ifs with hmore
  · simp only [Option.map_map]
    rfl
  · rfl

variable [KeyTexts]

/-- Valid keys have tokens. -/
theorem paginate_eq {rows : List α} {limit : ℕ} {keyOf : α → CursorKey}
    (h : ∀ a ∈ rows, (keyOf a).Valid) :
    paginate rows limit keyOf = .ok ((slice keyOf limit rows).mapCursor tokenOf) := by
  have hnext : (slice keyOf limit rows).nextCursor.mapM encodeCursor =
      .ok ((slice keyOf limit rows).nextCursor.map tokenOf) := by
    unfold slice
    split_ifs with hmore
    · cases hlast : (rows.take limit).getLast? with
      | none => rfl
      | some last =>
        have hmem : last ∈ rows := List.mem_of_mem_take (List.mem_of_getLast? hlast)
        simp only [Option.map_some, Option.mapM_some, encodeCursor_eq (h last hmem)]
        rfl
    · rfl
  unfold paginate
  simp only [hnext]
  rfl

end slicing

section requests

variable {α ρ β : Type} {w w' : World Store Tick}

/-- Requests one after the other, each in a world of its own. -/
def pagesOf (request : Option String → Option ℕ → Tx (Page α String)) (limits : ℕ → Option ℕ)
    (worlds : ℕ → World Store Tick) (rounds : ℕ) : Option (List α) :=
  collect (fun i cursor => (transact (request cursor (limits i)) (worlds i)).1.toOption) rounds 0 none

theorem toOption_of_runs {p : Tx α} {a : α} (h : Runs p w a w') :
    (transact p w).1.toOption = some a := by
  rw [transact_ok_iff.mpr h]
  rfl

theorem Runs.unique {p : Tx α} {a b : α} {w₁ w₂ : World Store Tick} (h : Runs p w a w₁)
    (h' : Runs p w b w₂) : a = b ∧ w₁ = w₂ := by
  have hsame := h.symm.trans h'
  simp only [Prod.mk.injEq, Except.ok.injEq] at hsame
  exact hsame

/-- The limits that the schema of a page request admits. -/
def LimitsAdmitted (limits : ℕ → Option ℕ) : Prop := ∀ i, ∀ n ∈ limits i, 1 ≤ n ∧ n ≤ 200

theorem parse_page {cursor : Option String} {limit : Option ℕ}
    (hcursor : ∀ token ∈ cursor, utf16Length token ≤ 500) (hlimit : ∀ n ∈ limit, 1 ≤ n ∧ n ≤ 200) :
    PageRequest.parse ⟨cursor, limit⟩ = .ok (cursor, limit.getD 50) := by
  have hbounds : 1 ≤ limit.getD 50 ∧ limit.getD 50 ≤ 200 := by
    cases limit with
    | none => simp
    | some n => exact hlimit n rfl
  have hfits : (whenPresent cursor fun cursor => check (utf16Length cursor ≤ 500) ["cursor"]) =
      .ok () := by
    cases cursor with
    | none => rfl
    | some token => simp [whenPresent, check, hcursor token rfl]
  have hwithin : check (decide (1 ≤ limit.getD 50) && decide (limit.getD 50 ≤ 200)) ["limit"] =
      .ok () := by
    simp [check, hbounds]
  simp only [PageRequest.parse, hfits, hwithin]
  rfl

variable [KeyTexts]

/-- A key of the store: its token fits into a request and names it. -/
structure CursorKey.Stored (key : CursorKey) : Prop where
  valid : key.Valid
  short : key.Short

/-- Rows as their schemas have them: positive safe numbers, and texts as short as those of a
datetime and a uuid. -/
structure KeysStored (s : Store) : Prop where
  cards : ∀ card ∈ s.cards.rows, 1 ≤ card.id ∧ card.id ≤ 9007199254740991 ∧
    (KeyTexts.instantText card.createdAt).length ≤ 64
  events : ∀ event ∈ s.cardEvents.rows, (KeyTexts.instantText event.createdAt).length ≤ 64 ∧
    (KeyTexts.uuidText event.id).length ≤ 36

theorem KeysStored.cardKey {s : Store} (h : KeysStored s) {card : Card} (hcard : card ∈ s.cards.rows) :
    CursorKey.Stored (cardKey card) := by
  obtain ⟨hpositive, hsafe, htext⟩ := h.cards card hcard
  constructor
  · rintro id ⟨⟩
    exact ⟨hpositive, hsafe⟩
  · exact ⟨htext, nofun⟩

theorem KeysStored.eventKey {s : Store} (h : KeysStored s) {event : CardEvent}
    (hevent : event ∈ s.cardEvents.rows) : CursorKey.Stored (eventKey event) := by
  obtain ⟨htext, huuid⟩ := h.events event hevent
  constructor
  · exact nofun
  · refine ⟨htext, ?_⟩
    rintro id ⟨⟩
    exact huuid

theorem mapM_decodeCursor {key : Option CursorKey} (h : ∀ k ∈ key, k.Valid) :
    (key.map tokenOf).mapM decodeCursor = .ok key := by
  cases key with
  | none => rfl
  | some k =>
    simp only [Option.map_some, Option.mapM_some, decodeCursor_tokenOf (h k rfl)]
    rfl

theorem parse_tokens {key : Option CursorKey} {limit : Option ℕ}
    (h : ∀ k ∈ key, CursorKey.Stored k) (hlimit : ∀ n ∈ limit, 1 ≤ n ∧ n ≤ 200) :
    PageRequest.parse ⟨key.map tokenOf, limit⟩ = .ok (key.map tokenOf, limit.getD 50) := by
  refine parse_page ?_ hlimit
  intro token htoken
  obtain ⟨k, hk, rfl⟩ := Option.map_eq_some_iff.mp htoken
  exact length_tokenOf (h k hk).valid (h k hk).short

/-- Pages that are slices of a strict listing, put together. -/
theorem pagesOf_eq (toKey : Instant × ℕ → CursorKey) {before : Instant × ℕ → Instant × ℕ → Prop}
    [DecidableRel before] (hirrefl : ∀ k, ¬ before k k)
    (hasymm : ∀ a b, before a b → ¬ before b a) {rows : List ρ} {pair : ρ → Instant × ℕ}
    {present : ρ → β}
    (hsorted : rows.Pairwise fun a b => before (pair a) (pair b)) {limits : ℕ → Option ℕ}
    (hlimits : LimitsAdmitted limits) {worlds : ℕ → World Store Tick}
    {request : Option String → Option ℕ → Tx (Page β String)}
    (hrequest : ∀ i cursor, (∀ key ∈ cursor, ∃ row ∈ rows, key = pair row) → ∃ w',
      Runs (request ((cursor.map toKey).map tokenOf) (limits i)) (worlds i)
        (((slice (fun row => toKey (pair row)) ((limits i).getD 50)
          ((after before pair cursor rows).take ((limits i).getD 50 + 1))).mapCursor tokenOf).map
            present) w') {rounds : ℕ} (hrounds : rows.length < rounds) :
    pagesOf request limits worlds rounds = some (rows.map present) := by
  have hpositive : ∀ i, 1 ≤ (limits i).getD 50 := by
    intro i
    cases hlimit : limits i with
    | none => simp
    | some n => exact (hlimits i n hlimit).1
  have hfetch : ∀ i (cursor : Option (Instant × ℕ)), (∀ key ∈ cursor, ∃ row ∈ rows, key = pair row) →
      (transact (request (cursor.map fun key => tokenOf (toKey key)) (limits i)) (worlds i)).1.toOption =
        some (((slice pair ((limits i).getD 50)
          ((after before pair cursor rows).take ((limits i).getD 50 + 1))).mapCursor
            fun key => tokenOf (toKey key)).map present) := by
    intro i cursor hcursor
    obtain ⟨w', hrun⟩ := hrequest i cursor hcursor
    rw [Option.map_map] at hrun
    rw [slice_comp toKey pair] at hrun
    have hpage := toOption_of_runs hrun
    simp only [Page.mapCursor, Option.map_map] at hpage
    exact hpage
  exact collect_eq hirrefl hasymm hsorted hpositive hfetch hrounds

end requests

section cards

theorem readsOnly_givenPresent {α β : Type} {value : Option α} {body : α → Tx β}
    (h : ∀ a, (body a).ReadsOnly) : (givenPresent value body).ReadsOnly := by
  cases value with
  | none => exact Program.readsOnly_pure _
  | some a => exact (h a).bind fun _ => Program.readsOnly_pure _

theorem readsOnly_locationSubtreeIds (rootId : Uuid) : (locationSubtreeIds rootId).ReadsOnly :=
  (Program.readsOnly_read _).bind fun _ => Program.readsOnly_require _ _

variable {w w' : World Store Tick} {s : Store}

/-- Requests on one UTC day ask for the same cards. -/
theorem runs_toRepoFilter {boardId : Uuid} {filter : ListCardsFilter}
    {facets : CardRepository.CardQueryFacets} (h : Runs (toRepoFilter boardId filter) w facets w') :
    w'.store = w.store ∧ ∀ w₁ : World Store Tick, w₁.store = w.store →
      (filter.overdueResume = some true → utcDayOf w₁.peek.now = utcDayOf w.peek.now) →
      ∃ w₁', Runs (toRepoFilter boardId filter) w₁ facets w₁' ∧ w₁'.store = w.store := by
  simp only [toRepoFilter, runs_bind_iff, runs_pure_iff] at h
  obtain ⟨lane, w₀, hlane, locationIds, w₁, hlocations, day, w₂, hday, rfl, rfl⟩ := h
  obtain rfl := hlane.of_readsOnly (readsOnly_givenPresent (readsOnly_laneByKey boardId))
  obtain rfl := hlocations.of_readsOnly (readsOnly_givenPresent readsOnly_locationSubtreeIds)
  have hdays : w'.store = w₁.store ∧ ∀ w₃ : World Store Tick, w₃.store = w₁.store →
      (filter.overdueResume = some true → utcDayOf w₃.peek.now = utcDayOf w₁.peek.now) →
      ∃ w₄, Runs (overdueDay filter) w₃ day w₄ ∧ w₄.store = w₁.store := by
    unfold overdueDay at hday ⊢
    by_cases hoverdue : filter.overdueResume = some true
    · simp only [if_pos hoverdue, runs_bind_iff, runs_clockNow_iff, runs_pure_iff] at hday ⊢
      obtain ⟨_, _, ⟨rfl, rfl⟩, rfl, rfl⟩ := hday
      refine ⟨rfl, fun w₃ hstore hsame => ⟨w₃.tick, ⟨_, _, ⟨rfl, rfl⟩, ?_, rfl⟩, hstore⟩⟩
      rw [hsame hoverdue]
    · simp only [if_neg hoverdue, runs_pure_iff] at hday ⊢
      obtain ⟨rfl, rfl⟩ := hday
      exact ⟨rfl, fun w₃ hstore _ => ⟨w₃, ⟨rfl, rfl⟩, hstore⟩⟩
  refine ⟨hdays.1, fun w₃ hstore hsame => ?_⟩
  obtain ⟨w₄, hday', hstore'⟩ := hdays.2 w₃ hstore hsame
  have hlane' := hlane.of_store (readsOnly_givenPresent (readsOnly_laneByKey boardId)) hstore
  have hlocations' :=
    hlocations.of_store (readsOnly_givenPresent readsOnly_locationSubtreeIds) hstore
  simp only [toRepoFilter, runs_bind_iff, runs_pure_iff]
  exact ⟨w₄, ⟨lane, w₃, hlane', locationIds, w₃, hlocations', day, w₄, hday', rfl, rfl⟩, hstore'⟩

def numberKey (pair : Instant × ℕ) : CursorKey := ⟨pair.1, .number pair.2⟩

theorem olderThanNumber_iff {key : Instant × ℕ} {createdAt : Instant} {id : ℕ} :
    olderThanNumber (numberKey key) createdAt id = true ↔ Older key (createdAt, id) := by
  change (decide (createdAt < key.1) || decide (createdAt = key.1) && decide (id < key.2)) = true ↔ _
  simp [Older]

theorem parse_overdueResume {raw filter : ListCardsFilter} (h : raw.parse = .ok filter) :
    filter.overdueResume = raw.overdueResume := by
  unfold ListCardsFilter.parse at h
  obtain ⟨_, -, h⟩ := ok_of_bind h
  obtain ⟨_, -, h⟩ := ok_of_bind h
  obtain ⟨_, -, h⟩ := ok_of_bind h
  obtain ⟨_, -, h⟩ := ok_of_bind h
  obtain ⟨_, -, h⟩ := ok_of_bind h
  obtain ⟨_, -, h⟩ := ok_of_bind h
  cases h
  rfl

variable [Platform]

/-- The cards of a filter, newest first. -/
def listing (s : Store) (filter : CardRepository.CardQueryFacets) : List Card :=
  newestFirst (·.createdAt) (·.id) (s.cards.rows.filter (CardRepository.filterConditions s filter))

def cardPair (card : Card) : Instant × ℕ := (card.createdAt, card.id)

theorem mem_of_mem_listing {filter : CardRepository.CardQueryFacets} {card : Card}
    (h : card ∈ listing s filter) : card ∈ s.cards.rows :=
  (List.mem_filter.mp (mem_newestFirst.mp h)).1

theorem listing_older (s : Store) (filter : CardRepository.CardQueryFacets) :
    (listing s filter).Pairwise fun a b => Older (cardPair a) (cardPair b) :=
  older_newestFirst ((ids_nodup s.cards).sublist (List.filter_sublist.map _))

/-- A page of the query is a page of the listing. -/
theorem runs_queryPage (filter : CardRepository.CardQueryFacets) (cursor : Option (Instant × ℕ))
    (limit : Option ℕ) (w : World Store Tick) :
    Runs (CardRepository.queryPage filter (cursor.map numberKey) limit) w
      (limited limit (after Older cardPair cursor (listing w.store filter))) w := by
  refine runs_read_iff.mpr ⟨?_, rfl⟩
  exact congrArg _ (newestFirst_after numberKey
    (fun key (card : Card) => olderThanNumber key card.createdAt card.id)
    (fun _ _ => olderThanNumber_iff) w.store.cards.keys_nodup _ cursor).symm

/-- The same list without pages. -/
def allCards (boardId : Uuid) (actor : Actor) (raw : ListCardsFilter) : Tx (List Card) := do
  let filter ← .ofExcept raw.parse
  let _ ← requireBoardAccess actor boardId
  CardRepository.queryPage (← toRepoFilter boardId filter) none none

variable [KeyTexts]

/-- The pages of the card list are the card list. -/
theorem pages_listCards {worlds : ℕ → World Store Tick} (hworlds : ∀ i, (worlds i).store = s)
    (hkeys : KeysStored s) {limits : ℕ → Option ℕ} (hlimits : LimitsAdmitted limits)
    {boardId : Uuid} {actor : Actor} {raw : ListCardsFilter} {cards : List Card}
    (hday : raw.overdueResume = some true → ∀ i,
      utcDayOf (worlds i).peek.now = utcDayOf (worlds 0).peek.now)
    (hall : (transact (allCards boardId actor raw) (worlds 0)).1 = .ok cards) :
    cards.Pairwise (fun a b => Older (cardPair a) (cardPair b)) ∧
      ∀ rounds, cards.length < rounds →
        pagesOf (fun cursor limit => listCards boardId actor raw ⟨cursor, limit⟩) limits worlds
          rounds = some cards := by
  have hrun : Runs (allCards boardId actor raw) (worlds 0) cards
      (transact (allCards boardId actor raw) (worlds 0)).2 :=
    transact_ok_iff.mp (Prod.ext hall rfl)
  simp only [allCards, runs_bind_iff, runs_ofExcept_iff] at hrun
  obtain ⟨filter, w₀, ⟨hparse, rfl⟩, _, w₁, haccess, facets, w₂, hfacets, hquery⟩ := hrun
  obtain rfl := haccess.of_readsOnly (readsOnly_requireBoardAccess _ _)
  obtain ⟨hstore₂, hagain⟩ := runs_toRepoFilter hfacets
  have hcards : cards = listing s facets := by
    have hlist := runs_read_iff.mp hquery
    simp only [Option.all_none, Bool.and_true, limited] at hlist
    rw [hlist.1, hstore₂, hworlds 0]
    rfl
  subst hcards
  refine ⟨listing_older s facets, fun rounds hrounds => ?_⟩
  have hpages : pagesOf (fun cursor limit => listCards boardId actor raw ⟨cursor, limit⟩) limits
      worlds rounds = some ((listing s facets).map id) := by
    refine pagesOf_eq numberKey Older.irrefl Older.asymm (listing_older s facets) hlimits
      (fun i cursor hcursor => ?_) hrounds
    have hstore : (worlds i).store = (worlds 0).store := by rw [hworlds, hworlds]
    have hstored : ∀ key ∈ cursor.map numberKey, CursorKey.Stored key := by
      intro key hkey
      obtain ⟨pair, hpair, rfl⟩ := Option.mem_map.mp hkey
      obtain ⟨card, hcard, rfl⟩ := hcursor pair hpair
      exact hkeys.cardKey (mem_of_mem_listing hcard)
    obtain ⟨w₃, hfacets', hstore₃⟩ := hagain (worlds i) hstore
      fun hoverdue => hday (by rwa [← parse_overdueResume hparse]) i
    have hitems := runs_queryPage facets cursor (some ((limits i).getD 50 + 1)) w₃
    rw [hstore₃, hworlds] at hitems
    have hpage : paginate ((after Older cardPair cursor (listing s facets)).take
        ((limits i).getD 50 + 1)) ((limits i).getD 50) cardKey = .ok _ :=
      paginate_eq fun card hcard => (hkeys.cardKey (mem_of_mem_listing
        (List.mem_filter.mp (List.mem_of_mem_take hcard)).1)).valid
    refine ⟨w₃, ?_⟩
    simp only [listCards, Page.map, List.map_id, runs_bind_iff, runs_ofExcept_iff]
    exact ⟨filter, _, ⟨hparse, rfl⟩, _, _, ⟨parse_tokens hstored (hlimits i), rfl⟩, _, _,
      ⟨mapM_decodeCursor fun key hkey => (hstored key hkey).valid, rfl⟩, _, _,
      haccess.of_store (readsOnly_requireBoardAccess _ _) hstore, facets, w₃, hfacets', _, _, hitems,
      hpage, rfl⟩
  rwa [List.map_id] at hpages

end cards

section names

variable {w : World Store Tick} {s : Store}

/-- The event as the reads show it. -/
def enriched (s : Store) (event : CardEvent) : EnrichedCardEvent :=
  withToken (newestFirst (·.createdAt) (·.id) s.serviceTokens.rows) (withAgent event)

/-- Each event is enriched on its own. -/
theorem runs_enrichMcpActors (events : List CardEvent) :
    Runs (enrichMcpActors events) w (events.map (enriched w.store)) w := by
  unfold enrichMcpActors
  by_cases hmcp : events.any (·.actorKind == .mcp) = true
  · simp only [if_pos hmcp, ServiceTokenRepository.list, runs_bind_iff, runs_read_iff, runs_pure_iff,
      List.map_map]
    exact ⟨_, _, ⟨rfl, rfl⟩, rfl, rfl⟩
  · rw [if_neg hmcp]
    refine runs_pure_iff.mpr ⟨List.map_congr_left fun event hevent => ?_, rfl⟩
    have hkind : ¬ event.actorKind = .mcp := by
      intro hkind
      exact hmcp (List.any_eq_true.mpr ⟨event, hevent, by simp [hkind]⟩)
    unfold enriched withToken
    rw [if_neg (by simpa [withAgent] using hkind)]

def activityUsers (s : Store) : List ActivityUser :=
  (newestFirst (·.createdAt) (·.id) (s.users.rows.map (·.user))).reverse.map fun user =>
    ⟨user.id, user.displayName, user.email⟩

/-- A name is found among the users of the page when the page refers to the user. -/
theorem displayNameOf_filter {users : List ActivityUser} {referenced : List Uuid} {id : Uuid}
    (h : id ∈ referenced) :
    displayNameOf (users.filter fun user => referenced.contains user.id) id =
      displayNameOf users id := by
  unfold displayNameOf
  rw [List.find?_filter]
  congr 2
  funext user
  by_cases hid : user.id = id
  · simp [hid, h]
  · simp [hid]

/-- The users that an event's names are looked up for are among those it refers to. -/
theorem withNames_filter {users : List ActivityUser} {referenced : List Uuid}
    {event : EnrichedCardEvent} (h : ∀ id ∈ referencedUserIds event, id ∈ referenced) :
    withNames (users.filter fun user => referenced.contains user.id) event =
      withNames users event := by
  have hactor : (if event.actorKind = .user ∨ event.actorKind = .slack then
      event.actorId.bind (displayNameOf (users.filter fun user => referenced.contains user.id))
        else none) =
      if event.actorKind = .user ∨ event.actorKind = .slack then
        event.actorId.bind (displayNameOf users) else none := by
    split_ifs with hkind
    · cases hid : event.actorId with
      | none => rfl
      | some id =>
        refine displayNameOf_filter (h id ?_)
        unfold referencedUserIds
        rw [if_pos (by tauto)]
        simp [hid]
    · rfl
  have hbehalf : event.onBehalfOfUserId.bind
      (displayNameOf (users.filter fun user => referenced.contains user.id)) =
      event.onBehalfOfUserId.bind (displayNameOf users) := by
    cases hid : event.onBehalfOfUserId with
    | none => rfl
    | some id => exact displayNameOf_filter (h id (by simp [referencedUserIds, hid]))
  simp only [withNames, hactor, hbehalf]

/-- The events with their names, and whatever users the page shows beside them. -/
theorem runs_resolveActivityNames (events : List EnrichedCardEvent) (nextCursor : Option String) :
    ∃ users, Runs (resolveActivityNames events nextCursor) w
      ⟨events.map (withNames (activityUsers w.store)), nextCursor, users⟩ w := by
  have hnames : events.map (withNames (activityUsers w.store)) =
      events.map (withNames ((activityUsers w.store).filter fun user =>
        (events.flatMap referencedUserIds).contains user.id)) := by
    refine List.map_congr_left fun event hevent => (withNames_filter fun id hid => ?_).symm
    exact List.mem_flatMap.mpr ⟨event, hevent, hid⟩
  rw [hnames]
  refine ⟨(activityUsers w.store).filter fun user =>
    (events.flatMap referencedUserIds).contains user.id, ?_⟩
  simp only [resolveActivityNames, UserAccountRepository.list, runs_bind_iff, runs_read_iff,
    runs_pure_iff]
  refine ⟨_, w, ⟨rfl, rfl⟩, ?_, rfl⟩
  rw [activityUsers, List.filter_map]
  rfl

end names

section history

variable {w : World Store Tick} {s : Store}

def eventPair (event : CardEvent) : Instant × ℕ := (event.createdAt, event.id)

theorem eventPair_enriched (event : CardEvent) :
    eventPair (enriched s event).toCardEvent = eventPair event := by
  unfold enriched withToken
  split_ifs
  · split <;> rfl
  · rfl

/-- The events of a card, oldest first. -/
def historyOf (s : Store) (cardId : ℕ) (types : Option (List CardEventType)) : List CardEvent :=
  (newestFirst (·.createdAt) (·.id) (s.cardEvents.rows.filter fun e =>
    e.cardId == cardId && types.all (·.contains e.body.eventType))).reverse

theorem mem_of_mem_historyOf {cardId : ℕ} {types : Option (List CardEventType)} {event : CardEvent}
    (h : event ∈ historyOf s cardId types) : event ∈ s.cardEvents.rows :=
  (List.mem_filter.mp (mem_newestFirst.mp (List.mem_reverse.mp h))).1

theorem historyOf_newer (s : Store) (cardId : ℕ) (types : Option (List CardEventType)) :
    (historyOf s cardId types).Pairwise fun a b => Newer (eventPair a) (eventPair b) :=
  List.pairwise_reverse.mpr
    (older_newestFirst (s.cardEvents.keys_nodup.sublist (List.filter_sublist.map _)))

variable [KeyTexts]

/-- The same history without pages. -/
def wholeHistory (actor : Actor) (cardId : ℕ) (type : Option CardEventType) :
    Tx (List EnrichedCardEvent) := do
  let _ ← accessibleCard actor cardId
  let events ← EventRepository.listByCard cardId (type.map fun type => [type]) none none
  enrichMcpActors events

def uuidKey (pair : Instant × ℕ) : CursorKey := ⟨pair.1, .uuid pair.2⟩

theorem newerThanUuid_iff {key : Instant × ℕ} {createdAt : Instant} {id : Uuid} :
    newerThanUuid (uuidKey key) createdAt id = true ↔ Newer key (createdAt, id) := by
  change (decide (key.1 < createdAt) || decide (createdAt = key.1) && decide (key.2 < id)) = true ↔ _
  simp [Newer, Older, @eq_comm _ createdAt]

/-- A page of a card's events is a page of its history. -/
theorem runs_listByCard (cardId : ℕ) (types : Option (List CardEventType))
    (cursor : Option (Instant × ℕ)) (limit : Option ℕ) (w : World Store Tick) :
    Runs (EventRepository.listByCard cardId types (cursor.map uuidKey) limit) w
      (limited limit (after Newer eventPair cursor (historyOf w.store cardId types))) w := by
  refine runs_read_iff.mpr ⟨?_, rfl⟩
  have hreverse : after Newer eventPair cursor (historyOf w.store cardId types) =
      (after Newer eventPair cursor (newestFirst (·.createdAt) (·.id)
        (w.store.cardEvents.rows.filter fun e =>
          e.cardId == cardId && types.all (·.contains e.body.eventType)))).reverse :=
    List.filter_reverse ..
  rw [hreverse]
  exact congrArg (fun rows => limited limit rows.reverse) (newestFirst_after uuidKey
    (fun key (e : CardEvent) => newerThanUuid key e.createdAt e.id) (fun _ _ => newerThanUuid_iff)
    w.store.cardEvents.keys_nodup _ cursor).symm

/-- The pages of a card's history are the history. -/
theorem pages_cardHistory {worlds : ℕ → World Store Tick} (hworlds : ∀ i, (worlds i).store = s)
    (hkeys : KeysStored s) {limits : ℕ → Option ℕ} (hlimits : LimitsAdmitted limits)
    {actor : Actor} {cardId : ℕ} {type : Option CardEventType} {events : List EnrichedCardEvent}
    (hall : (transact (wholeHistory actor cardId type) (worlds 0)).1 = .ok events) :
    events.Pairwise (fun a b => Newer (eventPair a.toCardEvent) (eventPair b.toCardEvent)) ∧
      ∀ rounds, events.length < rounds →
        pagesOf (fun cursor limit => cardHistory actor cardId ⟨⟨cursor, limit⟩, type⟩) limits worlds
          rounds = some events := by
  have hrun : Runs (wholeHistory actor cardId type) (worlds 0) events
      (transact (wholeHistory actor cardId type) (worlds 0)).2 :=
    transact_ok_iff.mp (Prod.ext hall rfl)
  simp only [wholeHistory, runs_bind_iff] at hrun
  obtain ⟨_, w₁, haccess, rows, w₂, hlist, henrich⟩ := hrun
  obtain rfl := haccess.of_readsOnly (readsOnly_accessibleCard _ _)
  obtain ⟨hrows, rfl⟩ := runs_read_iff.mp hlist
  have hevents : events = (historyOf s cardId (type.map fun type => [type])).map (enriched s) := by
    obtain ⟨hsame, -⟩ := Runs.unique henrich (runs_enrichMcpActors rows)
    simp only [Option.all_none, Bool.and_true, limited] at hrows
    rw [hsame, hrows, hworlds 0]
    rfl
  subst hevents
  have hmem : ∀ cursor, ∀ event ∈ after Newer eventPair cursor
      (historyOf s cardId (type.map fun type => [type])), CursorKey.Stored (eventKey event) :=
    fun cursor event hevent =>
      hkeys.eventKey (mem_of_mem_historyOf (List.mem_filter.mp hevent).1)
  have hsorted := historyOf_newer s cardId (type.map fun type => [type])
  refine ⟨List.pairwise_map.mpr (by simpa only [eventPair_enriched] using hsorted), fun rounds hrounds => ?_⟩
  rw [List.length_map] at hrounds
  refine pagesOf_eq uuidKey Newer.irrefl Newer.asymm (historyOf_newer s cardId _) hlimits
    (fun i cursor hcursor => ?_) hrounds
  have hstored : ∀ key ∈ cursor.map uuidKey, CursorKey.Stored key := by
    intro key hkey
    obtain ⟨pair, hpair, rfl⟩ := Option.mem_map.mp hkey
    obtain ⟨event, hevent, rfl⟩ := hcursor pair hpair
    exact hkeys.eventKey (mem_of_mem_historyOf hevent)
  have hstore : (worlds i).store = (worlds 0).store := by rw [hworlds, hworlds]
  have hitems := runs_listByCard cardId (type.map fun type => [type]) cursor
    (some ((limits i).getD 50 + 1)) (worlds i)
  rw [hworlds] at hitems
  have hpage : paginate ((after Newer eventPair cursor
      (historyOf s cardId (type.map fun type => [type]))).take ((limits i).getD 50 + 1))
        ((limits i).getD 50) eventKey = .ok _ :=
    paginate_eq fun event hevent => (hmem cursor event (List.mem_of_mem_take hevent)).valid
  have henriched := runs_enrichMcpActors (w := worlds i)
    (slice eventKey ((limits i).getD 50) ((after Newer eventPair cursor
      (historyOf s cardId (type.map fun type => [type]))).take ((limits i).getD 50 + 1))).items
  rw [hworlds] at henriched
  refine ⟨worlds i, ?_⟩
  simp only [cardHistory, runs_bind_iff, runs_ofExcept_iff, runs_pure_iff]
  exact ⟨_, _, ⟨parse_tokens hstored (hlimits i), rfl⟩, _, _,
    ⟨mapM_decodeCursor fun key hkey => (hstored key hkey).valid, rfl⟩, _, _,
    haccess.of_store (readsOnly_accessibleCard _ _) hstore, _, _, hitems, _, _, ⟨hpage, rfl⟩, _, _,
    henriched, rfl, rfl⟩

end history

section feed

variable {w : World Store Tick} {s : Store}

theorem readsOnly_selfActorIds (actor : Actor) : (selfActorIds actor).ReadsOnly := by
  refine (Program.readsOnly_read _).bind fun tokens => ?_
  dsimp only
  split
  · exact Program.readsOnly_pure _
  · exact Program.readsOnly_pure _

theorem readsOnly_feedActorIds (actor : Actor) (policy : PolicyDocument) :
    (feedActorIds actor policy).ReadsOnly := by
  unfold feedActorIds
  split_ifs
  · exact Program.readsOnly_pure _
  · exact (readsOnly_selfActorIds actor).bind fun _ => Program.readsOnly_pure _

/-- The events of a feed, newest first. -/
def activityOf (s : Store) (sinceIso : Instant) (filter : EventRepository.BoardSinceFilter) :
    List CardEvent :=
  newestFirst (·.createdAt) (·.id) (s.cardEvents.rows.filter (filter.matches sinceIso s))

theorem mem_of_mem_activityOf {sinceIso : Instant} {filter : EventRepository.BoardSinceFilter}
    {event : CardEvent} (h : event ∈ activityOf s sinceIso filter) : event ∈ s.cardEvents.rows :=
  (List.mem_filter.mp (mem_newestFirst.mp h)).1

theorem activityOf_older (s : Store) (sinceIso : Instant)
    (filter : EventRepository.BoardSinceFilter) :
    (activityOf s sinceIso filter).Pairwise fun a b => Older (eventPair a) (eventPair b) :=
  older_newestFirst (s.cardEvents.keys_nodup.sublist (List.filter_sublist.map _))

/-- The event of a feed as the read shows it. -/
def named (s : Store) (event : CardEvent) : EnrichedActivityEvent :=
  withNames (activityUsers s) (enriched s event)

variable [KeyTexts]

theorem olderThanUuid_iff {key : Instant × ℕ} {createdAt : Instant} {id : Uuid} :
    olderThanUuid (uuidKey key) createdAt id = true ↔ Older key (createdAt, id) := by
  change (decide (createdAt < key.1) || decide (createdAt = key.1) && decide (id < key.2)) = true ↔ _
  simp [Older]

/-- A page of a board's events is a page of its activity. -/
theorem runs_listBoardSince (sinceIso : Instant) (filter : EventRepository.BoardSinceFilter)
    (cursor : Option (Instant × ℕ)) (limit : Option ℕ) (w : World Store Tick) :
    Runs (EventRepository.listBoardSince sinceIso filter (cursor.map uuidKey) limit) w
      (limited limit (after Older eventPair cursor (activityOf w.store sinceIso filter))) w := by
  refine runs_read_iff.mpr ⟨?_, rfl⟩
  exact congrArg _ (newestFirst_after uuidKey
    (fun key (e : CardEvent) => olderThanUuid key e.createdAt e.id) (fun _ _ => olderThanUuid_iff)
    w.store.cardEvents.keys_nodup _ cursor).symm

/-- The same feed without pages. -/
def allActivity (boardId : Uuid) (actor : Actor) (raw : ActivityFeedRequest) :
    Tx (List EnrichedActivityEvent) := do
  let _ ← .ofExcept (whenPresent raw.cardId (integerAtLeast ["cardId"] 1))
  let sinceIso ← feedSince raw
  let _ ← requireBoardAccess actor boardId
  let policy ← activePolicy boardId
  let actorIds ← feedActorIds actor policy
  let events ← EventRepository.listBoardSince sinceIso {
      boardId, types := raw.type.map fun type => [type], cardId := raw.cardId
      actorKind := raw.actorKind, actorIds } none none
  return (← resolveActivityNames (← enrichMcpActors events) none).items

/-- A page of the feed without the users beside it. -/
def feedPage (boardId : Uuid) (actor : Actor) (raw : ActivityFeedRequest) (cursor : Option String)
    (limit : Option ℕ) : Tx (Page EnrichedActivityEvent String) := do
  let feed ← eventsSince boardId actor { raw with cursor, limit }
  return ⟨feed.items, feed.nextCursor⟩

/-- The pages of the activity feed are the activity. -/
theorem pages_eventsSince {worlds : ℕ → World Store Tick} (hworlds : ∀ i, (worlds i).store = s)
    (hkeys : KeysStored s) {limits : ℕ → Option ℕ} (hlimits : LimitsAdmitted limits)
    {boardId : Uuid} {actor : Actor} {raw : ActivityFeedRequest} {since : Instant}
    (hsince : raw.sinceIso = some since) {events : List EnrichedActivityEvent}
    (hall : (transact (allActivity boardId actor raw) (worlds 0)).1 = .ok events) :
    events.Pairwise (fun a b => Older (eventPair a.toCardEvent) (eventPair b.toCardEvent)) ∧
      ∀ rounds, events.length < rounds →
        pagesOf (feedPage boardId actor raw) limits worlds rounds = some events := by
  have hrun : Runs (allActivity boardId actor raw) (worlds 0) events
      (transact (allActivity boardId actor raw) (worlds 0)).2 :=
    transact_ok_iff.mp (Prod.ext hall rfl)
  simp only [allActivity, feedSince, hsince, runs_bind_iff, runs_ofExcept_iff, runs_pure_iff] at hrun
  obtain ⟨_, _, ⟨hparse, rfl⟩, sinceIso, _, ⟨rfl, rfl⟩, _, w₁, haccess, policy, w₂, hpolicy, actorIds, w₃,
    hactors, rows, w₄, hlist, enrichedRows, w₅, henrich, feed, w₆, hnames, hfeed, -⟩ := hrun
  obtain rfl := haccess.of_readsOnly (readsOnly_requireBoardAccess _ _)
  obtain rfl := hpolicy.of_readsOnly (readsOnly_activePolicy _)
  obtain rfl := hactors.of_readsOnly (readsOnly_feedActorIds _ _)
  obtain ⟨hrows, rfl⟩ := runs_read_iff.mp hlist
  let filter : EventRepository.BoardSinceFilter :=
    { boardId, types := raw.type.map fun type => [type], cardId := raw.cardId,
      actorKind := raw.actorKind, actorIds }
  have hevents : events = (activityOf s sinceIso filter).map (named s) := by
    obtain ⟨henriched, hworld⟩ := Runs.unique henrich (runs_enrichMcpActors rows)
    obtain ⟨users, hresolved⟩ := runs_resolveActivityNames (w := w₅) enrichedRows none
    obtain ⟨hnamed, -⟩ := Runs.unique hnames hresolved
    simp only [Option.all_none, Bool.and_true, limited] at hrows
    rw [hfeed, hnamed, henriched, hrows, List.map_map, hworld, hworlds 0]
    rfl
  subst hevents
  have hsorted := activityOf_older s sinceIso filter
  refine ⟨List.pairwise_map.mpr (by simpa only [named, withNames, eventPair_enriched] using hsorted),
    fun rounds hrounds => ?_⟩
  rw [List.length_map] at hrounds
  refine pagesOf_eq uuidKey Older.irrefl Older.asymm hsorted hlimits (fun i cursor hcursor => ?_)
    hrounds
  have hstored : ∀ key ∈ cursor.map uuidKey, CursorKey.Stored key := by
    intro key hkey
    obtain ⟨pair, hpair, rfl⟩ := Option.mem_map.mp hkey
    obtain ⟨event, hevent, rfl⟩ := hcursor pair hpair
    exact hkeys.eventKey (mem_of_mem_activityOf hevent)
  have hstore : (worlds i).store = (worlds 0).store := by rw [hworlds, hworlds]
  have hitems := runs_listBoardSince sinceIso filter cursor (some ((limits i).getD 50 + 1)) (worlds i)
  rw [hworlds] at hitems
  have hpage : paginate ((after Older eventPair cursor (activityOf s sinceIso filter)).take
      ((limits i).getD 50 + 1)) ((limits i).getD 50) eventKey = .ok _ :=
    paginate_eq fun event hevent => (hkeys.eventKey (mem_of_mem_activityOf
      (List.mem_filter.mp (List.mem_of_mem_take hevent)).1)).valid
  let page := slice eventKey ((limits i).getD 50)
    ((after Older eventPair cursor (activityOf s sinceIso filter)).take ((limits i).getD 50 + 1))
  have henriched := runs_enrichMcpActors (w := worlds i) page.items
  obtain ⟨users, hresolved⟩ := runs_resolveActivityNames (w := worlds i)
    (page.items.map (enriched s)) (page.nextCursor.map tokenOf)
  rw [hworlds] at henriched hresolved
  have hrequest : ActivityFeedRequest.parse
      { raw with cursor := (cursor.map uuidKey).map tokenOf, limit := limits i } =
        .ok ((cursor.map uuidKey).map tokenOf, (limits i).getD 50) := by
    simp only [ActivityFeedRequest.parse, parse_tokens hstored (hlimits i), hparse]
    rfl
  refine ⟨worlds i, ?_⟩
  simp only [feedPage, eventsSince, feedSince, hsince, runs_bind_iff, runs_ofExcept_iff,
    runs_pure_iff]
  refine ⟨_, _, ⟨_, _, ⟨hrequest, rfl⟩, _, _, ⟨rfl, rfl⟩, _, _,
    ⟨mapM_decodeCursor fun key hkey => (hstored key hkey).valid, rfl⟩, _, _,
    haccess.of_store (readsOnly_requireBoardAccess _ _) hstore, _, _,
    hpolicy.of_store (readsOnly_activePolicy _) hstore, _, _,
    hactors.of_store (readsOnly_feedActorIds _ _) hstore, _, _, hitems, _, _, ⟨hpage, rfl⟩, _, _,
    henriched, hresolved⟩, ?_, rfl⟩
  rw [List.map_map]
  rfl

end feed

section complete

variable [Platform] [KeyTexts] {s : Store}

/-- While the store stays as it is, and for cards that are overdue while the day does, the pages
of each of the three listings end and put together are the listing, in its order. -/
theorem pages_complete (hkeys : KeysStored s) {worlds : ℕ → World Store Tick}
    (hworlds : ∀ i, (worlds i).store = s) {limits : ℕ → Option ℕ} (hlimits : LimitsAdmitted limits) :
    (∀ boardId actor raw cards, (raw.overdueResume = some true → ∀ i,
        utcDayOf (worlds i).peek.now = utcDayOf (worlds 0).peek.now) →
      (transact (allCards boardId actor raw) (worlds 0)).1 = .ok cards →
      cards.Pairwise (fun a b => Older (cardPair a) (cardPair b)) ∧
        ∀ rounds, cards.length < rounds →
          pagesOf (fun cursor limit => listCards boardId actor raw ⟨cursor, limit⟩) limits worlds
            rounds = some cards) ∧
    (∀ actor cardId type events,
      (transact (wholeHistory actor cardId type) (worlds 0)).1 = .ok events →
      events.Pairwise (fun a b => Newer (eventPair a.toCardEvent) (eventPair b.toCardEvent)) ∧
        ∀ rounds, events.length < rounds →
          pagesOf (fun cursor limit => cardHistory actor cardId ⟨⟨cursor, limit⟩, type⟩) limits
            worlds rounds = some events) ∧
    ∀ boardId actor raw sinceIso events, raw.sinceIso = some sinceIso →
      (transact (allActivity boardId actor raw) (worlds 0)).1 = .ok events →
      events.Pairwise (fun a b => Older (eventPair a.toCardEvent) (eventPair b.toCardEvent)) ∧
        ∀ rounds, events.length < rounds →
          pagesOf (feedPage boardId actor raw) limits worlds rounds = some events :=
  ⟨fun _ _ _ _ hday hall => pages_listCards hworlds hkeys hlimits hday hall,
    fun _ _ _ _ hall => pages_cardHistory hworlds hkeys hlimits hall,
    fun _ _ _ _ _ hsince hall => pages_eventsSince hworlds hkeys hlimits hsince hall⟩

end complete

section samples

theorem ok_of_length {ε α : Type} {x : Except ε (List α)} {n : ℕ}
    (h : x.toOption.map List.length = some n) : ∃ l, x = .ok l ∧ l.length = n := by
  cases x with
  | error e => cases h
  | ok l => exact ⟨l, rfl, by simpa [Except.toOption] using h⟩

/-- Four cards that wait for parts, expected back on the first day and on the second by turns. -/
def waitingOps : List Operation :=
  let create (title : String) : Operation :=
    .card (.create ⟨101, 102, .sqlite⟩ sampleActor { title } {})
  let move (cardId : ℕ) (prevCardId nextCardId : Option ℕ) (day : Day) : Operation :=
    .card (.move sampleActor cardId {
      toLane := "waiting_parts_vendor", prevCardId, nextCardId, waitingReason := some "parts"
      expectedResumeAt := some day, expectedVersion := 1 })
  [create "pump", move 1 none none 0, create "valve", move 2 (some 1) none 1,
    create "filter", move 3 (some 2) none 0, create "hose", move 4 none (some 1) 1]

def waitingStore : Store := (@run samplePlatform (freshlySeeded sampleTicks) waitingOps).store

theorem keysStored_waitingStore : @KeysStored sampleTexts waitingStore :=
  @KeysStored.mk sampleTexts _ (by decide +kernel) (by decide +kernel)

/-- The first request comes on the second day, the others on the third. -/
def overMidnight (i : ℕ) : World Store Tick :=
  ⟨waitingStore, fun n => ⟨(if i = 0 then 1 else 2) * CardService.dayMs, n, n⟩, 0⟩

/-- Pages of overdue cards that are read on both sides of midnight put together are neither the
list of the one day nor that of the other. -/
theorem pages_differ_over_midnight :
    let raw : ListCardsFilter := { overdueResume := some true }
    let listed (i : ℕ) := (transact (@allCards samplePlatform 101 sampleActor raw) (overMidnight i)).1
    (∀ i, (overMidnight i).store = waitingStore) ∧ @KeysStored sampleTexts waitingStore ∧
      (listed 0).toOption.map (·.map (·.id)) = some [3, 1] ∧
      (listed 1).toOption.map (·.map (·.id)) = some [4, 3, 2, 1] ∧
      (@pagesOf Card (fun cursor limit =>
        @listCards sampleTexts samplePlatform 101 sampleActor raw ⟨cursor, limit⟩)
          (fun _ => some 1) overMidnight 5).map (·.map (·.id)) = some [3, 2, 1] := by
  refine ⟨fun _ => rfl, keysStored_waitingStore, ?_, ?_, ?_⟩
  · decide +kernel
  · decide +kernel
  · decide +kernel

/-- Every listing of the sample, a card at a time. -/
theorem pages_complete_sample :
    let worlds (_ : ℕ) : World Store Tick := overMidnight 0
    (∃ cards, (transact (@allCards samplePlatform 101 sampleActor {}) (worlds 0)).1 = .ok cards ∧
      cards.length = 4 ∧ @pagesOf Card (fun cursor limit =>
        @listCards sampleTexts samplePlatform 101 sampleActor {} ⟨cursor, limit⟩)
          (fun _ => some 1) worlds 5 = some cards) ∧
    (∃ events, (transact (@wholeHistory sampleTexts sampleActor 1 none) (worlds 0)).1 = .ok events ∧
      events.length = 2 ∧ @pagesOf EnrichedCardEvent (fun cursor limit =>
        @cardHistory sampleTexts sampleActor 1 ⟨⟨cursor, limit⟩, none⟩)
          (fun _ => some 1) worlds 5 = some events) ∧
    ∃ events, (transact (@allActivity sampleTexts 101 sampleActor { sinceIso := some 0 })
        (worlds 0)).1 = .ok events ∧
      events.length = 8 ∧ @pagesOf EnrichedActivityEvent
        (@feedPage sampleTexts 101 sampleActor { sinceIso := some 0 })
          (fun _ => some 1) worlds 9 = some events := by
  intro worlds
  have hlimits : LimitsAdmitted fun _ => some 1 := by
    rintro i n ⟨⟩
    omega
  obtain ⟨hcards, hhistory, hfeed⟩ := @pages_complete samplePlatform sampleTexts waitingStore
    keysStored_waitingStore worlds (fun _ => rfl) _ hlimits
  obtain ⟨cards, hall, hcount⟩ := ok_of_length (n := 4)
    (x := (transact (@allCards samplePlatform 101 sampleActor {}) (worlds 0)).1) (by decide +kernel)
  obtain ⟨events, hall', hcount'⟩ := ok_of_length (n := 2)
    (x := (transact (@wholeHistory sampleTexts sampleActor 1 none) (worlds 0)).1) (by decide +kernel)
  obtain ⟨feed, hall'', hcount''⟩ := ok_of_length (n := 8)
    (x := (transact (@allActivity sampleTexts 101 sampleActor { sinceIso := some 0 })
      (worlds 0)).1) (by decide +kernel)
  refine ⟨⟨cards, hall, hcount, ?_⟩, ⟨events, hall', hcount', ?_⟩, feed, hall'', hcount'', ?_⟩
  · exact (hcards 101 sampleActor {} cards nofun hall).2 5 (by omega)
  · exact (hhistory sampleActor 1 none events hall').2 5 (by omega)
  · exact (hfeed 101 sampleActor _ 0 feed rfl hall'').2 9 (by omega)

end samples

end AiKanban.Invariants
