import AiKanban.Invariants.ExactPlaces
import AiKanban.Server.PositionRebalance
import AiKanban.Transactions.Snapshots

/-!
# The rebalance keeps the order

The job gives every active card of an outgrown lane a key after all the keys in use, one row at a
time. No write meets a key that another row still holds, and the order stays.
-/
namespace AiKanban.Invariants

open Domain Db Relational Services Server Transactions Effects

/-- Only positions of active cards differ. -/
structure Rekeyed (s s' : Store) : Prop where
  others : s' = { s with cards := s'.cards }
  rows : ∃ position : Card → String,
    s'.cards.rows = s.cards.rows.map (fun c => { c with position := position c }) ∧
      ∀ c ∈ s.cards.rows, c.archivedAt ≠ none → position c = c.position

/-- The keys that follow a key ascend. -/
def KeysFollow [Platform] : Prop :=
  ∀ last count keys, Platform.generateNKeysBetween last none count = .ok keys →
    keys.length = count ∧ keys.Pairwise (· < ·) ∧ ∀ key ∈ keys, ∀ a ∈ last, a < key

theorem Rekeyed.refl (s : Store) : Rekeyed s s where
  others := rfl
  rows := ⟨fun c => c.position, (List.map_id _).symm, fun _ _ _ => rfl⟩

theorem Rekeyed.trans {s s' s'' : Store} (h : Rekeyed s s') (h' : Rekeyed s' s'') :
    Rekeyed s s'' where
  others := by
    rw [h'.others, h.others]
  rows := by
    obtain ⟨position, hrows, harchived⟩ := h.rows
    obtain ⟨position', hrows', harchived'⟩ := h'.rows
    refine ⟨fun c => position' { c with position := position c }, ?_, ?_⟩
    · rw [hrows', hrows, List.map_map]
      rfl
    · intro c hc hnot
      have hmem : { c with position := position c } ∈ s'.cards.rows := by
        rw [hrows]
        exact List.mem_map_of_mem hc
      exact (harchived' _ hmem hnot).trans (harchived c hc hnot)

/-- A row refers to the same rows under its new key. -/
theorem Rekeyed.dangling {s s' : Store} (h : Rekeyed s s')
    (hdangling : ∃ c ∈ s'.cards.rows, HasTable.references s' c = false) :
    ∃ c ∈ s.cards.rows, HasTable.references s c = false := by
  obtain ⟨c', hc', href⟩ := hdangling
  obtain ⟨position, hrows, -⟩ := h.rows
  rw [hrows] at hc'
  obtain ⟨c, hc, rfl⟩ := List.mem_map.mp hc'
  rw [h.others] at href
  exact ⟨c, hc, href⟩

section writes

variable {w w' : World Store Tick} {card : Card} {key : String}

theorem runs_updateKey_iff (hcard : card ∈ w.store.cards.rows) :
    Runs (CardRepository.update card { card with position := key }) w () w' ↔
      w.store.cards.acceptsUpdate { card with position := key } = true ∧
        HasTable.references w.store card = true ∧
        w' = w.withStore { w.store with
          cards := w.store.cards.update { card with position := key } } := by
  unfold CardRepository.update
  rw [runs_updateRow_iff]
  have hfound : w.store.cards.find? card.id = some card := Table.find?_of_mem hcard
  constructor
  · rintro ⟨-, haccepts, href, rfl⟩
    exact ⟨haccepts, href, rfl⟩
  · rintro ⟨haccepts, href, rfl⟩
    exact ⟨⟨card, hfound⟩, haccepts, href, rfl⟩

/-- The last check of an update is that of its foreign keys. -/
theorem exec_update_dangling {base next row : Card}
    (hfound : w.store.cards.find? next.id = some row)
    (haccepts : w.store.cards.acceptsUpdate next = true)
    (href : HasTable.references w.store next = false) :
    exec (CardRepository.update base next) w = (.error danglingReference, w) := by
  have hkey : w.store.cards.find? (Row.key next) = some row := hfound
  unfold CardRepository.update updateRow Program.write exec
  simp [hkey, haccepts, href]

theorem rekeyed_update {s : Store} (hcard : card ∈ s.cards.rows) (hactive : card.archivedAt = none)
    (haccepts : s.cards.acceptsUpdate { card with position := key } = true) :
    Rekeyed s { s with cards := s.cards.update { card with position := key } } where
  others := rfl
  rows := by
    refine ⟨fun c => if c.id = card.id then key else c.position, ?_, ?_⟩
    · rw [Table.rows_update haccepts]
      refine List.map_congr_left fun c hc => ?_
      change (if c.id = card.id then { card with position := key } else c) = _
      by_cases hid : c.id = card.id
      · obtain rfl := Table.eq_of_key hc hcard hid
        simp
      · simp [hid]
    · intro c hc harchived
      have hid : c.id ≠ card.id := by
        intro hid
        obtain rfl := Table.eq_of_key hc hcard hid
        exact harchived hactive
      exact if_neg hid

/-- A key after all those of the lane stands against no constraint. -/
theorem acceptsUpdate_of_above {s : Store}
    (habove : ∀ c ∈ s.cards.rows, c.laneId = card.laneId → c.position < key) :
    s.cards.acceptsUpdate { card with position := key } = true := by
  refine List.all_eq_true.mpr fun c hc => ?_
  change (decide (c.id = card.id) || !(decide (card.id = c.id) ||
    decide ((card.laneId, key) = (c.laneId, c.position)))) = true
  by_cases hid : c.id = card.id
  · simp [hid]
  · have hne : ¬ (card.laneId = c.laneId ∧ key = c.position) := by
      rintro ⟨hlane, rfl⟩
      exact Std.lt_irrefl (habove c hc hlane.symm)
    simp [hid, Ne.symm hid, hne]

end writes

/-- Active cards of a lane, as they are stored, that are still to be given their keys: they ascend,
and every one is after all the keys the lane has in use. -/
structure ToRekey (s : Store) (laneId : Uuid) (cards : List Card) (keys : List String) : Prop where
  stored : ∀ c ∈ cards, c ∈ s.cards.rows ∧ c.laneId = laneId ∧ c.archivedAt = none
  ids : (cards.map (·.id)).Nodup
  length : keys.length = cards.length
  ascending : keys.Pairwise (· < ·)
  above : ∀ c ∈ s.cards.rows, c.laneId = laneId → ∀ key ∈ keys, c.position < key

section loops

variable {w w' : World Store Tick} {laneId : Uuid} {card : Card} {cards : List Card}
  {key : String} {keys : List String}

theorem ToRekey.accepts (h : ToRekey w.store laneId (card :: cards) (key :: keys)) :
    w.store.cards.acceptsUpdate { card with position := key } = true := by
  obtain ⟨-, hlane, -⟩ := h.stored card (List.mem_cons_self ..)
  apply acceptsUpdate_of_above
  intro c hc hsame
  exact h.above c hc (hsame.trans hlane) key (List.mem_cons_self ..)

/-- What is left to do after one write. -/
theorem ToRekey.step (h : ToRekey w.store laneId (card :: cards) (key :: keys)) :
    ToRekey { w.store with cards := w.store.cards.update { card with position := key } } laneId
      cards keys := by
  obtain ⟨hnotin, hids⟩ := List.nodup_cons.mp h.ids
  obtain ⟨hfirst, hascending⟩ := List.pairwise_cons.mp h.ascending
  refine ⟨?_, hids, by simpa using h.length, hascending, ?_⟩
  · intro c hc
    obtain ⟨hmem, hlane, hactive⟩ := h.stored c (List.mem_cons_of_mem _ hc)
    refine ⟨Table.mem_update_of_ne hmem ?_, hlane, hactive⟩
    intro hid
    exact hnotin (List.mem_map.mpr ⟨c, hc, hid⟩)
  · intro c hc hlane k hk
    rcases Table.mem_update hc with hold | rfl
    · exact h.above c hold hlane k (List.mem_cons_of_mem _ hk)
    · exact hfirst k hk

/-- Cards with their new keys. -/
def givenKeys (cards : List Card) (keys : List String) : List Card :=
  List.zipWith (fun card key => { card with position := key }) cards keys

theorem givenKeys_cons : givenKeys (card :: cards) (key :: keys) =
    { card with position := key } :: givenKeys cards keys := rfl

theorem givenKeys_spec (hlength : keys.length = cards.length) :
    (givenKeys cards keys).map (·.id) = cards.map (·.id) ∧
      (givenKeys cards keys).map (·.position) = keys ∧
      ∀ c ∈ givenKeys cards keys, ∃ card ∈ cards, ∃ key, c = { card with position := key } := by
  induction cards generalizing keys with
  | nil =>
    obtain rfl := List.length_eq_zero_iff.mp hlength
    exact ⟨rfl, rfl, fun c hc => nomatch hc⟩
  | cons card cards ih =>
    cases keys with
    | nil => cases hlength
    | cons key keys =>
      obtain ⟨hids, hpositions, hmem⟩ := ih (by simpa using hlength)
      refine ⟨congrArg (card.id :: ·) hids, congrArg (key :: ·) hpositions, fun c hc => ?_⟩
      rcases List.mem_cons.mp hc with rfl | hc
      · exact ⟨card, List.mem_cons_self .., key, rfl⟩
      · obtain ⟨card', hcard', hkey⟩ := hmem c hc
        exact ⟨card', List.mem_cons_of_mem _ hcard', hkey⟩

/-- The rows after all the writes. -/
theorem mem_cards_of_rekey (h : ToRekey w.store laneId cards keys)
    (hruns : Runs (rekey cards keys) w () w') (c : Card) :
    c ∈ w'.store.cards.rows ↔
      c ∈ givenKeys cards keys ∨ c ∈ w.store.cards.rows ∧ c.id ∉ cards.map (·.id) := by
  induction cards generalizing keys w with
  | nil =>
    obtain ⟨-, rfl⟩ := runs_progPure_iff.mp hruns
    simp [givenKeys]
  | cons card cards ih =>
    cases keys with
    | nil => exact absurd hruns not_runs_throw
    | cons key keys =>
      obtain ⟨hcard, -, -⟩ := h.stored card (List.mem_cons_self ..)
      obtain ⟨_, w₁, hwrite, hrest⟩ := runs_bind_iff.mp hruns
      obtain ⟨haccepts, -, rfl⟩ := (runs_updateKey_iff hcard).mp hwrite
      have hnotin := (List.nodup_cons.mp h.ids).1
      rw [ih h.step hrest, givenKeys_cons, List.mem_cons, List.map_cons, List.mem_cons,
        not_or, World.withStore_store]
      have hupdated : c ∈ (w.store.cards.update { card with position := key }).rows ↔
          c = { card with position := key } ∨ c ∈ w.store.cards.rows ∧ c.id ≠ card.id := by
        rw [Table.rows_update haccepts, List.mem_map]
        constructor
        · rintro ⟨x, hx, hsame⟩
          by_cases hid : x.id = card.id
          · exact .inl (hsame.symm.trans (if_pos hid))
          · obtain rfl : c = x := hsame.symm.trans (if_neg hid)
            exact .inr ⟨hx, hid⟩
        · rintro (rfl | ⟨hc, hid⟩)
          · exact ⟨card, hcard, if_pos rfl⟩
          · exact ⟨c, hc, if_neg hid⟩
      rw [hupdated]
      constructor
      · rintro (hlater | ⟨rfl | ⟨hc, hid⟩, hother⟩)
        · exact .inl (.inr hlater)
        · exact .inl (.inl rfl)
        · exact .inr ⟨hc, hid, hother⟩
      · rintro ((rfl | hlater) | ⟨hc, hid, hother⟩)
        · exact .inr ⟨.inl rfl, hnotin⟩
        · exact .inl hlater
        · exact .inr ⟨.inr ⟨hc, hid⟩, hother⟩

/-- Within the loop only positions of active cards differ. -/
theorem rekeyed_of_mem_snapshots (h : ToRekey w.store laneId cards keys) {s : Store}
    (hs : s ∈ (rekey cards keys).snapshots w) : Rekeyed w.store s := by
  induction cards generalizing keys w with
  | nil => cases hs
  | cons card cards ih =>
    cases keys with
    | nil => cases hs
    | cons key keys =>
      obtain ⟨hcard, -, hactive⟩ := h.stored card (List.mem_cons_self ..)
      have hfirst := rekeyed_update hcard hactive h.accepts
      rcases Program.mem_snapshots_bind.mp hs with hs | ⟨_, w₁, hwrite, hs⟩
      · obtain ⟨-, -, hsame⟩ := (runs_updateKey_iff hcard).mp (Program.mem_snapshots_write.mp hs)
        rwa [show s = _ from congrArg World.store hsame]
      · obtain ⟨-, -, rfl⟩ := (runs_updateKey_iff hcard).mp hwrite
        exact hfirst.trans (ih h.step hs)

/-- No write of the loop is refused for its key. -/
theorem rekey_error (h : ToRekey w.store laneId cards keys) {e : DomainError}
    (herror : exec (rekey cards keys) w = (.error e, w')) :
    e = danglingReference ∧ ∃ c ∈ w.store.cards.rows, HasTable.references w.store c = false := by
  induction cards generalizing keys w with
  | nil => cases herror
  | cons card cards ih =>
    cases keys with
    | nil => cases h.length
    | cons key keys =>
      obtain ⟨hcard, -, hactive⟩ := h.stored card (List.mem_cons_self ..)
      change exec ((CardRepository.update card { card with position := key }).bind fun _ =>
        rekey cards keys) w = _ at herror
      rw [exec_bind] at herror
      cases href : (HasTable.references w.store card : Bool) with
      | false =>
        have hfound : w.store.cards.find? { card with position := key }.id = some card :=
          Table.find?_of_mem hcard
        rw [exec_update_dangling hfound h.accepts href] at herror
        cases herror
        exact ⟨rfl, card, hcard, href⟩
      | true =>
        rw [show exec _ w = _ from (runs_updateKey_iff hcard).mpr ⟨h.accepts, href, rfl⟩] at herror
        obtain ⟨he, hdangling⟩ := ih h.step herror
        exact ⟨he, (rekeyed_update hcard hactive h.accepts).dangling hdangling⟩

end loops

/-- One store is as the other but for positions, and in the same order. -/
structure InOrder (s s' : Store) : Prop where
  rekeyed : Rekeyed s s'
  order : ∀ laneId, (BoardQueryService.activeRows s' laneId).map (·.id) =
    (BoardQueryService.activeRows s laneId).map (·.id)

theorem InOrder.trans {s s' s'' : Store} (h : InOrder s s') (h' : InOrder s' s'') :
    InOrder s s'' :=
  ⟨h.rekeyed.trans h'.rekeyed, fun laneId => (h'.order laneId).trans (h.order laneId)⟩

theorem ok_of_mapError {ε ε' α : Type} {value : Except ε α} {f : ε → ε'} {a : α}
    (h : value.mapError f = .ok a) : value = .ok a := by
  cases value with
  | error e => cases h
  | ok b => exact congrArg Except.ok (Except.ok.inj h)

section lanes

variable {w w' : World Store Tick} {lane : Lane}

/-- The active cards of a lane are in the same order when their rows are given ascending keys. -/
theorem activeRows_of_rekey {keys : List String}
    (h : ToRekey w.store lane.id (BoardQueryService.activeRows w.store lane.id) keys)
    (hruns : Runs (rekey (BoardQueryService.activeRows w.store lane.id) keys) w () w')
    (laneId : Uuid) :
    (BoardQueryService.activeRows w'.store laneId).map (·.id) =
      (BoardQueryService.activeRows w.store laneId).map (·.id) := by
  set cards := BoardQueryService.activeRows w.store lane.id with hcards
  have hrows := mem_cards_of_rekey h hruns
  have hactive : ∀ c, c ∈ cards ↔
      c ∈ w.store.cards.rows ∧ c.laneId = lane.id ∧ c.archivedAt.isNone = true := by
    intro c
    rw [hcards, BoardQueryService.activeRows, List.mem_filter, mem_laneRows, and_assoc]
  obtain ⟨hids, hpositions, hgiven⟩ := givenKeys_spec h.length
  by_cases hlane : laneId = lane.id
  · subst hlane
    have hnow : BoardQueryService.activeRows w'.store lane.id = givenKeys cards keys := by
      apply laneRows_filter_eq
      · have hascending := h.ascending
        rw [← hpositions] at hascending
        exact List.pairwise_map.mp hascending
      · intro c
        rw [hrows]
        constructor
        · intro hc
          obtain ⟨card, hcard, key, rfl⟩ := hgiven c hc
          obtain ⟨-, hin, hopen⟩ := (hactive card).mp hcard
          exact ⟨.inl hc, hin, hopen⟩
        · rintro ⟨hc | ⟨hc, hother⟩, hin, hopen⟩
          · exact hc
          · exact absurd (List.mem_map_of_mem ((hactive c).mpr ⟨hc, hin, hopen⟩)) hother
    rw [hnow, hids]
  · refine congrArg (List.map _) ?_
    apply laneRows_filter_eq
    · exact laneRows_ascending.filter _
    · intro c
      rw [hrows, BoardQueryService.activeRows, List.mem_filter, mem_laneRows, and_assoc]
      constructor
      · rintro ⟨hc, hin, hopen⟩
        refine ⟨.inr ⟨hc, ?_⟩, hin, hopen⟩
        intro hid
        obtain ⟨card, hcard, hsame⟩ := List.mem_map.mp hid
        obtain ⟨hmem, hhere, -⟩ := (hactive card).mp hcard
        obtain rfl := Table.eq_of_key hmem hc hsame
        exact hlane (hin.symm.trans hhere)
      · rintro ⟨hc | ⟨hc, -⟩, hin, hopen⟩
        · obtain ⟨card, hcard, key, rfl⟩ := hgiven c hc
          obtain ⟨-, hhere, -⟩ := (hactive card).mp hcard
          exact absurd (hin.symm.trans hhere) hlane
        · exact ⟨hc, hin, hopen⟩

variable [Platform]

/-- What the job finds in a lane it rewrites. -/
theorem toRekey_of_keys (hkeys : KeysFollow) {keys : List String}
    (hgenerated : Platform.generateNKeysBetween
      ((CardRepository.laneRows w.store lane.id).getLast?.map (·.position)) none
      (BoardQueryService.activeRows w.store lane.id).length = .ok keys) :
    ToRekey w.store lane.id (BoardQueryService.activeRows w.store lane.id) keys := by
  obtain ⟨hlength, hascending, hafter⟩ := hkeys _ _ _ hgenerated
  refine ⟨?_, ?_, hlength, hascending, ?_⟩
  · intro c hc
    obtain ⟨hrow, hopen⟩ := List.mem_filter.mp hc
    obtain ⟨hmem, hin⟩ := mem_laneRows.mp hrow
    exact ⟨hmem, hin, Option.isNone_iff_eq_none.mp hopen⟩
  · have hnodup : (BoardQueryService.activeRows w.store lane.id).Nodup := nodup_laneRows.filter _
    refine List.pairwise_map.mpr (hnodup.imp_of_mem ?_)
    intro a b ha hb hne hsame
    obtain ⟨ha, -⟩ := mem_laneRows.mp (List.mem_filter.mp ha).1
    obtain ⟨hb, -⟩ := mem_laneRows.mp (List.mem_filter.mp hb).1
    exact hne (Table.eq_of_key ha hb hsame)
  · intro c hc hin key hkey
    exact position_lt_of_getLast laneRows_ascending (hafter key hkey) c (mem_laneRows.mpr ⟨hc, hin⟩)

/-- The keys the job asks for. -/
def freshKeys (s : Store) (lane : Lane) : Except String (List String) :=
  Platform.generateNKeysBetween
    ((CardRepository.laneRows s lane.id).getLast?.map (·.position)) none
    (BoardQueryService.activeRows s lane.id).length

def outgrown (s : Store) (lane : Lane) : Bool :=
  (BoardQueryService.activeRows s lane.id).any fun card =>
    decide (rebalanceMaxKeyLength < utf16Length card.position)

/-- What is left of the unit of work of a lane after its reads. -/
def rekeyLane (s : Store) (lane : Lane) : Tx Bool :=
  if outgrown s lane then do
    let keys ← .ofExcept ((freshKeys s lane).mapError .failure)
    rekey (BoardQueryService.activeRows s lane.id) keys
    return true
  else return false

theorem exec_rebalanceLane :
    exec (rebalanceLane lane) w = exec (rekeyLane w.store lane) w := by
  unfold rekeyLane outgrown
  cases hlong : (BoardQueryService.activeRows w.store lane.id).any fun card =>
    decide (rebalanceMaxKeyLength < utf16Length card.position)
  all_goals
    change exec (if (!(BoardQueryService.activeRows w.store lane.id).any fun card =>
      decide (rebalanceMaxKeyLength < utf16Length card.position)) = true then _ else _) _ = _
    rw [hlong]
    rfl

theorem mem_snapshots_rebalanceLane {s : Store} (h : s ∈ (rebalanceLane lane).snapshots w) :
    s = w.store ∨ ∃ keys, freshKeys w.store lane = .ok keys ∧
      s ∈ (rekey (BoardQueryService.activeRows w.store lane.id) keys).snapshots w := by
  rcases Program.mem_snapshots_bind.mp h with hs | ⟨cards, w, hcards, hs⟩
  · exact .inl ((Program.readsOnly_read _).snapshot_eq hs)
  obtain ⟨rfl, rfl⟩ := runs_read_iff.mp hcards
  split_ifs at hs
  · cases hs
  rcases Program.mem_snapshots_bind.mp hs with hs | ⟨last, w, hlast, hs⟩
  · exact .inl ((Program.readsOnly_read _).snapshot_eq hs)
  obtain ⟨rfl, rfl⟩ := runs_read_iff.mp hlast
  rcases Program.mem_snapshots_bind.mp hs with hs | ⟨keys, w, hkeys, hs⟩
  · exact .inl ((Program.readsOnly_ofExcept _).snapshot_eq hs)
  obtain ⟨hkeys, rfl⟩ := runs_ofExcept_iff.mp hkeys
  rcases Program.mem_snapshots_bind.mp hs with hs | ⟨_, _, -, hs⟩
  · exact .inr ⟨keys, ok_of_mapError hkeys, hs⟩
  · cases hs

/-- The key generator refused, or a row has lost what it refers to. -/
def RefusedBy (s : Store) (e : DomainError) : Prop :=
  (∃ last count message, Platform.generateNKeysBetween last none count = .error message ∧
      e = .failure message) ∨
    e = danglingReference ∧ ∃ c ∈ s.cards.rows, HasTable.references s c = false

/-- The unit of work of a lane keeps the order, whatever the lanes are like. -/
theorem inOrder_of_lane (hkeys : KeysFollow) {rebalanced : Bool}
    (h : Runs (rebalanceLane lane) w rebalanced w') : InOrder w.store w'.store := by
  unfold Runs at h
  rw [exec_rebalanceLane] at h
  change Runs (rekeyLane w.store lane) w rebalanced w' at h
  unfold rekeyLane at h
  split_ifs at h
  · simp only [runs_bind_iff, runs_ofExcept_iff, runs_pure_iff] at h
    obtain ⟨keys, w, ⟨hfresh, rfl⟩, ⟨⟩, w₁, hrekey, -, rfl⟩ := h
    have hto := toRekey_of_keys hkeys (ok_of_mapError hfresh)
    refine ⟨?_, activeRows_of_rekey hto hrekey⟩
    rcases hrekey.store_mem_snapshots with hsame | hlast
    · rw [hsame]
      exact .refl _
    · exact rekeyed_of_mem_snapshots hto hlast
  · obtain ⟨-, rfl⟩ := runs_pure_iff.mp h
    exact ⟨.refl _, fun _ => rfl⟩

/-- It is refused for no key that is in use. -/
theorem refused_of_lane (hkeys : KeysFollow) {e : DomainError}
    (h : exec (rebalanceLane lane) w = (.error e, w')) : RefusedBy w.store e := by
  rw [exec_rebalanceLane] at h
  unfold rekeyLane at h
  split_ifs at h
  · cases hfresh : freshKeys w.store lane with
    | error message =>
      rw [hfresh] at h
      cases h
      exact .inl ⟨_, _, message, hfresh, rfl⟩
    | ok keys =>
      rw [hfresh] at h
      change exec ((rekey _ keys).bind fun _ => return true) w = _ at h
      rw [exec_bind] at h
      rcases hrekey : exec (rekey (BoardQueryService.activeRows w.store lane.id) keys) w with ⟨e | u, w₁⟩
      · rw [hrekey] at h
        cases h
        exact .inr (rekey_error (toRekey_of_keys hkeys hfresh) hrekey)
      · rw [hrekey] at h
        cases h
  · cases h

/-- Within it only positions of active cards differ. -/
theorem rekeyed_of_lane (hkeys : KeysFollow) {s : Store}
    (h : s ∈ (rebalanceLane lane).snapshots w) : Rekeyed w.store s := by
  rcases mem_snapshots_rebalanceLane h with rfl | ⟨keys, hfresh, hs⟩
  · exact .refl _
  · exact rekeyed_of_mem_snapshots (toRekey_of_keys hkeys hfresh) hs

end lanes

section job

variable [Platform]

/-- The stores the job goes through, one after each statement of each unit of work. -/
def rebalanceSnapshots : List Lane → World Store Tick → List Store
  | [], _ => []
  | lane :: lanes, w => (rebalanceLane lane).snapshots w ++
      match transact (rebalanceLane lane) w with
      | (.error _, _) => []
      | (.ok _, w') => rebalanceSnapshots lanes w'

theorem RefusedBy.of_rekeyed {s s' : Store} {e : DomainError} (h : Rekeyed s s')
    (hrefused : RefusedBy s' e) : RefusedBy s e := by
  rcases hrefused with hgenerator | ⟨he, hdangling⟩
  · exact .inl hgenerator
  · exact .inr ⟨he, h.dangling hdangling⟩

theorem rebalanceEach_spec (hkeys : KeysFollow) {lanes : List Lane} {count : ℕ}
    {w w' : World Store Tick} {outcome : Except DomainError ℕ}
    (h : rebalanceEach lanes count w = (outcome, w')) :
    InOrder w.store w'.store ∧ (∀ s ∈ rebalanceSnapshots lanes w, Rekeyed w.store s) ∧
      ∀ e, outcome = .error e → RefusedBy w.store e := by
  induction lanes generalizing count w with
  | nil =>
    cases h
    refine ⟨⟨.refl _, fun _ => rfl⟩, ?_, ?_⟩
    · intro s hs
      cases hs
    · intro e he
      cases he
  | cons lane lanes ih =>
    unfold rebalanceEach at h
    unfold rebalanceSnapshots
    rcases ht : transact (rebalanceLane lane) w with ⟨e | rebalanced, w₁⟩
    · rw [ht] at h
      cases h
      have hstore := transact_error ht
      refine ⟨?_, ?_, ?_⟩
      · rw [hstore]
        exact ⟨.refl _, fun _ => rfl⟩
      · intro s hs
        exact rekeyed_of_lane hkeys (by simpa using hs)
      · rintro _ ⟨⟩
        unfold transact at ht
        rcases he : exec (rebalanceLane lane) w with ⟨e' | b, w₂⟩
        · rw [he] at ht
          cases ht
          exact refused_of_lane hkeys he
        · rw [he] at ht
          cases ht
    · rw [ht] at h
      have hlane := inOrder_of_lane hkeys (transact_ok_iff.mp ht)
      obtain ⟨hrest, hsnapshots, hrefused⟩ := ih h
      refine ⟨hlane.trans hrest, ?_, fun e he => (hrefused e he).of_rekeyed hlane.rekeyed⟩
      intro s hs
      rcases List.mem_append.mp hs with hs | hs
      · exact rekeyed_of_lane hkeys hs
      · exact hlane.rekeyed.trans (hsnapshots s hs)

/-- The job leaves the active cards of each lane in their order and changes nothing but their
positions. After every statement the positions of each lane are distinct, and no write is refused
for its position. -/
theorem rebalance_in_order (hkeys : KeysFollow) (boardId : Uuid) (w w' : World Store Tick)
    (outcome : Except DomainError ℕ) (h : runPositionRebalance boardId w = (outcome, w')) :
    InOrder w.store w'.store ∧
      (∀ s ∈ rebalanceSnapshots (LaneRepository.boardLanes w.store boardId) w,
        Rekeyed w.store s ∧
          ∀ laneId, ((CardRepository.laneRows s laneId).map (·.position)).Nodup) ∧
      ∀ e, outcome = .error e → RefusedBy w.store e := by
  obtain ⟨horder, hsnapshots, hrefused⟩ := rebalanceEach_spec hkeys h
  exact ⟨horder, fun s hs => ⟨hsnapshots s hs, fun _ => nodup_positions⟩, hrefused⟩

end job
/-- A key that many insertions at one place have made long. -/
def longKey : String := "a0" ++ String.ofList (List.replicate 99 'V')

/-- The keys after it. -/
@[reducible] def rebalancePlatform : Platform :=
  { samplePlatform with
    generateNKeysBetween := fun last next count =>
      if last = some longKey ∧ next = none ∧ count = 2 then .ok ["a1", "a2"]
      else .error "outside the sample" }

/-- The lower one of two cards has the long key. -/
def outgrownWorld : World Store Tick :=
  match twoCards.store.cards.find? 1 with
  | none => twoCards
  | some card => twoCards.withStore { twoCards.store with
      cards := twoCards.store.cards.update { card with position := longKey } }

theorem keysFollow_rebalance : @KeysFollow rebalancePlatform := by
  intro last count keys h
  change (if last = some longKey ∧ (none : Option String) = none ∧ count = 2 then
    Except.ok ["a1", "a2"] else .error "outside the sample") = .ok keys at h
  split_ifs at h with hinput
  obtain ⟨rfl, -, rfl⟩ := hinput
  cases h
  decide +kernel

theorem rebalance_in_order_outgrown :
    InOrder outgrownWorld.store
        (@runPositionRebalance rebalancePlatform 101 outgrownWorld).2.store ∧
      ((@runPositionRebalance rebalancePlatform 101 outgrownWorld).2.store.cards.rows.map
        fun c => (c.id, c.position)) = [(1, "a2"), (2, "a1")] := by
  refine ⟨?_, by decide +kernel⟩
  exact (@rebalance_in_order rebalancePlatform keysFollow_rebalance 101 outgrownWorld _ _ rfl).1

end AiKanban.Invariants
