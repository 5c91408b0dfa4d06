import AiKanban.Invariants.Pages
import AiKanban.Services.ActivityTexts

/-!
# The lower bound of the activity feed

The bound is applied to texts. A text without all of the three digits of the milliseconds, and one
with more of them, is not always ordered against the text of an event's time as their instants are.
-/
namespace AiKanban.Invariants

open Application Db Domain Effects Formats Pagination Policy Relational Services Transactions
open BoardQueryService

/-- Every event's time is one of the years that are written with four digits. -/
def FourDigitTimes (s : Store) : Prop := ∀ e ∈ s.cardEvents.rows, FourDigitYear e.createdAt

/-- The event is one of a card of the board. -/
def OfBoard (s : Store) (boardId : Uuid) (e : CardEvent) : Prop :=
  ∃ card ∈ s.cards.rows, card.id = e.cardId ∧ card.boardId = boardId

/-- The actor sees the board and everyone's activity on it. -/
def ViewsAllActivity (boardId : Uuid) (actor : Actor) (w : World Store Tick) : Prop :=
  (∃ board, Runs (requireBoardAccess actor boardId) w board w) ∧
    ∃ policy, Runs (activePolicy boardId) w policy w ∧ hasPermission actor .viewAllActivity policy = true

section texts

variable {w : World Store Tick} {text : String} {since : IsoDateTime}

theorem parse_since (hsince : readIso text.toList = some since) {raw : ActivityFeedTexts}
    (htext : raw.sinceIso = some text) (sinceIso : Instant) :
    raw.parse = (raw.since sinceIso).parse := by
  unfold ActivityFeedTexts.parse ActivityFeedRequest.parse
  rw [htext]
  simp only [whenPresent, hsince, Option.isSome_some]
  rfl

theorem matchesText_eq (hsince : readIso text.toList = some since)
    (filter : EventRepository.BoardSinceFilter) (s : Store) {e : CardEvent} (he : FourDigitYear e.createdAt) :
    filter.matchesText text s e = filter.matches since.firstMilli s e := by
  unfold EventRepository.BoardSinceFilter.matchesText EventRepository.BoardSinceFilter.matches
  simp only [toISOString_not_lt_iff hsince he]

theorem exec_bind_congr {α β : Type} {p : Tx α} (hp : p.ReadsOnly) {f g : α → Tx β}
    (h : ∀ a, exec (f a) w = exec (g a) w) : exec (p >>= f) w = exec (p >>= g) w := by
  change exec (p.bind f) w = exec (p.bind g) w
  rw [exec_bind, exec_bind]
  cases hrun : exec p w with
  | mk result w' =>
    cases result with
    | error e => rfl
    | ok a =>
      obtain rfl := Runs.of_readsOnly (a := a) hrun hp
      exact h a

variable [KeyTexts]

theorem exec_listBoardSinceText (hsince : readIso text.toList = some since)
    (htimes : FourDigitTimes w.store) (filter : EventRepository.BoardSinceFilter)
    (after : Option CursorKey) (limit : Option ℕ) :
    exec (EventRepository.listBoardSinceText text filter after limit) w =
      exec (EventRepository.listBoardSince since.firstMilli filter after limit) w := by
  have hfilter : (w.store.cardEvents.rows.filter fun e => filter.matchesText text w.store e &&
        after.all fun key => olderThanUuid key e.createdAt e.id) =
      w.store.cardEvents.rows.filter fun e => filter.matches since.firstMilli w.store e &&
        after.all fun key => olderThanUuid key e.createdAt e.id := by
    apply List.filter_congr
    intro e he
    rw [matchesText_eq hsince filter w.store (htimes e he)]
  simp only [EventRepository.listBoardSinceText, EventRepository.listBoardSince, Program.read, exec,
    hfilter]

/-- The feed over texts is the feed from the first millisecond whose text is not behind the bound. -/
theorem exec_eventsSinceText (hsince : readIso text.toList = some since)
    (htimes : FourDigitTimes w.store) (boardId : Uuid) (actor : Actor) {raw : ActivityFeedTexts}
    (htext : raw.sinceIso = some text) :
    exec (eventsSinceText boardId actor raw) w =
      exec (eventsSince boardId actor (raw.since since.firstMilli)) w := by
  unfold eventsSinceText eventsSince feedSinceText feedSince
  rw [parse_since hsince htext since.firstMilli, htext]
  apply exec_bind_congr (Program.readsOnly_ofExcept _)
  rintro ⟨cursor, limit⟩
  apply exec_bind_congr (Program.readsOnly_ofExcept _)
  intro after
  apply exec_bind_congr (readsOnly_requireBoardAccess _ _)
  intro _
  apply exec_bind_congr (readsOnly_activePolicy _)
  intro policy
  apply exec_bind_congr (readsOnly_feedActorIds _ _)
  intro actorIds
  have hlist := exec_listBoardSinceText hsince htimes
    ⟨boardId, raw.type.map fun type => [type], raw.cardId, raw.actorKind, actorIds⟩ after (some (limit + 1))
  change exec (Program.bind _ _) w = exec (Program.bind _ _) w
  rw [exec_bind, exec_bind, hlist]
  rfl

/-- A page of the feed over texts, without the users beside it. -/
def feedPageText (boardId : Uuid) (actor : Actor) (raw : ActivityFeedTexts) (cursor : Option String)
    (limit : Option ℕ) : Tx (Page EnrichedActivityEvent String) := do
  let feed ← eventsSinceText boardId actor { raw with cursor, limit }
  return ⟨feed.items, feed.nextCursor⟩

theorem transact_feedPageText (hsince : readIso text.toList = some since)
    (htimes : FourDigitTimes w.store) (boardId : Uuid) (actor : Actor) {raw : ActivityFeedTexts}
    (htext : raw.sinceIso = some text) (cursor : Option String) (limit : Option ℕ) :
    transact (feedPageText boardId actor raw cursor limit) w =
      transact (feedPage boardId actor (raw.since since.firstMilli) cursor limit) w := by
  have hfeed : exec (eventsSinceText boardId actor { raw with cursor, limit }) w = _ :=
    exec_eventsSinceText hsince htimes boardId actor htext
  have hpage : exec (feedPageText boardId actor raw cursor limit) w =
      exec (feedPage boardId actor (raw.since since.firstMilli) cursor limit) w := by
    change exec (Program.bind _ _) w = exec (Program.bind _ _) w
    rw [exec_bind, exec_bind, hfeed]
    rfl
  unfold transact
  rw [hpage]

theorem pagesOf_feedPageText (hsince : readIso text.toList = some since) {s : Store}
    (htimes : FourDigitTimes s) {worlds : ℕ → World Store Tick} (hworlds : ∀ i, (worlds i).store = s)
    (boardId : Uuid) (actor : Actor) {raw : ActivityFeedTexts} (htext : raw.sinceIso = some text)
    (limits : ℕ → Option ℕ) (rounds : ℕ) :
    pagesOf (feedPageText boardId actor raw) limits worlds rounds =
      pagesOf (feedPage boardId actor (raw.since since.firstMilli)) limits worlds rounds := by
  have hpages : (fun i cursor =>
        (transact (feedPageText boardId actor raw cursor (limits i)) (worlds i)).1.toOption) =
      fun i cursor => (transact (feedPage boardId actor (raw.since since.firstMilli) cursor (limits i))
        (worlds i)).1.toOption := by
    funext i cursor
    rw [transact_feedPageText hsince (by rwa [hworlds i]) boardId actor htext]
  unfold pagesOf
  rw [hpages]

end texts

section bound

variable {s : Store} {boardId : Uuid} {actor : Actor}

theorem mem_activityOf_iff {sinceIso : Instant} {e : CardEvent} :
    e ∈ activityOf s sinceIso { boardId } ↔
      e ∈ s.cardEvents.rows ∧ sinceIso ≤ e.createdAt ∧ OfBoard s boardId e := by
  have hmatches : ({ boardId } : EventRepository.BoardSinceFilter).matches sinceIso s e = true ↔
      sinceIso ≤ e.createdAt ∧ OfBoard s boardId e := by
    simp [EventRepository.BoardSinceFilter.matches, OfBoard]
  rw [activityOf, mem_newestFirst, List.mem_filter, hmatches]

theorem named_id (e : CardEvent) : (named s e).id = e.id := by
  have hpair := eventPair_enriched (s := s) e
  exact congrArg Prod.snd hpair

/-- An event is listed when its time is not before the bound's first millisecond. -/
theorem listed_iff {sinceIso : Instant} {e : CardEvent} (he : e ∈ s.cardEvents.rows)
    (hboard : OfBoard s boardId e) :
    (∃ shown ∈ (activityOf s sinceIso { boardId }).map (named s), shown.id = e.id) ↔
      sinceIso ≤ e.createdAt := by
  constructor
  · rintro ⟨shown, hshown, hid⟩
    obtain ⟨e', he', rfl⟩ := List.mem_map.mp hshown
    obtain ⟨hmem, hle, -⟩ := mem_activityOf_iff.mp he'
    rw [named_id] at hid
    obtain rfl : e' = e := Table.eq_of_key hmem he hid
    exact hle
  · intro hle
    exact ⟨named s e, List.mem_map_of_mem (mem_activityOf_iff.mpr ⟨he, hle, hboard⟩), named_id e⟩

variable [KeyTexts]

/-- The activity of everyone, without pages. -/
theorem transact_allActivity {w : World Store Tick} (hviews : ViewsAllActivity boardId actor w)
    (sinceIso : Instant) :
    (transact (allActivity boardId actor { sinceIso := some sinceIso }) w).1 =
      .ok ((activityOf w.store sinceIso { boardId }).map (named w.store)) := by
  obtain ⟨⟨board, haccess⟩, policy, hpolicy, hpermitted⟩ := hviews
  have hactors : Runs (feedActorIds actor policy) w none w := by
    rw [feedActorIds, if_pos hpermitted]
    exact runs_pure_iff.mpr ⟨rfl, rfl⟩
  have hlist := runs_listBoardSince sinceIso { boardId } none none w
  have hwhole : limited none (after Older eventPair none (activityOf w.store sinceIso { boardId })) =
      activityOf w.store sinceIso { boardId } := by
    simp [limited, after]
  rw [hwhole] at hlist
  obtain ⟨users, hresolved⟩ := runs_resolveActivityNames (w := w)
    ((activityOf w.store sinceIso { boardId }).map (enriched w.store)) none
  have hrun : Runs (allActivity boardId actor { sinceIso := some sinceIso }) w
      ((activityOf w.store sinceIso { boardId }).map (named w.store)) w := by
    simp only [allActivity, feedSince, runs_bind_iff, runs_ofExcept_iff, runs_pure_iff]
    refine ⟨_, _, ⟨rfl, rfl⟩, _, _, ⟨rfl, rfl⟩, _, _, haccess, _, _, hpolicy, _, _, hactors, _, _,
      hlist, _, _, runs_enrichMcpActors _, _, _, hresolved, ?_, rfl⟩
    simp only [List.map_map]
    rfl
  rw [transact_ok_iff.mpr hrun]

/-- The pages of the feed put together hold an event of the board exactly when its time is not before
the bound, if and only if the bound's text can tell the two apart. -/
theorem activity_bound_iff (htimes : FourDigitTimes s) (hkeys : KeysStored s)
    {worlds : ℕ → World Store Tick} (hworlds : ∀ i, (worlds i).store = s) {limits : ℕ → Option ℕ}
    (hlimits : LimitsAdmitted limits) (hviews : ViewsAllActivity boardId actor (worlds 0))
    {text : String} {since : IsoDateTime} (hsince : readIso text.toList = some since) :
    ∃ events, (∀ rounds, events.length < rounds →
        pagesOf (feedPageText boardId actor { sinceIso := some text }) limits worlds rounds =
          some events) ∧
      ∀ e ∈ s.cardEvents.rows, OfBoard s boardId e →
        (((∃ shown ∈ events, shown.id = e.id) ↔ since.instant ≤ e.createdAt) ↔
          since.Apart e.createdAt) := by
  obtain ⟨hvalid, -⟩ := readIso_eq_some_iff.mp hsince
  have hall := transact_allActivity hviews since.firstMilli
  rw [hworlds 0] at hall
  obtain ⟨-, hpages⟩ := pages_eventsSince hworlds hkeys hlimits rfl hall
  refine ⟨(activityOf s since.firstMilli { boardId }).map (named s), fun rounds hrounds => ?_,
    fun e he hboard => ?_⟩
  · rw [pagesOf_feedPageText hsince htimes hworlds boardId actor rfl]
    exact hpages rounds hrounds
  · rw [listed_iff he hboard]
    exact hvalid.firstMilli_le_iff e.createdAt

end bound

section samples

theorem runs_of_ok {α : Type} {p : Tx α} {w : World Store Tick} {a : α} (hp : p.ReadsOnly)
    (h : (exec p w).1 = .ok a) : Runs p w a w := by
  have hrun : Runs p w a (exec p w).2 := Prod.ext h rfl
  rwa [hrun.of_readsOnly hp] at hrun

theorem viewsAllActivity_sample : ViewsAllActivity 101 sampleActor (overMidnight 0) := by
  have hboard : ((exec (requireBoardAccess sampleActor 101) (overMidnight 0)).1).isOk = true := by
    decide +kernel
  have hpolicy : ((exec (activePolicy 101) (overMidnight 0)).1.toOption.any fun policy =>
      hasPermission sampleActor .viewAllActivity policy) = true := by decide +kernel
  obtain ⟨board, hboard⟩ := exists_ok hboard
  cases hresult : (exec (activePolicy 101) (overMidnight 0)).1 with
  | error e =>
    rw [hresult] at hpolicy
    cases hpolicy
  | ok policy =>
    rw [hresult] at hpolicy
    exact ⟨⟨board, runs_of_ok (readsOnly_requireBoardAccess _ _) hboard⟩, policy,
      runs_of_ok (readsOnly_activePolicy _) hresult, hpolicy⟩

theorem fourDigitTimes_waitingStore : FourDigitTimes waitingStore := by
  unfold FourDigitTimes
  decide +kernel

/-- The first event is of the second that the bound names. It is not before the bound, but its text
is: the point comes before the letter. -/
theorem activity_bound_fails :
    let text := "1970-01-01T00:00:13Z"
    (readIso text.toList).map (·.instant) = some 13000 ∧
      ViewsAllActivity 101 sampleActor (overMidnight 0) ∧
      (∃ e ∈ waitingStore.cardEvents.rows,
        e.id = 112 ∧ OfBoard waitingStore 101 e ∧ (13000 : ℚ) ≤ e.createdAt) ∧
      (@pagesOf EnrichedActivityEvent (@feedPageText sampleTexts 101 sampleActor { sinceIso := some text })
        (fun _ => none) (fun _ => overMidnight 0) 9).map (·.map (·.id)) =
          some [133, 130, 127, 124, 121, 118, 115] := by
  refine ⟨?_, viewsAllActivity_sample, ?_, ?_⟩
  · decide +kernel
  · unfold OfBoard
    decide +kernel
  · decide +kernel

/-- With the milliseconds in the text the first event is listed. -/
theorem activity_bound_sample :
    ∃ events, (∀ rounds, events.length < rounds →
        @pagesOf EnrichedActivityEvent (@feedPageText sampleTexts 101 sampleActor
          { sinceIso := some "1970-01-01T00:00:13.000Z" }) (fun _ => some 3) (fun _ => overMidnight 0)
            rounds = some events) ∧
      ∃ shown ∈ events, shown.id = 112 := by
  have hsince : ∃ since, readIso "1970-01-01T00:00:13.000Z".toList = some since ∧
      since.instant = 13000 ∧ ¬ 1 < since.unit :=
    ⟨⟨⟨1970, 1, 1⟩, 0, 0, some (13, [0, 0, 0])⟩, by decide +kernel, by decide +kernel,
      by decide +kernel⟩
  obtain ⟨since, hread, hinstant, hunit⟩ := hsince
  have hlimits : LimitsAdmitted fun _ => some 3 := by
    rintro i n ⟨⟩
    omega
  obtain ⟨events, hpages, hlisted⟩ := @activity_bound_iff waitingStore 101 sampleActor sampleTexts
    fourDigitTimes_waitingStore keysStored_waitingStore (fun _ => overMidnight 0) (fun _ => rfl) _
    hlimits (viewsAllActivity_sample) _ _ hread
  have hstored : ∃ e ∈ waitingStore.cardEvents.rows,
      OfBoard waitingStore 101 e ∧ e.id = 112 ∧ e.createdAt = 13000 := by
    unfold OfBoard
    decide +kernel
  obtain ⟨e, he, hboard, hid, htime⟩ := hstored
  have hbound : since.instant ≤ e.createdAt := by
    rw [hinstant, htime]
    norm_num
  have hapart : since.Apart e.createdAt := by
    rw [IsoDateTime.Apart, if_neg hunit]
    exact .inl hbound
  obtain ⟨shown, hshown, hsame⟩ := ((hlisted e he hboard).mpr hapart).mpr hbound
  exact ⟨events, hpages, shown, hshown, hsame.trans hid⟩

end samples

end AiKanban.Invariants
