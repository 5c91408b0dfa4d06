import AiKanban.Web.EventStream

/-!
# The flush of gathered invalidations

Hints that arrive in a short window are flushed together: the first one schedules a flush, and the
others join it. Here the scheduled flushes are kept apart from the flag that says there is one.
-/
namespace AiKanban.Web

open Collections Domain Transitions

section names

variable {i j : ClientKey}

/-- The key has parts, and no part has the mark between parts in it. -/
def PlainParts (key : QueryKey) : Prop :=
  ∃ parts : List String, key = parts.map .text ∧ parts ≠ [] ∧ ∀ part ∈ parts, '|' ∉ part.toList

theorem plainParts_word {word : String} (h : '|' ∉ word.toList) : PlainParts [.text word] :=
  ⟨[word], rfl, by simp, by simpa using h⟩

theorem plainParts_card {word : String} (h : '|' ∉ word.toList) (id : ℕ) :
    PlainParts [.text word, .text (toString id)] := by
  have hid : '|' ∉ (toString id).toList := by
    intro hmem
    have hdigit : '|' ∈ Nat.toDigits 10 id := by simpa using hmem
    exact absurd (Nat.isDigit_of_mem_toDigits (by decide) (by decide) hdigit) (by decide)
  refine ⟨[word, toString id], rfl, by simp, ?_⟩
  intro part hpart
  rcases List.mem_cons.mp hpart with rfl | hpart
  · exact h
  · rwa [List.mem_singleton.mp hpart]

theorem plainParts_words : PlainParts queryKeys.me ∧ PlainParts queryKeys.board ∧
    PlainParts queryKeys.boardCatalog ∧ PlainParts queryKeys.groups ∧ PlainParts queryKeys.policy ∧
    PlainParts queryKeys.users ∧ PlainParts queryKeys.locations ∧ PlainParts queryKeys.tags ∧
    PlainParts notificationsKey := by
  refine ⟨?_, ?_, ?_, ?_, ?_, ?_, ?_, ?_, ?_⟩ <;> exact plainParts_word (by decide)

theorem plainParts_cards (id : ℕ) : PlainParts (queryKeys.card (toString id)) ∧
    PlainParts (queryKeys.comments (toString id)) ∧ PlainParts (queryKeys.events (toString id)) := by
  refine ⟨?_, ?_, ?_⟩ <;> exact plainParts_card (by decide) id

theorem plainParts_hint (hint : SseHint) :
    (∀ key ∈ (hintInvalidations hint).scopedKeys, PlainParts key) ∧
      ∀ key ∈ (hintInvalidations hint).globalKeys, PlainParts key := by
  have hwords := plainParts_words
  cases hint with
  | board type => cases type <;> simp [hintInvalidations, hwords]
  | card type id version eventId =>
    have hcards := plainParts_cards id
    rw [show toString id = id.repr from rfl] at hcards
    cases type <;> simp [hintInvalidations, mintsTag, hwords, hcards]

theorem plainParts_of_hint {hint : SseHint} (h : i ∈ keysOf hint) : PlainParts i.key := by
  rcases List.mem_append.mp h with h | h
  · obtain ⟨key, hkey, rfl⟩ := List.mem_map.mp h
    exact (plainParts_hint hint).1 key hkey
  · obtain ⟨key, hkey, rfl⟩ := List.mem_map.mp h
    exact (plainParts_hint hint).2 key hkey

def clientName : Client → String
  | .scopedQueryClient => "scoped:"
  | .globalQueryClient => "global:"

theorem name_toList {parts : List String} (h : i.key = parts.map .text) :
    i.name.toList = (clientName i.client).toList ++ ['|'].intercalate (parts.map String.toList) := by
  obtain ⟨client, key⟩ := i
  obtain rfl : key = parts.map .text := h
  cases client <;> simp [ClientKey.name, clientName, Function.comp_def]

theorem clientName_inj {a b : Client} (h : clientName a = clientName b) : a = b := by
  cases a <;> cases b <;> first | rfl | exact absurd h (by decide)

/-- The name tells a key of a hint from the others, and from those of the other client. -/
theorem name_inj (hi : PlainParts i.key) (hj : PlainParts j.key) (h : i.name = j.name) : i = j := by
  obtain ⟨parts, hkey, hne, hplain⟩ := hi
  obtain ⟨parts', hkey', hne', hplain'⟩ := hj
  have hsame := congrArg String.toList h
  rw [name_toList hkey, name_toList hkey'] at hsame
  have hlength : (clientName i.client).toList.length = (clientName j.client).toList.length := by
    cases i.client <;> cases j.client <;> rfl
  obtain ⟨hclient, hparts⟩ := List.append_inj hsame hlength
  have hclients : i.client = j.client := clientName_inj (String.toList_injective hclient)
  have hsplit := congrArg (List.splitOn '|') hparts
  rw [List.splitOn_intercalate '|' (by simpa using hplain) (by simpa using hne),
    List.splitOn_intercalate '|' (by simpa using hplain') (by simpa using hne')] at hsplit
  have hpartsEq : parts = parts' :=
    List.map_injective_iff.mpr (fun _ _ hsame => String.toList_injective hsame) hsplit
  obtain ⟨client, key⟩ := i
  obtain ⟨client', key'⟩ := j
  obtain rfl : client = client' := hclients
  rw [show key = parts.map .text from hkey, show key' = parts'.map .text from hkey', hpartsEq]

end names

/-- The stream with the flushes that are scheduled, and what each flush so far invalidated. -/
structure TimedConnection where
  connection : Connection
  /-- The flushes scheduled that have neither happened nor been cancelled. -/
  timers : List ℕ
  nextTimer : ℕ
  cancelFlush : Option ℕ
  flushes : List (List ClientKey)

inductive TimedEvent where
  /-- The source hands over a message that parses. -/
  | received (hint : SseHint)
  | fired (timer : ℕ)
  | opened
  | failed (terminal : Bool)
  | retryDue
  | disposed
deriving DecidableEq

namespace TimedConnection

/-- Gather the keys of a hint; only without a flush pending is one scheduled. -/
def queueInvalidations (x : TimedConnection) (hint : SseHint) : TimedConnection :=
  let connection := x.connection.queueInvalidations hint
  if x.connection.flushPending then { x with connection }
  else
    { x with
      connection
      timers := x.timers ++ [x.nextTimer]
      nextTimer := x.nextTimer + 1
      cancelFlush := some x.nextTimer }

/-- Make all that is gathered at once, each for its own client. -/
def flush (x : TimedConnection) (timer : ℕ) : TimedConnection :=
  { x with
    connection := x.connection.flush
    timers := x.timers.erase timer
    flushes := x.flushes ++ [x.connection.pendingKeys.values] }

def dispose (x : TimedConnection) : TimedConnection :=
  { x with
    connection := x.connection.dispose
    timers := x.timers.filter fun timer => some timer ≠ x.cancelFlush }

def step (x : TimedConnection) : TimedEvent → TimedConnection
  | .received hint => x.queueInvalidations hint
  | .fired timer => if timer ∈ x.timers then x.flush timer else x
  | .opened => { x with connection := x.connection.step .opened }
  | .failed terminal => { x with connection := x.connection.step (.failed terminal) }
  | .retryDue => { x with connection := x.connection.step .retryDue }
  | .disposed => x.dispose

def start : TimedConnection :=
  { connection := .start, timers := [], nextTimer := 0, cancelFlush := none, flushes := [] }

/-- The gathered keys as a map: each under its name, and every one of a hint's shape. -/
structure Named (m : InsertionMap String ClientKey) : Prop where
  named : ∀ entry ∈ m.entries, entry.1 = entry.2.name ∧ PlainParts entry.2.key
  keys : m.keys.Nodup

/-- What holds of the gathered keys and of the scheduled flushes. -/
structure Gathering (x : TimedConnection) : Prop where
  timers : x.timers = [] ∨ ∃ timer, x.timers = [timer] ∧ x.cancelFlush = some timer
  pending : x.timers ≠ [] → x.connection.flushPending = true
  armed : x.connection.flushPending = true → x.connection.disposed = false → x.timers ≠ []
  gathered : Named x.connection.pendingKeys
  flushes : ∀ batch ∈ x.flushes, batch.Nodup

section gathered

variable {m : InsertionMap String ClientKey} {i : ClientKey}

theorem Named.empty : Named InsertionMap.empty :=
  ⟨fun _ h => absurd h List.not_mem_nil, List.nodup_nil⟩

theorem Named.set (h : Named m) (hi : PlainParts i.key) : Named (m.set i.name i) where
  named := by
    intro entry hentry
    rcases InsertionMap.mem_set hentry with rfl | hentry
    · exact ⟨rfl, hi⟩
    · exact h.named entry hentry
  keys := InsertionMap.nodup_keys_set h.keys

theorem Named.values_nodup (h : Named m) : m.values.Nodup := by
  have hkeys : m.keys = m.values.map ClientKey.name := by
    rw [InsertionMap.keys, InsertionMap.values, List.map_map]
    exact List.map_congr_left fun entry hentry => (h.named entry hentry).1
  exact List.Nodup.of_map _ (hkeys ▸ h.keys)

theorem plain_of_get {name : String} (h : Named m) (hget : m.get name = some i) :
    PlainParts i.key := by
  obtain ⟨entry, hentry, rfl⟩ := Option.map_eq_some_iff.mp hget
  exact (h.named entry (List.mem_of_find?_eq_some hentry)).2

/-- A gathered key stays gathered while others join it. -/
theorem get_set_of_get {j : ClientKey} (h : Named m) (hj : PlainParts j.key)
    (hget : m.get i.name = some i) : (m.set j.name j).get i.name = some i := by
  rw [InsertionMap.get_set]
  split_ifs with hname
  · rw [name_inj (plain_of_get h hget) hj hname]
  · exact hget

/-- Gathering keys keeps the map in order, keeps what was gathered, and gathers them all. -/
theorem gather_keys {keys : List ClientKey} (h : Named m) (hkeys : ∀ i ∈ keys, PlainParts i.key) :
    Named (keys.foldl (fun pending i => pending.set i.name i) m) ∧
      (∀ i, m.get i.name = some i →
        (keys.foldl (fun pending i => pending.set i.name i) m).get i.name = some i) ∧
      ∀ i ∈ keys, (keys.foldl (fun pending i => pending.set i.name i) m).get i.name = some i := by
  induction keys generalizing m with
  | nil => exact ⟨h, fun i hi => hi, by simp⟩
  | cons key keys ih =>
    have hkey := hkeys key List.mem_cons_self
    obtain ⟨hnamed, hkept, hall⟩ :=
      ih (h.set hkey) fun i hi => hkeys i (List.mem_cons_of_mem _ hi)
    refine ⟨hnamed, fun i hi => hkept i (get_set_of_get h hkey hi), ?_⟩
    intro i hi
    rcases List.mem_cons.mp hi with rfl | hi
    · exact hkept i (by rw [InsertionMap.get_set, if_pos rfl])
    · exact hall i hi

end gathered

section runs

variable {x : TimedConnection} {event : TimedEvent} {events : List TimedEvent} {hint : SseHint}
  {i : ClientKey} {timer : ℕ}

theorem Gathering.ofStart : Gathering start where
  timers := .inl rfl
  pending := by simp [start]
  armed := by simp [start, Connection.start]
  gathered := .empty
  flushes := by simp [start]

theorem Gathering.queueInvalidations (h : Gathering x) (hint : SseHint) :
    Gathering (x.queueInvalidations hint) := by
  obtain ⟨hnamed, -⟩ := gather_keys h.gathered fun i (hi : i ∈ keysOf hint) => plainParts_of_hint hi
  unfold TimedConnection.queueInvalidations
  split_ifs with hpending
  · exact ⟨h.timers, fun _ => rfl, fun _ => h.armed hpending, hnamed, h.flushes⟩
  · have hnone : x.timers = [] := by
      by_contra hne
      exact hpending (h.pending hne)
    refine ⟨.inr ⟨x.nextTimer, ?_, rfl⟩, fun _ => rfl, fun _ _ => ?_, hnamed, h.flushes⟩
    · rw [hnone]
      rfl
    · simp

theorem Gathering.flush (h : Gathering x) (htimer : timer ∈ x.timers) : Gathering (x.flush timer) := by
  have hnone : x.timers.erase timer = [] := by
    rcases h.timers with hnone | ⟨other, hone, -⟩
    · rw [hnone] at htimer
      exact absurd htimer List.not_mem_nil
    · rw [hone] at htimer ⊢
      obtain rfl := List.mem_singleton.mp htimer
      simp
  refine ⟨.inl hnone, fun hne => absurd hnone hne, ?_, .empty, ?_⟩
  · intro hpending
    exact absurd hpending (by simp [TimedConnection.flush, Connection.flush])
  · intro batch hbatch
    rcases List.mem_append.mp hbatch with hbatch | hbatch
    · exact h.flushes batch hbatch
    · rw [List.mem_singleton.mp hbatch]
      exact h.gathered.values_nodup

/-- What the browser does to the source leaves the gathered keys and the flushes alone. -/
theorem Gathering.of_source (h : Gathering x) {connection : Connection}
    (hpending : connection.flushPending = x.connection.flushPending)
    (hdisposed : connection.disposed = x.connection.disposed)
    (hkeys : connection.pendingKeys = x.connection.pendingKeys) :
    Gathering { x with connection } where
  timers := h.timers
  pending := by
    dsimp only
    rw [hpending]
    exact h.pending
  armed := by
    dsimp only
    rw [hpending, hdisposed]
    exact h.armed
  gathered := by
    dsimp only
    rw [hkeys]
    exact h.gathered
  flushes := h.flushes

/-- What happens to the source, and not to the gathered keys. -/
theorem source_step (connection : Connection) :
    (∀ event, event = .opened ∨ event = .retryDue ∨ (∃ terminal, event = .failed terminal) →
      (connection.step event).flushPending = connection.flushPending ∧
        (connection.step event).disposed = connection.disposed ∧
        (connection.step event).pendingKeys = connection.pendingKeys) := by
  rintro event (rfl | rfl | ⟨terminal, rfl⟩)
  · simp only [Connection.step, Connection.onopen]
    split_ifs <;> exact ⟨rfl, rfl, rfl⟩
  · simp only [Connection.step, Connection.connect]
    split_ifs <;> exact ⟨rfl, rfl, rfl⟩
  · simp only [Connection.step, Connection.onerror]
    split_ifs <;> exact ⟨rfl, rfl, rfl⟩

theorem Gathering.dispose (h : Gathering x) : Gathering x.dispose := by
  have hnone : x.dispose.timers = [] := by
    rcases h.timers with hnone | ⟨timer, hone, hcancel⟩
    · simp [TimedConnection.dispose, hnone]
    · simp [TimedConnection.dispose, hone, hcancel]
  exact ⟨.inl hnone, fun hne => absurd hnone hne, fun _ hlive => absurd hlive (by simp
    [TimedConnection.dispose, Connection.dispose]), h.gathered, h.flushes⟩

theorem Gathering.step (h : Gathering x) (event : TimedEvent) : Gathering (x.step event) := by
  cases event with
  | received hint => exact h.queueInvalidations hint
  | fired timer =>
    simp only [TimedConnection.step]
    split_ifs with htimer
    · exact h.flush htimer
    · exact h
  | opened =>
    obtain ⟨hpending, hdisposed, hkeys⟩ := source_step x.connection .opened (.inl rfl)
    exact h.of_source hpending hdisposed hkeys
  | failed terminal =>
    obtain ⟨hpending, hdisposed, hkeys⟩ :=
      source_step x.connection (.failed terminal) (.inr (.inr ⟨terminal, rfl⟩))
    exact h.of_source hpending hdisposed hkeys
  | retryDue =>
    obtain ⟨hpending, hdisposed, hkeys⟩ := source_step x.connection .retryDue (.inr (.inl rfl))
    exact h.of_source hpending hdisposed hkeys
  | disposed => exact h.dispose

theorem Gathering.run (h : Gathering x) (events : List TimedEvent) :
    Gathering (runAll TimedConnection.step x events) := by
  induction events generalizing x with
  | nil => exact h
  | cons event events ih => exact ih (h.step event)

theorem disposed_step (hevent : event ≠ .disposed) :
    (x.step event).connection.disposed = x.connection.disposed := by
  cases event with
  | received hint =>
    simp only [step, queueInvalidations]
    split_ifs <;> rfl
  | fired timer =>
    simp only [step]
    split_ifs <;> rfl
  | opened => exact (source_step x.connection .opened (.inl rfl)).2.1
  | failed terminal =>
    exact (source_step x.connection (.failed terminal) (.inr (.inr ⟨terminal, rfl⟩))).2.1
  | retryDue => exact (source_step x.connection .retryDue (.inr (.inl rfl))).2.1
  | disposed => exact absurd rfl hevent

theorem disposed_run (hevents : .disposed ∉ events) :
    (runAll step x events).connection.disposed = x.connection.disposed := by
  induction events generalizing x with
  | nil => rfl
  | cons event events ih =>
    obtain ⟨hfirst, hrest⟩ := not_or.mp (List.mem_cons.not.mp hevents)
    exact (ih hrest).trans (disposed_step (Ne.symm hfirst))

/-- No flush that was made is forgotten. -/
theorem flushes_prefix (events : List TimedEvent) :
    x.flushes <+: (runAll step x events).flushes := by
  induction events generalizing x with
  | nil => exact List.prefix_rfl
  | cons event events ih =>
    refine List.IsPrefix.trans ?_ ih
    cases event with
    | received hint =>
      simp only [step, queueInvalidations]
      split_ifs <;> exact List.prefix_rfl
    | fired timer =>
      simp only [step]
      split_ifs
      · exact List.prefix_append _ _
      · exact List.prefix_rfl
    | opened | failed | retryDue | disposed => exact List.prefix_rfl

/-- The key is gathered and one flush is scheduled for it. -/
structure Awaiting (x : TimedConnection) (i : ClientKey) (timer : ℕ) : Prop where
  timers : x.timers = [timer]
  pending : x.connection.flushPending = true
  key : x.connection.pendingKeys.get i.name = some i

theorem Awaiting.fired (h : Awaiting x i timer) :
    ∃ batch, (x.step (.fired timer)).flushes = x.flushes ++ [batch] ∧ i ∈ batch := by
  refine ⟨x.connection.pendingKeys.values, ?_, InsertionMap.mem_values_of_get h.key⟩
  simp [step, h.timers, flush]

/-- Short of its flush and of disposing, nothing takes a gathered key away. -/
theorem Awaiting.step (h : Awaiting x i timer) (hx : Gathering x) (hflush : event ≠ .fired timer)
    (hlive : event ≠ .disposed) :
    Awaiting (x.step event) i timer ∧ (x.step event).flushes = x.flushes := by
  cases event with
  | received hint =>
    obtain ⟨-, hkept, -⟩ :=
      gather_keys hx.gathered fun i (hi : i ∈ keysOf hint) => plainParts_of_hint hi
    simp only [TimedConnection.step, TimedConnection.queueInvalidations, h.pending, if_true]
    exact ⟨⟨h.timers, rfl, hkept i h.key⟩, trivial⟩
  | fired other =>
    have hother : other ∉ x.timers := by
      rw [h.timers, List.mem_singleton]
      rintro rfl
      exact hflush rfl
    simp only [TimedConnection.step, if_neg hother]
    exact ⟨h, trivial⟩
  | opened =>
    obtain ⟨hpending, -, hkeys⟩ := source_step x.connection .opened (.inl rfl)
    exact ⟨⟨h.timers, hpending.trans h.pending, (congrArg (·.get i.name) hkeys).trans h.key⟩, rfl⟩
  | failed terminal =>
    obtain ⟨hpending, -, hkeys⟩ :=
      source_step x.connection (.failed terminal) (.inr (.inr ⟨terminal, rfl⟩))
    exact ⟨⟨h.timers, hpending.trans h.pending, (congrArg (·.get i.name) hkeys).trans h.key⟩, rfl⟩
  | retryDue =>
    obtain ⟨hpending, -, hkeys⟩ := source_step x.connection .retryDue (.inr (.inl rfl))
    exact ⟨⟨h.timers, hpending.trans h.pending, (congrArg (·.get i.name) hkeys).trans h.key⟩, rfl⟩
  | disposed => exact absurd rfl hlive

/-- A gathered key is in the flush scheduled for it, or that flush is still to come. -/
theorem Awaiting.run (h : Awaiting x i timer) (hx : Gathering x) (hlive : .disposed ∉ events) :
    if .fired timer ∈ events then
      ∃ batch ∈ (runAll TimedConnection.step x events).flushes.drop x.flushes.length, i ∈ batch
    else Awaiting (runAll TimedConnection.step x events) i timer := by
  induction events generalizing x with
  | nil => simpa using h
  | cons event events ih =>
    obtain ⟨hfirst, hrest⟩ := not_or.mp (List.mem_cons.not.mp hlive)
    rw [runAll_cons]
    by_cases hflush : event = .fired timer
    · subst hflush
      rw [if_pos List.mem_cons_self]
      obtain ⟨batch, hflushes, hi⟩ := h.fired
      obtain ⟨later, hlater⟩ := flushes_prefix (x := x.step (.fired timer)) events
      refine ⟨batch, ?_, hi⟩
      rw [← hlater, hflushes, List.append_assoc, List.drop_left]
      simp
    · obtain ⟨hawaiting, hsame⟩ := h.step hx hflush (Ne.symm hfirst)
      have hall := ih hawaiting (hx.step event) hrest
      rw [hsame] at hall
      simpa only [List.mem_cons, Ne.symm hflush, false_or] using hall

/-- Every key of a received hint waits for one scheduled flush. -/
theorem awaiting_received (hx : Gathering x) (hlive : x.connection.disposed = false) (hint : SseHint) :
    ∃ timer, (x.step (.received hint)).timers = [timer] ∧
      ∀ i ∈ keysOf hint, Awaiting (x.step (.received hint)) i timer := by
  obtain ⟨-, -, hall⟩ :=
    gather_keys hx.gathered fun i (hi : i ∈ keysOf hint) => plainParts_of_hint hi
  by_cases hpending : x.connection.flushPending = true
  · rcases hx.timers with hnone | ⟨timer, hone, -⟩
    · exact absurd hnone (hx.armed hpending hlive)
    · simp only [TimedConnection.step, TimedConnection.queueInvalidations, hpending, if_true]
      exact ⟨timer, hone, fun i hi => ⟨hone, rfl, hall i hi⟩⟩
  · have hnone : x.timers = [] := by
      by_contra hne
      exact hpending (hx.pending hne)
    have hone : x.timers ++ [x.nextTimer] = [x.nextTimer] := by rw [hnone, List.nil_append]
    simp only [TimedConnection.step, TimedConnection.queueInvalidations, hpending]
    exact ⟨x.nextTimer, hone, fun i hi => ⟨hone, rfl, hall i hi⟩⟩

/-- Without its timers the stream takes the steps of a connection: a message of an open source is a
published hint, and the scheduled flush is due when its timer fires. -/
theorem connection_step (hx : Gathering x) :
    (x.connection.readyState = .opened →
      (x.step (.received hint)).connection = x.connection.step (.published hint)) ∧
    (x.connection.disposed = false → timer ∈ x.timers →
      (x.step (.fired timer)).connection = x.connection.step .flushDue) ∧
    (x.step .disposed).connection = x.connection.step .dispose := by
  refine ⟨?_, ?_, rfl⟩
  · intro hopen
    simp only [step, queueInvalidations, Connection.step, hopen, if_true]
    split_ifs <;> rfl
  · intro hlive htimer
    have hpending := hx.pending (List.ne_nil_of_mem htimer)
    simp [step, htimer, flush, Connection.step, hpending, hlive]

end runs

/-- At most one flush is scheduled, each invalidates a key once for its client, and unless the
stream is disposed the keys of every received hint are in the flush scheduled when it came. -/
theorem coalescing_loses_nothing (events : List TimedEvent) :
    (runAll step start events).timers.length ≤ 1 ∧
      (∀ batch ∈ (runAll step start events).flushes, batch.Nodup) ∧
      ∀ before hint after, events = before ++ .received hint :: after → .disposed ∉ events →
        ∃ timer, (runAll step start (before ++ [.received hint])).timers = [timer] ∧
          ∀ i ∈ keysOf hint,
            (.fired timer ∈ after → ∃ batch ∈ (runAll step start events).flushes.drop
              (runAll step start (before ++ [.received hint])).flushes.length, i ∈ batch) ∧
            (.fired timer ∉ after → (runAll step start events).timers = [timer] ∧
              ∃ batch, ((runAll step start events).step (.fired timer)).flushes =
                (runAll step start events).flushes ++ [batch] ∧ i ∈ batch) := by
  have hall := Gathering.ofStart.run events
  refine ⟨?_, hall.flushes, ?_⟩
  · rcases hall.timers with hnone | ⟨timer, hone, -⟩
    · simp [hnone]
    · simp [hone]
  · rintro before hint after rfl hlive
    simp only [List.mem_append, List.mem_cons, not_or] at hlive
    obtain ⟨hbefore, -, hafter⟩ := hlive
    have hgathering := Gathering.ofStart.run before
    have hopen : (runAll step start before).connection.disposed = false := disposed_run hbefore
    obtain ⟨timer, hone, hawaiting⟩ := awaiting_received hgathering hopen hint
    simp only [runAll_append, runAll_cons, runAll_nil]
    refine ⟨timer, hone, ?_⟩
    intro i hi
    have hrun := (hawaiting i hi).run (hgathering.step (.received hint)) hafter
    constructor
    · intro hfired
      rwa [if_pos hfired] at hrun
    · intro hfired
      rw [if_neg hfired] at hrun
      exact ⟨hrun.timers, hrun.fired⟩

end TimedConnection

end AiKanban.Web
