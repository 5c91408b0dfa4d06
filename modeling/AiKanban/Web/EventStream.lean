import AiKanban.Collections.InsertionMap
import AiKanban.Domain.Sse
import AiKanban.Transitions.Runs
import Mathlib.Tactic

/-!
# The event stream of the web client

Hints become invalidations of cached queries, gathered for a moment and then made at once. The
browser opens a dropped stream again by itself; what was published meanwhile is lost.
-/
namespace AiKanban.Web

open Collections Domain Transitions

/-- A part of a query key: a text, or other data known by its JSON. -/
inductive KeyPart where
  | text (value : String)
  | data (json : String)
deriving DecidableEq

abbrev QueryKey := List KeyPart

namespace queryKeys

def me : QueryKey := [.text "me"]
/-- Every variant of the board hangs under this key. -/
def board : QueryKey := [.text "board"]
def boardCatalog : QueryKey := [.text "board-catalog"]
def groups : QueryKey := [.text "groups"]
def policy : QueryKey := [.text "policy"]
def users : QueryKey := [.text "users"]
def locations : QueryKey := [.text "locations"]
def tags : QueryKey := [.text "tags"]
def card (cardId : String) : QueryKey := [.text "card", .text cardId]
def comments (cardId : String) : QueryKey := [.text "comments", .text cardId]
def events (cardId : String) : QueryKey := [.text "events", .text cardId]

end queryKeys

def notificationsKey : QueryKey := [.text "notifications"]

/-- The keys for the client of the board and those for the client of the whole session. -/
structure HintInvalidations where
  scopedKeys : List QueryKey
  globalKeys : List QueryKey

/-- A create or a field edit can mint a tag. -/
def mintsTag : CardEventType → Bool
  | .created | .fieldChanged => true
  | _ => false

def hintInvalidations : SseHint → HintInvalidations
  | .board .boardUpdated =>
      { scopedKeys := [], globalKeys := [queryKeys.boardCatalog, queryKeys.groups, notificationsKey] }
  | .board .policyUpdated =>
      { scopedKeys := [queryKeys.policy], globalKeys := [queryKeys.boardCatalog, notificationsKey] }
  | .board .laneUpdated => { scopedKeys := [queryKeys.board], globalKeys := [] }
  | .board .userUpdated =>
      { scopedKeys := [queryKeys.users]
        globalKeys := [queryKeys.me, queryKeys.boardCatalog, notificationsKey] }
  | .board .locationUpdated => { scopedKeys := [queryKeys.locations], globalKeys := [] }
  | .card .commentAdded id _ _ | .card .commentEdited id _ _ | .card .commentDeleted id _ _ =>
      { scopedKeys := [queryKeys.comments (toString id), queryKeys.events (toString id)]
        globalKeys := [notificationsKey] }
  | .card .attachmentAdded id _ _ | .card .attachmentRemoved id _ _ =>
      { scopedKeys := [queryKeys.card (toString id), queryKeys.events (toString id)]
        globalKeys := [notificationsKey] }
  | .card type id _ _ =>
      { scopedKeys := [queryKeys.board, queryKeys.card (toString id), queryKeys.events (toString id)] ++
          (if mintsTag type then [queryKeys.tags] else [])
        globalKeys := [notificationsKey] }

/-- The client refetches the board for the hints that can change it. -/
theorem board_mem_scopedKeys (hint : SseHint) :
    queryKeys.board ∈ (hintInvalidations hint).scopedKeys ↔ affectsBoardSnapshot hint = true := by
  cases hint with
  | board type => cases type <;> simp [hintInvalidations, affectsBoardSnapshot, queryKeys.board,
      queryKeys.policy, queryKeys.users, queryKeys.locations]
  | card type id version eventId =>
    cases type <;> simp [hintInvalidations, affectsBoardSnapshot, CardEventType.onCard,
      queryKeys.board, queryKeys.comments, queryKeys.events, queryKeys.card]

inductive Client where
  | scopedQueryClient
  | globalQueryClient
deriving DecidableEq

/-- A key on one of the two clients: of a cached query, or of an invalidation. -/
structure ClientKey where
  client : Client
  key : QueryKey
deriving DecidableEq

/-- An invalidation reaches every query of its client under its key. -/
def ClientKey.Reaches (i query : ClientKey) : Prop := i.client = query.client ∧ i.key <+: query.key

instance (i query : ClientKey) : Decidable (i.Reaches query) :=
  inferInstanceAs (Decidable (_ ∧ _))

def keysOf (hint : SseHint) : List ClientKey :=
  (hintInvalidations hint).scopedKeys.map (⟨.scopedQueryClient, ·⟩) ++
    (hintInvalidations hint).globalKeys.map (⟨.globalQueryClient, ·⟩)

/-- The name under which a key is gathered. -/
def ClientKey.name (i : ClientKey) : String :=
  let parts := i.key.map fun
    | .text value => value
    | .data json => json
  (match i.client with
    | .scopedQueryClient => "scoped:"
    | .globalQueryClient => "global:") ++ String.intercalate "|" parts

inductive ReadyState where
  | connecting
  | opened
  | closed
deriving DecidableEq

/-- The stream as the browser and the code see it, and the invalidations made so far. -/
structure Connection where
  readyState : ReadyState
  disposed : Bool
  dropped : Bool
  attempt : ℕ
  retryScheduled : Bool
  flushPending : Bool
  pendingKeys : InsertionMap String ClientKey
  invalidated : List ClientKey

namespace Connection

def queueInvalidations (x : Connection) (hint : SseHint) : Connection :=
  { x with
    pendingKeys := (keysOf hint).foldl (fun pending i => pending.set i.name i) x.pendingKeys
    flushPending := true }

def flush (x : Connection) : Connection :=
  { x with
    flushPending := false
    pendingKeys := InsertionMap.empty
    invalidated := x.invalidated ++ x.pendingKeys.values }

def connect (x : Connection) : Connection :=
  { x with readyState := .connecting, retryScheduled := false }

def onopen (x : Connection) : Connection :=
  if x.dropped then
    { x with
      attempt := 0
      dropped := false
      invalidated := x.invalidated ++ [⟨.scopedQueryClient, queryKeys.board⟩] }
  else { x with attempt := 0 }

def onerror (x : Connection) : Connection :=
  if x.readyState ≠ .closed ∨ x.disposed = true then { x with dropped := true }
  else
    { x with
      dropped := true
      invalidated := x.invalidated ++ [⟨.globalQueryClient, queryKeys.me⟩,
        ⟨.globalQueryClient, queryKeys.boardCatalog⟩, ⟨.globalQueryClient, notificationsKey⟩]
      attempt := x.attempt + 1
      retryScheduled := true }

def dispose (x : Connection) : Connection :=
  { x with disposed := true, readyState := .closed }

def start : Connection :=
  { readyState := .connecting, disposed := false, dropped := false, attempt := 0
    retryScheduled := false, flushPending := false, pendingKeys := InsertionMap.empty, invalidated := [] }

end Connection

/-- What the server, the browser and the timers do. -/
inductive StreamEvent where
  | published (hint : SseHint)
  | opened
  /-- The stream breaks; unless this is terminal the browser tries again by itself. -/
  | failed (terminal : Bool)
  | flushDue
  | retryDue
  | dispose
deriving DecidableEq

namespace Connection

/-- A closed source is silent, and disposing cancels the timers. -/
def step (x : Connection) : StreamEvent → Connection
  | .published hint => if x.readyState = .opened then x.queueInvalidations hint else x
  | .opened => if x.readyState = .connecting then { x with readyState := .opened }.onopen else x
  | .failed terminal =>
      if x.readyState = .closed then x
      else { x with readyState := if terminal then .closed else .connecting }.onerror
  | .flushDue => if x.flushPending && !x.disposed then x.flush else x
  | .retryDue => if x.retryScheduled && !x.disposed then x.connect else x
  | .dispose => x.dispose

/-- What may happen while the browser opens the stream again. -/
def InOutage : StreamEvent → Prop
  | .published _ | .failed false | .flushDue => True
  | _ => False

/-- The events of an outage: the stream drops, and in the end it opens. -/
def outage (events : List StreamEvent) : List StreamEvent :=
  .failed false :: events ++ [.opened]

/-- The invalidations made since an earlier state. -/
def since (x earlier : Connection) : List ClientKey :=
  x.invalidated.drop earlier.invalidated.length

/-- Every cached query that a hint published during the outage would have reached is reached
by an invalidation made between the hint and the opening. -/
def MissesNothing (x : Connection) (events : List StreamEvent) (cached : List ClientKey) : Prop :=
  ∀ before hint after, events = before ++ .published hint :: after →
    ∀ query ∈ cached, (∃ i ∈ keysOf hint, i.Reaches query) →
      ∃ i ∈ (runAll step x (outage events)).since (runAll step x (.failed false :: before)),
        i.Reaches query

/-- Those queries hang under the board, or what was gathered before the outage reaches them
when it is made after the hint. -/
def BoardOnly (x : Connection) (events : List StreamEvent) (cached : List ClientKey) : Prop :=
  ∀ before hint after, events = before ++ .published hint :: after →
    ∀ query ∈ cached, (∃ i ∈ keysOf hint, i.Reaches query) →
      ClientKey.Reaches ⟨.scopedQueryClient, queryKeys.board⟩ query ∨
        (x.flushPending = true ∧ .flushDue ∈ after ∧ .flushDue ∉ before ∧
          ∃ i ∈ x.pendingKeys.values, i.Reaches query)

/-- What a due flush leaves. -/
def flushed (x : Connection) : Connection :=
  if x.flushPending then x.flush else x

/-- A stream that the browser is opening again. -/
structure Reopening (x : Connection) : Prop where
  state : x.readyState = .connecting
  live : x.disposed = false
  dropped : x.dropped = true

section outages

variable {x : Connection} {events : List StreamEvent} {event : StreamEvent}

theorem flushed_flushed : x.flushed.flushed = x.flushed := by
  by_cases hpending : x.flushPending = true
  · simp [flushed, hpending, flush]
  · simp [flushed, hpending]

theorem Reopening.flushed (h : Reopening x) : Reopening x.flushed := by
  unfold Connection.flushed
  split_ifs
  · exact ⟨h.state, h.live, h.dropped⟩
  · exact h

/-- While the stream is down only a flush does anything. -/
theorem Reopening.step (h : Reopening x) (hevent : InOutage event) :
    x.step event = if event = .flushDue then x.flushed else x := by
  obtain ⟨hstate, hlive, hdropped⟩ := h
  cases event with
  | published hint => simp [Connection.step, hstate]
  | opened => exact hevent.elim
  | failed terminal =>
    cases terminal with
    | true => exact hevent.elim
    | false =>
      obtain ⟨state, disposed, dropped, attempt, retry, pending, keys, log⟩ := x
      obtain rfl : state = .connecting := hstate
      obtain rfl : dropped = true := hdropped
      simp [Connection.step, onerror]
  | flushDue => simp [Connection.step, Connection.flushed, hlive]
  | retryDue => exact hevent.elim
  | dispose => exact hevent.elim

/-- An outage leaves the stream as it was, flushed once if a flush fell due. -/
theorem Reopening.run (h : Reopening x) (hevents : ∀ e ∈ events, InOutage e) :
    runAll Connection.step x events = if .flushDue ∈ events then x.flushed else x := by
  induction events generalizing x with
  | nil => rfl
  | cons event events ih =>
    have hfirst := h.step (hevents event List.mem_cons_self)
    have hrest := fun e he => hevents e (List.mem_cons_of_mem _ he)
    rw [runAll_cons, hfirst]
    by_cases hflush : event = .flushDue
    · rw [if_pos hflush, ih h.flushed hrest, flushed_flushed, ite_self, hflush,
        if_pos List.mem_cons_self]
    · rw [if_neg hflush, ih h hrest]
      simp only [List.mem_cons, Ne.symm hflush, false_or]

theorem Reopening.opened (h : Reopening x) :
    (x.step .opened).invalidated = x.invalidated ++ [⟨.scopedQueryClient, queryKeys.board⟩] := by
  simp [Connection.step, h.state, onopen, h.dropped]

/-- What a due flush invalidates. -/
def gathered (x : Connection) : List ClientKey :=
  if x.flushPending then x.pendingKeys.values else []

theorem flushed_invalidated : x.flushed.invalidated = x.invalidated ++ x.gathered := by
  unfold flushed gathered
  split_ifs
  · rfl
  · rw [List.append_nil]

variable (hlive : x.disposed = false) (hopen : x.readyState ≠ .closed)
include hlive hopen

theorem reopening_failed : Reopening (x.step (.failed false)) ∧
    (x.step (.failed false)).gathered = x.gathered := by
  have hstep : x.step (.failed false) = { x with readyState := .connecting, dropped := true } := by
    simp [step, hopen, onerror]
  rw [hstep]
  exact ⟨⟨rfl, hlive, rfl⟩, rfl⟩

/-- The invalidations between a hint and the opening. -/
theorem since_hint {before after : List StreamEvent} {hint : SseHint}
    (hevents : ∀ e ∈ before ++ .published hint :: after, InOutage e) :
    (runAll step x (outage (before ++ .published hint :: after))).since
        (runAll step x (.failed false :: before)) =
      (if .flushDue ∈ after ∧ .flushDue ∉ before then x.gathered else []) ++
        [⟨.scopedQueryClient, queryKeys.board⟩] := by
  obtain ⟨hfailed, hgathered⟩ := reopening_failed hlive hopen
  have hbefore := hfailed.run fun e he => hevents e (List.mem_append_left _ he)
  have hall := hfailed.run hevents
  have hopened : Reopening (runAll step (x.step (.failed false))
      (before ++ .published hint :: after)) := by
    rw [hall]
    split_ifs
    · exact hfailed.flushed
    · exact hfailed
  have hmem : (StreamEvent.flushDue ∈ before ++ .published hint :: after) ↔
      .flushDue ∈ before ∨ .flushDue ∈ after := by
    simp
  rw [outage, List.cons_append, runAll_cons, runAll_append, runAll_cons, runAll_cons, runAll_nil,
    since, hopened.opened, hbefore, hall, ← hgathered]
  simp only [hmem]
  by_cases hfirst : StreamEvent.flushDue ∈ before
  · simp [hfirst]
  · by_cases hlater : StreamEvent.flushDue ∈ after
    · simp [hfirst, hlater, flushed_invalidated]
    · simp [hfirst, hlater]

/-- A reconnect misses nothing iff only the board was stale. -/
theorem missesNothing_iff (hevents : ∀ e ∈ events, InOutage e) (cached : List ClientKey) :
    x.MissesNothing events cached ↔ x.BoardOnly events cached := by
  refine forall₄_congr fun before hint after hsplit => forall₃_congr fun query _ _ => ?_
  subst hsplit
  rw [since_hint hlive hopen hevents]
  unfold gathered
  constructor
  · rintro ⟨i, hi, hreaches⟩
    rcases List.mem_append.mp hi with hi | hi
    · split_ifs at hi with hflush hpending
      · exact Or.inr ⟨hpending, hflush.1, hflush.2, i, hi, hreaches⟩
      · exact absurd hi List.not_mem_nil
      · exact absurd hi List.not_mem_nil
    · obtain rfl := List.mem_singleton.mp hi
      exact Or.inl hreaches
  · rintro (hboard | ⟨hpending, hafter, hbefore, i, hi, hreaches⟩)
    · exact ⟨_, List.mem_append_right _ (List.mem_singleton_self _), hboard⟩
    · refine ⟨i, List.mem_append_left _ ?_, hreaches⟩
      rw [if_pos ⟨hafter, hbefore⟩, if_pos hpending]
      exact hi

end outages

/-- Under the board hang all the keys of one hint alone. -/
theorem board_reaches_iff (hint : SseHint) :
    (∀ i ∈ keysOf hint, ClientKey.Reaches ⟨.scopedQueryClient, queryKeys.board⟩ i) ↔
      hint = .board .laneUpdated := by
  cases hint with
  | board type =>
    cases type <;> simp [keysOf, hintInvalidations, ClientKey.Reaches, queryKeys.policy,
      queryKeys.users, queryKeys.locations, queryKeys.board]
  | card type id version eventId =>
    cases type <;> simp [keysOf, hintInvalidations, ClientKey.Reaches, notificationsKey]

/-- A comment posted while the browser opens the stream again stays unseen. -/
theorem misses_comment : ¬ MissesNothing (runAll step start [.opened])
    [.published (.card .commentAdded 7 3 41)] [⟨.scopedQueryClient, queryKeys.comments "7"⟩] := by
  intro h
  exact absurd (h [] (.card .commentAdded 7 3 41) [] rfl _ List.mem_cons_self (by decide)) (by decide)

/-- A change of the lanes does not. -/
theorem missesNothing_lanes : MissesNothing (runAll step start [.opened])
      [.failed false, .published (.board .laneUpdated)] [⟨.scopedQueryClient, queryKeys.board⟩] ↔
    BoardOnly (runAll step start [.opened])
      [.failed false, .published (.board .laneUpdated)] [⟨.scopedQueryClient, queryKeys.board⟩] :=
  missesNothing_iff rfl (by decide) (by simp [InOutage]) _

end Connection

end AiKanban.Web
