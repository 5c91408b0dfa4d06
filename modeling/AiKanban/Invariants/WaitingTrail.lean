import AiKanban.Invariants.AuditReplay
import AiKanban.Invariants.LogOrder

/-!
# What the log says of a card's waiting

Two logs that say the same at the same times lead to views with the same waiting fields, and a
view knows such a field unless the last event that sets it takes the card into the waiting lane.
-/
namespace AiKanban.Invariants

open Domain Db Relational Services Services.CardService Transactions Effects EventSourcing
open Application

/-- The type, the payload and the time of an event. -/
def entry (e : CardEvent) : CardEventBody × Instant := (e.body, e.createdAt)

def SameEntry (e e' : CardEvent) : Prop := entry e = entry e'

/-- Whether a field of the waiting state is known after an event, by whether it was before. -/
def knownAfter (names : FieldChange → Bool) (known : Bool) (e : CardEvent) : Bool :=
  match e.body with
  | .fieldChanged change => known || names change
  | .statusChanged payload => payload.toLane != waitingKey
  | .cancelled _ => true
  | .reopened _ => true
  | _ => known

/-- The last event of a log, from its creation on, that sets the field also names its value. -/
def Names (names : FieldChange → Bool) (log : List CardEvent) : Prop :=
  log.tail.foldl (knownAfter names) true = true

def changesReason : FieldChange → Bool
  | .waitingReason _ _ => true
  | _ => false

def changesDay : FieldChange → Bool
  | .expectedResumeAt _ _ => true
  | _ => false

instance (names : FieldChange → Bool) (log : List CardEvent) : Decidable (Names names log) :=
  inferInstanceAs (Decidable (_ = true))

section known

variable {v : CardView}

theorem isSome_waitingReason_apply (v : CardView) (e : CardEvent) :
    (v.apply e).waitingReason.isSome = knownAfter changesReason v.waitingReason.isSome e := by
  unfold CardView.apply knownAfter
  cases e.body with
  | fieldChanged change => cases change <;> simp [CardView.edit, changesReason]
  | statusChanged payload => by_cases h : payload.toLane = waitingKey <;> simp [h]
  | _ => rfl

theorem isSome_expectedResumeAt_apply (v : CardView) (e : CardEvent) :
    (v.apply e).expectedResumeAt.isSome = knownAfter changesDay v.expectedResumeAt.isSome e := by
  unfold CardView.apply knownAfter
  cases e.body with
  | fieldChanged change => cases change <;> simp [CardView.edit, changesDay]
  | statusChanged payload => by_cases h : payload.toLane = waitingKey <;> simp [h]
  | _ => rfl

/-- A field's being known is folded along with it. -/
theorem isSome_fold {α : Type} {field : CardView → Option α} {names : FieldChange → Bool}
    (happly : ∀ v e, (field (v.apply e)).isSome = knownAfter names (field v).isSome e)
    (v : CardView) (log : List CardEvent) :
    (field (trail.fold v log)).isSome = log.foldl (knownAfter names) (field v).isSome := by
  induction log generalizing v with
  | nil => rfl
  | cons e log ih =>
    rw [Projection.fold_cons, List.foldl_cons, ← happly]
    exact ih (v.apply e)

end known

section twoLogs

theorem newerOf_related {e e' : CardEvent} {o o' : Option CardEvent} (he : SameEntry e e')
    (ho : Option.Rel SameEntry o o') : SameEntry (newerOf e o) (newerOf e' o') := by
  cases ho with
  | none => exact he
  | some h =>
    have hat := congrArg Prod.snd he
    have hat' := congrArg Prod.snd h
    simp only [entry] at hat hat'
    simp only [newerOf, hat, hat']
    split_ifs
    · exact he
    · exact h

/-- The newest entries of two logs that say the same say the same. -/
theorem newest_related {log log' : List CardEvent} (h : List.Forall₂ SameEntry log log')
    (hids : IdOrdered log) (hids' : IdOrdered log') :
    Option.Rel SameEntry (newestFirst (·.createdAt) (·.id) log).head?
      (newestFirst (·.createdAt) (·.id) log').head? := by
  induction h with
  | nil => exact .none
  | cons he hlog ih =>
    rw [head?_newestFirst_cons hids, head?_newestFirst_cons hids']
    exact .some (newerOf_related he (ih (List.Pairwise.of_cons hids) (List.Pairwise.of_cons hids')))

/-- Two views agree on everything the waiting fields are folded from. -/
structure SameWaiting (v v' : CardView) : Prop where
  resolution : v.resolution = v'.resolution
  waitingReason : v.waitingReason = v'.waitingReason
  expectedResumeAt : v.expectedResumeAt = v'.expectedResumeAt
  cancellations : List.Forall₂ SameEntry v.cancellations v'.cancellations

variable {v v' : CardView} {e e' : CardEvent}

theorem SameWaiting.lastCancellation (h : SameWaiting v v') (hids : IdOrdered v.cancellations)
    (hids' : IdOrdered v'.cancellations) : v.lastCancellation = v'.lastCancellation := by
  unfold CardView.lastCancellation
  rw [h.resolution]
  split_ifs
  · rfl
  · have hnewest := newest_related h.cancellations hids hids'
    revert hnewest
    generalize (newestFirst (·.createdAt) (·.id) v.cancellations).head? = newest
    generalize (newestFirst (·.createdAt) (·.id) v'.cancellations).head? = newest'
    rintro (hboth | -)
    · exact congrArg (fun entry : CardEventBody × Instant => entry.1.cancellation?) hboth
    · rfl

theorem sublist_cancellations (v : CardView) (e : CardEvent) :
    List.Sublist (v.apply e).cancellations (v.cancellations ++ [e]) := by
  unfold CardView.apply
  cases e.body with
  | cancelled payload => exact .refl _
  | fieldChanged change => cases change <;> exact List.sublist_append_left _ _
  | _ => exact List.sublist_append_left _ _

theorem SameWaiting.apply (h : SameWaiting v v') (he : SameEntry e e')
    (hids : IdOrdered v.cancellations) (hids' : IdOrdered v'.cancellations) :
    SameWaiting (v.apply e) (v'.apply e') := by
  have hbody : e.body = e'.body := congrArg Prod.fst he
  have hlast := h.lastCancellation hids hids'
  obtain ⟨hresolution, hreason, hday, hcancellations⟩ := h
  unfold CardView.apply
  rw [← hbody]
  cases e.body with
  | fieldChanged change =>
    cases change with
    | waitingReason before after => exact ⟨hresolution, rfl, hday, hcancellations⟩
    | expectedResumeAt before after => exact ⟨hresolution, hreason, rfl, hcancellations⟩
    | _ => exact ⟨hresolution, hreason, hday, hcancellations⟩
  | statusChanged payload => exact ⟨rfl, rfl, rfl, hcancellations⟩
  | cancelled payload =>
    exact ⟨rfl, rfl, rfl, List.rel_append hcancellations (.cons he .nil)⟩
  | reopened toLane =>
    have hrestored : v.restored toLane = v'.restored toLane := by
      unfold CardView.restored
      rw [hlast]
    exact ⟨rfl, congrArg (fun p => some (p.bind (·.waitingReason))) hrestored,
      congrArg (fun p => some (p.bind (·.expectedResumeAt))) hrestored, hcancellations⟩
  | _ => exact ⟨hresolution, hreason, hday, hcancellations⟩

/-- Logs that say the same lead to the same waiting fields. -/
theorem SameWaiting.fold {log log' : List CardEvent} (h : SameWaiting v v')
    (hlog : List.Forall₂ SameEntry log log') (hids : IdOrdered (v.cancellations ++ log))
    (hids' : IdOrdered (v'.cancellations ++ log')) :
    SameWaiting (trail.fold v log) (trail.fold v' log') := by
  induction hlog generalizing v v' with
  | nil => exact h
  | @cons e e' log log' he _ ih =>
    have hnext : ∀ {v : CardView} {e : CardEvent} {log : List CardEvent},
        IdOrdered (v.cancellations ++ e :: log) → IdOrdered ((v.apply e).cancellations ++ log) := by
      intro v e log hv
      refine hv.sublist ?_
      rw [List.append_cons]
      exact (sublist_cancellations v e).append (.refl log)
    have hstep := h.apply he (hids.sublist (List.sublist_append_left _ _))
      (hids'.sublist (List.sublist_append_left _ _))
    exact ih hstep (hnext hids) (hnext hids')

end twoLogs

/-- A card's waiting fields, as far as its log names them, are those of any other card with an
equal log. -/
theorem eq_of_sameEntries {s s' : Store} {card card' : Card} {cardId : ℕ}
    (h : Replays Tracks s card) (h' : Replays Tracks s' card') (hid : card.id = cardId)
    (hid' : card'.id = cardId) (hids : IdOrdered (eventsOf s cardId))
    (hids' : IdOrdered (eventsOf s' cardId))
    (hsame : (eventsOf s cardId).map entry = (eventsOf s' cardId).map entry) :
    (Names changesReason (eventsOf s cardId) → card.waitingReason = card'.waitingReason) ∧
      (Names changesDay (eventsOf s cardId) → card.expectedResumeAt = card'.expectedResumeAt) := by
  obtain ⟨first, snapshot, rest, lane, hlog, hbody, -, -, hcoherent, hlast⟩ := h
  obtain ⟨first', snapshot', rest', lane', hlog', hbody', -, -, hcoherent', hlast'⟩ := h'
  rw [hid] at hlog
  rw [hid'] at hlog'
  rw [hlog] at hids hsame ⊢
  rw [hlog'] at hids' hsame
  rw [List.map_cons, List.map_cons, List.cons.injEq] at hsame
  obtain ⟨hfirst, hrest⟩ := hsame
  have hsnapshot : snapshot = snapshot' := by
    have hbodies : first.body = first'.body := congrArg Prod.fst hfirst
    rw [hbody, hbody', CardEventBody.created.injEq] at hbodies
    exact hbodies
  subst hsnapshot
  have hrelated : List.Forall₂ SameEntry rest rest' := by
    have heq : List.Forall₂ Eq (rest.map entry) (rest'.map entry) := by
      rw [hrest]
      exact List.forall₂_same.mpr fun _ _ => rfl
    have hleft := List.forall₂_map_left_iff.mp heq
    have hright := List.forall₂_map_right_iff.mp hleft
    exact hright
  have hstart : SameWaiting (CardView.start lane.key snapshot) (CardView.start lane'.key snapshot) :=
    ⟨rfl, rfl, rfl, .nil⟩
  have hviews := hstart.fold hrelated (List.Pairwise.of_cons hids) (List.Pairwise.of_cons hids')
  constructor
  · intro hnames
    obtain ⟨reason, hreason⟩ := Option.isSome_iff_exists.mp
      ((isSome_fold isSome_waitingReason_apply (CardView.start lane.key snapshot) rest).trans hnames)
    rw [hlast.waitingReason reason hreason,
      hlast'.waitingReason reason (hviews.waitingReason ▸ hreason)]
  · intro hnames
    obtain ⟨day, hday⟩ := Option.isSome_iff_exists.mp
      ((isSome_fold isSome_expectedResumeAt_apply (CardView.start lane.key snapshot) rest).trans hnames)
    rw [hlast.expectedResumeAt day hday,
      hlast'.expectedResumeAt day (hviews.expectedResumeAt ▸ hday)]

/-- After two runs that leave a card equal event sequences, its waiting fields are equal wherever
the last event that sets them names their value. -/
theorem waiting_determined [Platform] (inputs inputs' : ℕ → Tick) (ops ops' : List Operation)
    (hids : IdsIncrease inputs) (hids' : IdsIncrease inputs') (hops : ∀ op ∈ ops, KeepsTrail op)
    (hops' : ∀ op ∈ ops', KeepsTrail op) (cardId : ℕ) (card card' : Card)
    (hcard : (run (freshlySeeded inputs) ops).store.cards.find? cardId = some card)
    (hcard' : (run (freshlySeeded inputs') ops').store.cards.find? cardId = some card')
    (hsame : (eventsOf (run (freshlySeeded inputs) ops).store cardId).map entry =
      (eventsOf (run (freshlySeeded inputs') ops').store cardId).map entry) :
    (Names changesReason (eventsOf (run (freshlySeeded inputs) ops).store cardId) →
        card.waitingReason = card'.waitingReason) ∧
      (Names changesDay (eventsOf (run (freshlySeeded inputs) ops).store cardId) →
        card.expectedResumeAt = card'.expectedResumeAt) :=
  eq_of_sameEntries (((trailKept_run inputs ops hops).trails cardId).replays card hcard)
    (((trailKept_run inputs' ops' hops').trails cardId).replays card' hcard')
    (Table.find?_key hcard) (Table.find?_key hcard') (idOrdered_eventsOf hids ops cardId)
    (idOrdered_eventsOf hids' ops' cardId) hsame

/-- The same run with a look at the comments at its end. -/
def readRun : List Operation := rewaitedRun ++ [.collaboration (.listComments sampleActor 1)]

theorem idsIncrease_sampleTicks : IdsIncrease sampleTicks := by
  intro i j hij
  change 100 + i < 100 + j
  omega

/-- The card after the runs, and the reason its last event names. -/
theorem waiting_determined_read : ∃ card card',
    (@run samplePlatform (freshlySeeded sampleTicks) rewaitedRun).store.cards.find? 1 = some card ∧
    (@run samplePlatform (freshlySeeded sampleTicks) readRun).store.cards.find? 1 = some card' ∧
    card.waitingReason = card'.waitingReason := by
  have hfound : ∃ card ∈ (@run samplePlatform (freshlySeeded sampleTicks) rewaitedRun).store.cards.find? 1,
      ∃ card' ∈ (@run samplePlatform (freshlySeeded sampleTicks) readRun).store.cards.find? 1,
        card.version = card'.version := by decide +kernel
  obtain ⟨card, hcard, card', hcard', -⟩ := hfound
  exact ⟨card, card', hcard, hcard',
    (@waiting_determined samplePlatform sampleTicks sampleTicks rewaitedRun readRun
      idsIncrease_sampleTicks idsIncrease_sampleTicks (by decide) (by decide) 1 card card' hcard
      hcard' (by decide +kernel)).1 (by decide +kernel)⟩

/-- A card that enters the waiting lane for the given reason. -/
def waitingFor (reason : String) : List Operation :=
  [.card (.create ⟨101, 102, .sqlite⟩ sampleActor { title := "Pump" } {}),
    .card (.move sampleActor 1 ⟨"waiting_parts_vendor", none, none, some reason, some 20000, 1⟩)]

/-- Two entries into the waiting lane for different reasons leave equal event sequences. -/
theorem waiting_determined_fails : ¬ ∀ (_ : Platform) (inputs inputs' : ℕ → Tick)
    (ops ops' : List Operation) (cardId : ℕ) (card card' : Card),
    (∀ op ∈ ops, KeepsTrail op) → (∀ op ∈ ops', KeepsTrail op) →
    (run (freshlySeeded inputs) ops).store.cards.find? cardId = some card →
    (run (freshlySeeded inputs') ops').store.cards.find? cardId = some card' →
    (eventsOf (run (freshlySeeded inputs) ops).store cardId).map entry =
      (eventsOf (run (freshlySeeded inputs') ops').store cardId).map entry →
    card.waitingReason = card'.waitingReason ∧ card.expectedResumeAt = card'.expectedResumeAt := by
  intro h
  have hfound :
      ∃ card ∈ (@run samplePlatform (freshlySeeded sampleTicks) (waitingFor "parts")).store.cards.find? 1,
      ∃ card' ∈ (@run samplePlatform (freshlySeeded sampleTicks) (waitingFor "vendor")).store.cards.find? 1,
        card.waitingReason ≠ card'.waitingReason := by decide +kernel
  obtain ⟨card, hcard, card', hcard', hne⟩ := hfound
  refine hne (h samplePlatform sampleTicks sampleTicks (waitingFor "parts") (waitingFor "vendor") 1
    card card' (by decide) (by decide) hcard hcard' ?_).1
  decide +kernel

end AiKanban.Invariants
