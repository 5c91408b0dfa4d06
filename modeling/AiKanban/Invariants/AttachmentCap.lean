import AiKanban.Application.Concurrency
import AiKanban.Effects.Guards
import AiKanban.Invariants.IdentityWrites
import AiKanban.Transactions.Tally

/-!
# Concurrent uploads to one card

Each upload counts the card's active attachments before it inserts one, and locks nothing.
-/
namespace AiKanban.Invariants

open Application Domain Db Effects Policy Relational Services Transactions

/-- The active attachments of a card. -/
def activeAttachments : Tally Store ℕ where
  count cardId s :=
    (s.attachments.rows.filter fun a => a.cardId == cardId && a.deletedAt.isNone).length
  limit := AttachmentService.maxActiveAttachmentsPerCard

structure AddCall where
  actor : Actor
  cardId : ℕ
  raw : AddAttachmentInput

variable {κ : Type}

/-- The calls, none of them begun. -/
def addCalls (calls : κ → AddCall) (w : World Store Tick) : PgConfig κ Attachment where
  committed := w.store
  sessions caller := .ready
    [AttachmentService.add (calls caller).actor (calls caller).cardId (calls caller).raw]
  inputs := w.inputs
  drawn := w.drawn

section bodies

variable {α : Type} {m : Tally Store ℕ} {key : ℕ}

theorem counts_newId {f : Uuid → Tx α} (hf : ∀ id, m.Counts key (f id)) :
    m.Counts key (newId >>= f) :=
  Tally.counts_draw fun tick => hf tick.id

theorem counts_accessibleCard {actor : Actor} {cardId : ℕ} {f : Card → Tx α}
    (hf : ∀ card, card.id = cardId → m.Counts key (f card)) :
    m.Counts key (accessibleCard actor cardId >>= f) := by
  rw [accessibleCard, bind_assoc]
  refine Tally.counts_read fun v => .inl ?_
  rw [bind_assoc]
  refine Tally.counts_require fun card hcard => ?_
  rw [bind_assoc]
  exact Tally.counts_reads (readsOnly_requireBoardAccess _ _) fun _ => hf card (Table.find?_key hcard)

theorem count_filter_listed (v : Store) (cardId : ℕ) :
    (((newestFirst (·.createdAt) (·.id)
      (v.attachments.rows.filter fun a => a.cardId == cardId)).reverse).filter
        (·.deletedAt.isNone)).length = activeAttachments.count cardId v := by
  have hperm : (newestFirst (·.createdAt) (·.id)
      (v.attachments.rows.filter fun a => a.cardId == cardId)).reverse.Perm
      (v.attachments.rows.filter fun a => a.cardId == cardId) :=
    (List.reverse_perm _).trans (List.perm_insertionSort _ _)
  rw [(hperm.filter _).length_eq, List.filter_filter]
  congr 2
  funext a
  rw [Bool.and_comm]

/-- One attachment of the card, whatever the event is. -/
theorem addsOne_attachment (a : Attachment) (event : CardEvent) :
    activeAttachments.AddsOne a.cardId
      [Write.attachments (.insert a), .cardEvents (.insert event)] := by
  intro s
  have hcount : ∀ cardId, activeAttachments.count cardId
      (replay s [Write.attachments (.insert a), .cardEvents (.insert event)]) ≤
        activeAttachments.count cardId s + (if a.cardId = cardId then 1 else 0) := by
    intro cardId
    have hrows : (replay s [Write.attachments (.insert a), .cardEvents (.insert event)]).attachments =
        s.attachments.insert a := rfl
    simp only [activeAttachments, hrows]
    by_cases haccepts : s.attachments.accepts a = true
    · rw [Table.rows_insert haccepts, List.filter_append, List.length_append]
      by_cases hcard : a.cardId = cardId
      · simp only [hcard, if_true]
        have := List.length_filter_le (fun a : Attachment => a.cardId == cardId && a.deletedAt.isNone) [a]
        simpa using this
      · simp [hcard]
    · rw [Table.insert_eq_self (Bool.eq_false_iff.mpr haccepts)]
      exact Nat.le_add_right _ _
  refine ⟨by simpa using hcount a.cardId, fun other hother => ?_⟩
  have := hcount other
  rwa [if_neg (Ne.symm hother), Nat.add_zero] at this

theorem adds_stored (actor : Actor) (a : Attachment) :
    activeAttachments.Adds a.cardId (do
      AttachmentRepository.insert a
      let event ← makeEvent actor a.cardId (.attachmentAdded a.id a.filename)
      EventRepository.append event
      return a) [] := by
  refine Program.Meets.bind (meets_insertRow (fun e => ?_) trivial fun id createdAt => ?_)
  · rintro ⟨⟩
  change Program.Meets _ _ _ (EventRepository.append (envelope actor a.cardId
    (.attachmentAdded a.id a.filename) id.id createdAt.now) >>= fun _ => pure a) _
  refine Program.Meets.bind (meets_insertRow (fun e => ?_) trivial fun _ => ?_)
  · rintro ⟨⟩
  · exact addsOne_attachment _ _

/-- An upload writes nothing before its count, and one attachment after it. -/
theorem counts_add (actor : Actor) (cardId : ℕ) (raw : AddAttachmentInput) :
    activeAttachments.Counts cardId (AttachmentService.add actor cardId raw) := by
  unfold AttachmentService.add
  refine Tally.counts_ofExcept fun input => ?_
  refine Tally.counts_reads (Program.readsOnly_ensure _ _) fun _ => ?_
  refine counts_newId fun storageKey => counts_accessibleCard fun card hcard => ?_
  refine Tally.counts_reads (Program.readsOnly_ensure _ _) fun _ => ?_
  refine Tally.counts_reads (readsOnly_activePolicy _) fun policy => ?_
  refine Tally.counts_reads (readsOnly_decidePolicy _) fun _ => ?_
  refine Tally.counts_reads (Program.readsOnly_read _) fun uploader => ?_
  refine Tally.counts_reads (readsOnly_requireFound _ _) fun _ => ?_
  refine Tally.counts_read fun v => ?_
  rw [count_filter_listed, hcard]
  cases hroom : decide (activeAttachments.count cardId v <
      AttachmentService.maxActiveAttachmentsPerCard) with
  | false => exact .inl (Tally.counts_throw _)
  | true =>
    exact .inr ⟨of_decide_eq_true hroom, fun tick now => adds_stored actor
      ⟨tick.id, cardId, input.filename, input.mime, input.byteLength, input.sha256, storageKey,
        actor.id, now.now, none⟩⟩

end bodies

section uploads

theorem stage_addCalls (calls : κ → AddCall) (w : World Store Tick) (caller : κ) :
    activeAttachments.Stage (calls caller).cardId ((addCalls calls w).sessions caller) :=
  Tally.stage_ready (counts_add (calls caller).actor (calls caller).cardId (calls caller).raw)

variable [DecidableEq κ] [Fintype κ]

/-- Where every upload that finds room leaves room for the open uploads that have counted before
it, no card gets more active attachments than the cap allows, or than it had. -/
theorem attachment_cap (calls : κ → AddCall) (w : World Store Tick) (schedule : List κ)
    (hcounts : Config.Along (Config.CountsAll activeAttachments fun caller => (calls caller).cardId)
      (addCalls calls w) schedule) (cardId : ℕ) :
    activeAttachments.count cardId ((addCalls calls w).run schedule).committed ≤
      max AttachmentService.maxActiveAttachmentsPerCard (activeAttachments.count cardId w.store) := by
  have hnone : ∀ key, activeAttachments.holders (fun caller => (calls caller).cardId)
      (addCalls calls w) key = ∅ := by
    intro key
    apply Finset.eq_empty_of_forall_notMem
    intro caller hcaller
    exact (Tally.mem_holders.mp hcaller).2
  have hbounded : activeAttachments.Bounded (fun caller => (calls caller).cardId)
      (fun key => max AttachmentService.maxActiveAttachmentsPerCard
        (activeAttachments.count key w.store)) (addCalls calls w) := by
    refine ⟨stage_addCalls calls w, fun key => ?_⟩
    rw [hnone]
    exact le_max_right _ _
  exact Tally.count_run (fun _ => le_max_left _ _) hbounded hcounts cardId

end uploads

def sampleFile : AddAttachmentInput :=
  ⟨"manual.pdf", "application/pdf", 2048, String.ofList (List.replicate 64 'a')⟩

/-- A card with nine attachments. -/
def nineAttached : World Store Tick :=
  @run samplePlatform (freshlySeeded sampleTicks)
    (.card (.create ⟨101, 102, .sqlite⟩ sampleActor { title := "Pump" } {}) ::
      List.replicate 9 (.collaboration (.addAttachment sampleActor 1 sampleFile)))

def sampleUploads : Bool → AddCall := fun _ => ⟨sampleActor, 1, sampleFile⟩

/-- Of two uploads in turn the second finds no room. -/
theorem attachment_cap_in_turn :
    activeAttachments.count 1 ((addCalls sampleUploads nineAttached).run
      (List.replicate 18 false ++ List.replicate 18 true)).committed ≤
        max AttachmentService.maxActiveAttachmentsPerCard
          (activeAttachments.count 1 nineAttached.store) := by
  refine attachment_cap sampleUploads nineAttached _ ?_ 1
  refine Tally.along_of_closed (stage_addCalls sampleUploads nineAttached) ?_
  decide +kernel

/-- Two uploads that both count nine attachments before either inserts one make eleven. -/
theorem attachment_cap_overrun : ¬ ∀ (calls : Bool → AddCall) (w : World Store Tick)
    (schedule : List Bool) (cardId : ℕ),
    activeAttachments.count cardId w.store ≤ AttachmentService.maxActiveAttachmentsPerCard →
      activeAttachments.count cardId ((addCalls calls w).run schedule).committed ≤
        AttachmentService.maxActiveAttachmentsPerCard := by
  intro h
  have heleven := h sampleUploads nineAttached
    (List.replicate 11 false ++ List.replicate 11 true ++ List.replicate 7 false ++
      List.replicate 7 true) 1 (by decide +kernel)
  exact absurd heleven (by decide +kernel)

end AiKanban.Invariants
