import AiKanban.Effects.Administration

/-!
# What hangs on a card

Comments and attachments are written only on active cards, one event each, and never
on another card. Relations are written without an event and without looking at the
archived state of either end.
-/
namespace AiKanban.Effects

open Domain Db Policy Relational Services Transactions

/-- An event about a comment or an attachment says nothing about the card's own state. -/
def onThread : CardEventBody → Bool
  | .commentAdded _ _ _ => true
  | .commentEdited _ _ => true
  | .commentDeleted _ _ => true
  | .attachmentAdded _ _ => true
  | .attachmentRemoved _ _ => true
  | _ => false

def commentsOf (s : Store) (cardId : ℕ) : List Comment :=
  s.comments.rows.filter fun c => c.cardId == cardId

def attachmentsOf (s : Store) (cardId : ℕ) : List Attachment :=
  s.attachments.rows.filter fun a => a.cardId == cardId

/-- The tables a thread may write. -/
def threadTables : List TableName :=
  [.comments, .attachments, .cardEvents, .cardWatchers, .notifications]

/-- A unit of work wrote on the thread of an active card. -/
structure Noted (w w' : World Store Tick) (cardId : ℕ) (event : CardEvent) : Prop where
  active : ∃ card, w.store.cards.find? cardId = some card ∧ card.archivedAt = none
  comments : ∀ id, id ≠ cardId → commentsOf w'.store id = commentsOf w.store id
  attachments : ∀ id, id ≠ cardId → attachmentsOf w'.store id = attachmentsOf w.store id
  log : w'.store.cardEvents.rows = w.store.cardEvents.rows ++ [event]
  about : event.cardId = cardId
  thread : onThread event.body = true
  stamped : Stamped w.inputs w.drawn [event] w'.drawn
  inputs : w'.inputs = w.inputs
  frame : ∀ name, name ∉ threadTables → w.store.SameTable name w'.store

variable {w w' : World Store Tick}

/-- How every write on a thread ends. -/
theorem runs_noteEvent {w₁ w₂ : World Store Tick} {actor : Actor} {cardId : ℕ}
    {body : CardEventBody} {event : CardEvent} {u : Unit}
    (hevent : Runs (makeEvent actor cardId body) w₁ event w₂)
    (happend : Runs (EventRepository.append event) w₂ u w')
    (hactive : ∃ card, w.store.cards.find? cardId = some card ∧ card.archivedAt = none)
    (hthread : onThread body = true)
    (hcomments : ∀ id, id ≠ cardId → commentsOf w₁.store id = commentsOf w.store id)
    (hattachments : ∀ id, id ≠ cardId → attachmentsOf w₁.store id = attachmentsOf w.store id)
    (hinputs : w₁.inputs = w.inputs) (hdrawn : w.drawn ≤ w₁.drawn)
    (hlog : w₁.store.cardEvents = w.store.cardEvents)
    (hframe : ∀ name, name ∉ threadTables → w.store.SameTable name w₁.store) :
    Noted w w' cardId event := by
  obtain ⟨rfl, rfl⟩ := runs_makeEvent_iff.mp hevent
  obtain ⟨hs, hrows, hi, hd⟩ := runs_append happend
  simp only [World.tick_store, World.tick_inputs, World.tick_drawn] at hs hrows hi hd
  exact {
    active := hactive
    comments := by
      intro id hne
      rw [hs]
      exact hcomments id hne
    attachments := by
      intro id hne
      rw [hs]
      exact hattachments id hne
    log := by rw [hrows, hlog]
    about := rfl
    thread := hthread
    stamped := by
      have hst := stamped_envelope w₁ actor cardId body
      rw [hinputs] at hst
      exact hst.widen hdrawn (by simp only [World.tick_drawn]; omega)
    inputs := by rw [hi, hinputs]
    frame := by
      intro name hname
      have hsame := hframe name hname
      rw [hs]
      cases name <;> first | exact hsame | exact absurd (by decide) hname }

section comments

theorem runs_requireActiveComment {commentId : Uuid} {comment : Comment}
    (h : Runs (CommentService.requireActiveComment commentId) w comment w') :
    w' = w ∧ w.store.comments.find? commentId = some comment := by
  simp only [CommentService.requireActiveComment, CommentRepository.findById, runs_bind_iff,
    runs_selectKey_iff, runs_requireFound_iff, runs_ensure_iff, runs_pure_iff, table_comments] at h
  obtain ⟨_, _, ⟨rfl, rfl⟩, found, _, ⟨hfound, rfl⟩, _, _, ⟨-, rfl⟩, rfl, rfl⟩ := h
  exact ⟨rfl, hfound⟩

theorem readsOnly_parentOf (card : Card) (parent : Option Uuid) :
    (CommentService.parentOf card parent).ReadsOnly := by
  cases parent with
  | none => exact Program.readsOnly_pure _
  | some id =>
    exact (Program.readsOnly_read _).bind fun _ => (readsOnly_requireFound _ _).bind fun _ =>
      Program.readsOnly_pure _

theorem confined_mention (board : Board) (authorId : Uuid) (cardId : ℕ) (commentId : Uuid)
    (nowIso : Instant) (resolved : List Uuid) (userId : Uuid) :
    Confined [.cardWatchers, .notifications]
      (CommentService.mention board authorId cardId commentId nowIso resolved userId) := by
  unfold CommentService.mention
  split_ifs
  · exact confined_pure _
  · refine confined_reads (Program.readsOnly_read _) fun found => ?_
    cases found with
    | none => exact confined_pure _
    | some user =>
      dsimp only
      split_ifs
      · exact confined_pure _
      · refine confined_reads (readsOnly_canAccessBoard _ _) fun accessible => ?_
        split_ifs
        · exact confined_pure _
        · refine confined_bind (confined_watch (by simp) _ _ _) fun _ => ?_
          refine confined_bind confined_newId fun _ => ?_
          exact confined_bind (confined_insertRow (List.mem_of_elem_eq_true rfl)) fun _ =>
            confined_pure _

theorem confined_resolveMentions (mentions : List Uuid) (authorId : Uuid) (cardId : ℕ)
    (commentId : Uuid) (nowIso : Instant) :
    Confined [.cardWatchers, .notifications]
      (CommentService.resolveMentions mentions authorId cardId commentId nowIso) := by
  unfold CommentService.resolveMentions
  refine confined_reads (Program.readsOnly_read _) fun _ => ?_
  refine confined_reads (readsOnly_requireFound _ _) fun _ => ?_
  refine confined_reads (Program.readsOnly_read _) fun _ => ?_
  refine confined_reads (readsOnly_requireFound _ _) fun board => ?_
  exact ⟨Program.writes_foldM (fun _ _ => (confined_mention _ _ _ _ _ _ _).writes) _ _⟩

/-- Rewriting a comment of a card leaves the other cards' comments alone. -/
theorem commentsOf_update {s : Store} {existing updated : Comment} {id : ℕ}
    (hfound : s.comments.find? existing.id = some existing) (hid : updated.id = existing.id)
    (hcard : updated.cardId = existing.cardId) (hne : id ≠ existing.cardId) :
    commentsOf { s with comments := s.comments.update updated } id = commentsOf s id := by
  refine Table.filter_update existing ?_ ?_ ?_
  · change s.comments.find? updated.id = some existing
    rwa [hid]
  · simpa using Ne.symm hne
  · simpa [hcard] using Ne.symm hne

theorem runs_updateComment {comment : Comment} {u : Unit}
    (h : Runs (CommentRepository.update comment) w u w') :
    w' = w.withStore { w.store with comments := w.store.comments.update comment } := by
  simp only [CommentRepository.update, runs_modifyRow_iff, table_comments, put_comments] at h
  obtain ⟨row, -, -, -, rfl⟩ := h
  rfl

theorem runs_addComment {actor : Actor} {cardId : ℕ} {raw : AddCommentInput} {author : Option Uuid}
    {r : Comment} (h : Runs (CommentService.add actor cardId raw author) w r w') :
    ∃ event, Noted w w' cardId event := by
  unfold CommentService.add at h
  replace h := runs_bind_iff.mp h
  obtain ⟨input, _, hparse, h⟩ := h
  obtain ⟨-, rfl⟩ := runs_ofExcept_iff.mp hparse
  replace h := runs_bind_iff.mp h
  obtain ⟨card, _, hcard, h⟩ := h
  obtain ⟨rfl, hfound⟩ := runs_accessibleCard hcard
  replace h := runs_bind_iff.mp h
  obtain ⟨_, _, hunarchived, h⟩ := h
  obtain ⟨hactive, rfl⟩ := runs_ensureNotArchived_iff.mp hunarchived
  replace h := runs_bind_iff.mp h
  obtain ⟨policy, _, hpolicy, h⟩ := h
  obtain rfl := runs_activePolicy hpolicy
  replace h := runs_bind_iff.mp h
  obtain ⟨_, _, hdecided, h⟩ := h
  obtain ⟨-, rfl⟩ := runs_decidePolicy_iff.mp hdecided
  replace h := runs_bind_iff.mp h
  obtain ⟨_, _, hread, h⟩ := h
  obtain ⟨-, rfl⟩ := runs_read_iff.mp hread
  replace h := runs_bind_iff.mp h
  obtain ⟨_, _, hauthor, h⟩ := h
  obtain ⟨-, rfl⟩ := runs_requireFound_iff.mp hauthor
  replace h := runs_bind_iff.mp h
  obtain ⟨parent, w₀, hparent, h⟩ := h
  obtain rfl := hparent.of_readsOnly (readsOnly_parentOf _ _)
  simp only [runs_bind_iff, runs_clockNow_iff, runs_newId_iff, CommentRepository.insert,
    runs_insertRow_iff, table_comments, put_comments, runs_pure_iff] at h
  obtain ⟨_, _, ⟨rfl, rfl⟩, _, _, ⟨rfl, rfl⟩, _, _, ⟨-, -, rfl⟩, _, w₂, hwatch, mentioned, w₃,
    hmentions, event, w₄, hevent, _, _, happend, -, rfl⟩ := h
  have hid : card.id = cardId := Table.find?_key hfound
  have hside : ∀ name, name ∉ [TableName.cardWatchers, .notifications] → _ := fun name hname =>
    (sameTable_of_confined hwatch (confined_watch (by simp) _ _ _) hname).trans
      (sameTable_of_confined hmentions (confined_resolveMentions _ _ _ _ _) hname)
  have hcomments := hside .comments (by decide)
  have hattachments : w₃.store.attachments = w₀.store.attachments := hside .attachments (by decide)
  have hlog : w₃.store.cardEvents = w₀.store.cardEvents := hside .cardEvents (by decide)
  have hdrawn := hwatch.drawn_le.trans hmentions.drawn_le
  refine ⟨event, hid ▸ runs_noteEvent hevent happend ⟨card, by rwa [hid], hactive⟩ rfl ?_ ?_
    (hmentions.inputs.trans hwatch.inputs) ?_ hlog ?_⟩
  · intro other hne
    unfold commentsOf
    rw [show w₃.store.comments = _ from hcomments]
    exact Table.filter_insert (by simpa using Ne.symm hne)
  · intro other _
    unfold attachmentsOf
    rw [hattachments]
  · simp only [World.withStore_drawn, World.tick_drawn] at hdrawn
    omega
  · intro name hname
    have hsame := hside name fun hmem => hname (by
      rcases List.mem_pair.mp hmem with rfl | rfl <;> decide)
    cases name <;> first | exact hsame | exact absurd (by decide) hname

/-- An edit or a deletion of a comment rewrites its row. -/
theorem runs_rewriteComment {w₁ w₂ w₃ w₄ : World Store Tick} {actor : Actor} {card : Card}
    {updated : Comment} {body : CardEventBody} {event : CardEvent} {u u' : Unit}
    (existing : Comment) (hupdate : Runs (CommentRepository.update updated) w₁ u w₂)
    (hevent : Runs (makeEvent actor card.id body) w₂ event w₃)
    (happend : Runs (EventRepository.append event) w₃ u' w₄) (hdrew : Drew w w₁)
    (hfound : w.store.comments.find? existing.id = some existing)
    (hid : updated.id = existing.id) (hcomment : updated.cardId = existing.cardId)
    (hcard : w.store.cards.find? existing.cardId = some card) (hactive : card.archivedAt = none)
    (hthread : onThread body = true) : Noted w w₄ card.id event := by
  have hcardId : card.id = existing.cardId := Table.find?_key hcard
  obtain rfl := runs_updateComment hupdate
  refine runs_noteEvent hevent happend ⟨card, by rwa [hcardId], hactive⟩ hthread ?_ ?_ ?_ ?_ ?_ ?_
  · intro other hne
    rw [World.withStore_store, hdrew.store]
    exact commentsOf_update hfound hid hcomment (hcardId ▸ hne)
  · intro other _
    rw [World.withStore_store, hdrew.store]
    rfl
  · exact hdrew.inputs
  · exact hdrew.drawn
  · rw [World.withStore_store, hdrew.store]
  · intro name hname
    rw [World.withStore_store, hdrew.store]
    cases name <;> first | rfl | exact absurd (by decide) hname

theorem runs_editComment {actor : Actor} {commentId : Uuid} {raw : EditCommentInput} {r : Comment}
    (h : Runs (CommentService.edit actor commentId raw) w r w') :
    ∃ cardId event, Noted w w' cardId event := by
  unfold CommentService.edit at h
  replace h := runs_bind_iff.mp h
  obtain ⟨input, _, hparse, h⟩ := h
  obtain ⟨-, rfl⟩ := runs_ofExcept_iff.mp hparse
  simp only [runs_bind_iff, runs_ensureNotArchived_iff, runs_decidePolicy_iff, runs_clockNow_iff,
    runs_pure_iff] at h
  obtain ⟨existing, _, hexisting, card, _, hcard, _, _, ⟨hactive, rfl⟩, policy, _, hpolicy, _, w₀,
    ⟨-, rfl⟩, _, _, ⟨rfl, rfl⟩, _, w₁, hupdate, event, w₂, hevent, _, _, happend, -, rfl⟩ := h
  obtain ⟨rfl, hfound⟩ := runs_requireActiveComment hexisting
  obtain ⟨rfl, hcard⟩ := runs_accessibleCard hcard
  obtain rfl := runs_activePolicy hpolicy
  have hkey : existing.id = commentId := Table.find?_key hfound
  have hfound : w₀.store.comments.find? existing.id = some existing := by rwa [hkey]
  exact ⟨card.id, event, runs_rewriteComment existing hupdate hevent happend (.tick w₀) hfound
    rfl rfl hcard hactive rfl⟩

theorem runs_softDeleteComment {actor : Actor} {commentId : Uuid} {r : Comment}
    (h : Runs (CommentService.softDelete actor commentId) w r w') :
    ∃ cardId event, Noted w w' cardId event := by
  simp only [CommentService.softDelete, runs_bind_iff, runs_ensureNotArchived_iff,
    runs_decidePolicy_iff, runs_clockNow_iff, runs_pure_iff] at h
  obtain ⟨existing, _, hexisting, card, _, hcard, _, _, ⟨hactive, rfl⟩, policy, _, hpolicy, _, w₀,
    ⟨-, rfl⟩, _, _, ⟨rfl, rfl⟩, _, w₁, hupdate, event, w₂, hevent, _, _, happend, -, rfl⟩ := h
  obtain ⟨rfl, hfound⟩ := runs_requireActiveComment hexisting
  obtain ⟨rfl, hcard⟩ := runs_accessibleCard hcard
  obtain rfl := runs_activePolicy hpolicy
  have hkey : existing.id = commentId := Table.find?_key hfound
  have hfound : w₀.store.comments.find? existing.id = some existing := by rwa [hkey]
  exact ⟨card.id, event, runs_rewriteComment existing hupdate hevent happend (.tick w₀) hfound
    rfl rfl hcard hactive rfl⟩

end comments

section attachments

theorem readsOnly_listAttachments (cardId : ℕ) :
    (AttachmentRepository.listByCard cardId).ReadsOnly :=
  Program.readsOnly_read _

theorem runs_addAttachment {actor : Actor} {cardId : ℕ} {raw : AddAttachmentInput} {r : Attachment}
    (h : Runs (AttachmentService.add actor cardId raw) w r w') :
    ∃ event, Noted w w' cardId event := by
  unfold AttachmentService.add at h
  replace h := runs_bind_iff.mp h
  obtain ⟨input, _, hparse, h⟩ := h
  obtain ⟨-, rfl⟩ := runs_ofExcept_iff.mp hparse
  simp only [UserRepository.findById, AttachmentRepository.listByCard, runs_bind_iff,
    runs_ensure_iff, runs_newId_iff, runs_ensureNotArchived_iff, runs_decidePolicy_iff,
    runs_read_iff, runs_requireFound_iff, runs_clockNow_iff, AttachmentRepository.insert,
    runs_insertRow_iff, table_attachments, put_attachments, runs_pure_iff] at h
  obtain ⟨_, w₀, ⟨-, rfl⟩, _, w₁, ⟨-, htick⟩, card, _, hcard, _, _, ⟨hactive, rfl⟩, policy, _, hpolicy,
    _, _, ⟨-, rfl⟩, _, _, ⟨-, rfl⟩, _, _, ⟨-, rfl⟩, _, _, ⟨-, rfl⟩, _, w₂, ⟨-, rfl⟩, _, _, ⟨rfl, rfl⟩, _, _,
    ⟨rfl, rfl⟩, _, _, ⟨-, -, rfl⟩, event, w₃, hevent, _, _, happend, -, rfl⟩ := h
  obtain ⟨rfl, hfound⟩ := runs_accessibleCard hcard
  obtain rfl := runs_activePolicy hpolicy
  have hid : card.id = cardId := Table.find?_key hfound
  have hdrew : Drew w₀ w₂.tick.tick := (htick ▸ Drew.tick w₀).trans ((Drew.tick _).trans (.tick _))
  refine ⟨event, hid ▸ runs_noteEvent hevent happend
    ⟨card, by rw [hid, ← hdrew.store]; exact hfound, hactive⟩ rfl ?_ ?_ hdrew.inputs hdrew.drawn ?_ ?_⟩
  · intro other _
    rw [World.withStore_store, hdrew.store]
    rfl
  · intro other hne
    rw [World.withStore_store, hdrew.store]
    exact Table.filter_insert (by simpa using Ne.symm hne)
  · rw [World.withStore_store, hdrew.store]
  · intro name hname
    rw [World.withStore_store, hdrew.store]
    cases name <;> first | rfl | exact absurd (by decide) hname

theorem runs_requireActiveAttachment {attachmentId : Uuid} {attachment : Attachment}
    (h : Runs (AttachmentService.requireActive attachmentId) w attachment w') :
    w' = w ∧ w.store.attachments.find? attachmentId = some attachment := by
  simp only [AttachmentService.requireActive, AttachmentRepository.findById, runs_bind_iff,
    runs_selectKey_iff, runs_requireFound_iff, runs_ensure_iff, runs_pure_iff, table_attachments]
    at h
  obtain ⟨_, _, ⟨rfl, rfl⟩, found, _, ⟨hfound, rfl⟩, _, _, ⟨-, rfl⟩, rfl, rfl⟩ := h
  exact ⟨rfl, hfound⟩

theorem runs_removeAttachment {actor : Actor} {attachmentId : Uuid} {r : Attachment}
    (h : Runs (AttachmentService.remove actor attachmentId) w r w') :
    ∃ cardId event, Noted w w' cardId event := by
  simp only [AttachmentService.remove, runs_bind_iff, runs_ensureNotArchived_iff,
    runs_decidePolicy_iff, runs_clockNow_iff, AttachmentRepository.update, runs_modifyRow_iff,
    table_attachments, put_attachments, runs_pure_iff] at h
  obtain ⟨existing, _, hexisting, card, _, hcard, _, _, ⟨hactive, rfl⟩, policy, _, hpolicy, _, w₀,
    ⟨-, rfl⟩, _, _, ⟨rfl, rfl⟩, _, w₁, ⟨row, -, -, -, rfl⟩, event, w₂, hevent, _, _, happend, -, rfl⟩ := h
  obtain ⟨rfl, hfound⟩ := runs_requireActiveAttachment hexisting
  obtain ⟨rfl, hcard⟩ := runs_accessibleCard hcard
  obtain rfl := runs_activePolicy hpolicy
  have hkey : existing.id = attachmentId := Table.find?_key hfound
  have hcardId : card.id = existing.cardId := Table.find?_key hcard
  refine ⟨card.id, event, runs_noteEvent hevent happend ⟨card, by rwa [hcardId], hactive⟩ rfl ?_ ?_
    rfl (Nat.le_succ _) rfl ?_⟩
  · exact fun _ _ => rfl
  · intro other hne
    refine Table.filter_update existing ?_ ?_ ?_
    · change w₀.store.attachments.find? existing.id = some existing
      rwa [hkey]
    · simpa using hcardId ▸ Ne.symm hne
    · simpa using hcardId ▸ Ne.symm hne
  · intro name hname
    cases name <;> first | rfl | exact absurd (by decide) hname

end attachments

section relations

/-- The relations that have a card as an end. -/
def relationsOf (s : Store) (cardId : ℕ) : List CardRelation :=
  s.cardRelations.rows.filter fun r => r.fromCardId == cardId || r.toCardId == cardId

/-- The row a unit of work makes of a checked relation. -/
def linkRow (w : World Store Tick) (checked : RelationType × Card × Card) : CardRelation where
  id := w.peek.id
  fromCardId := checked.2.1.id
  toCardId := checked.2.2.id
  type := checked.1
  createdAt := w.tick.peek.now

theorem readsOnly_createRelationChecks (actor : Actor) (cardId : ℕ) (raw : CreateCardRelationInput) :
    (CardRelationService.createChecks actor cardId raw).ReadsOnly := by
  unfold CardRelationService.createChecks
  refine (Program.readsOnly_ofExcept _).bind fun _ => ?_
  exact (Program.readsOnly_ensure _ _).bind fun _ => (readsOnly_accessibleCard _ _).bind fun _ =>
    (readsOnly_accessibleCard _ _).bind fun _ => (Program.readsOnly_ensure _ _).bind fun _ =>
      readsOnly_globalPolicy.bind fun _ => (Program.readsOnly_ofExcept _).bind fun _ =>
        (Program.readsOnly_read _).bind fun _ => (Program.readsOnly_read _).bind fun _ =>
          (Program.readsOnly_ensure _ _).bind fun _ => Program.readsOnly_pure _

/-- The ends of a checked relation are stored cards. -/
theorem runs_createRelationChecks {actor : Actor} {cardId : ℕ} {raw : CreateCardRelationInput}
    {type : RelationType} {source target : Card}
    (h : Runs (CardRelationService.createChecks actor cardId raw) w (type, source, target) w') :
    w' = w ∧ w.store.cards.find? source.id = some source ∧
      w.store.cards.find? target.id = some target := by
  refine ⟨h.of_readsOnly (readsOnly_createRelationChecks _ _ _), ?_⟩
  unfold CardRelationService.createChecks at h
  replace h := runs_bind_iff.mp h
  obtain ⟨input, _, hparse, h⟩ := h
  obtain ⟨-, rfl⟩ := runs_ofExcept_iff.mp hparse
  simp only [CardRelationRepository.exists', runs_bind_iff, runs_ensure_iff, runs_ofExcept_iff,
    runs_read_iff, runs_pure_iff, Prod.mk.injEq] at h
  obtain ⟨_, _, ⟨-, rfl⟩, _, _, hsource, _, w₀, htarget, _, _, ⟨-, rfl⟩, policy, _, hpolicy, _, _,
    ⟨-, rfl⟩, _, _, ⟨-, rfl⟩, _, _, ⟨-, rfl⟩, _, _, ⟨-, rfl⟩, ⟨-, rfl, rfl⟩, rfl⟩ := h
  obtain rfl := hpolicy.of_readsOnly readsOnly_globalPolicy
  obtain ⟨rfl, hsource⟩ := runs_accessibleCard hsource
  obtain ⟨rfl, htarget⟩ := runs_accessibleCard htarget
  have hsourceId : source.id = cardId := Table.find?_key hsource
  have htargetId : target.id = _ := Table.find?_key htarget
  exact ⟨by rwa [hsourceId], by rwa [htargetId]⟩

/-- A checked relation is stored, unless its row clashes with a stored one. -/
theorem runs_createRelation_iff {actor : Actor} {cardId : ℕ} {raw : CreateCardRelationInput}
    {r : CardRelationView} :
    Runs (CardRelationService.create actor cardId raw) w r w' ↔
      ∃ checked, Runs (CardRelationService.createChecks actor cardId raw) w checked w ∧
        w.store.cardRelations.accepts (linkRow w checked) = true ∧
        r = ⟨w.peek.id, checked.1, .outgoing, checked.2.2.id, checked.2.2.title⟩ ∧
        w' = w.tick.tick.withStore { w.store with
          cardRelations := w.store.cardRelations.insert (linkRow w checked) } := by
  unfold CardRelationService.create
  constructor
  · intro h
    replace h := runs_bind_iff.mp h
    obtain ⟨⟨type, source, target⟩, w₁, hchecks, h⟩ := h
    obtain ⟨rfl, -, -⟩ := runs_createRelationChecks hchecks
    simp only [CardRelationRepository.insert, runs_bind_iff, runs_newId_iff, runs_clockNow_iff,
      runs_insertRow_iff, table_cardRelations, put_cardRelations, runs_pure_iff] at h
    obtain ⟨_, _, ⟨rfl, rfl⟩, _, _, ⟨rfl, rfl⟩, _, _, ⟨haccepts, -, rfl⟩, rfl, rfl⟩ := h
    exact ⟨_, hchecks, haccepts, rfl, rfl⟩
  · rintro ⟨⟨type, source, target⟩, hchecks, haccepts, rfl, rfl⟩
    obtain ⟨-, hsource, htarget⟩ := runs_createRelationChecks hchecks
    refine runs_bind_iff.mpr ⟨_, w, hchecks, ?_⟩
    simp only [CardRelationRepository.insert, runs_bind_iff, runs_newId_iff, runs_clockNow_iff,
      runs_insertRow_iff, table_cardRelations, put_cardRelations, runs_pure_iff]
    refine ⟨_, _, ⟨rfl, rfl⟩, _, _, ⟨rfl, rfl⟩, (), _, ⟨haccepts, ?_, rfl⟩, rfl, rfl⟩
    simp [HasTable.references, Store.hasCard, hsource, htarget]

/-- A relation that may be deleted is stored under its id. -/
theorem runs_deleteRelationChecks {actor : Actor} {cardId : ℕ} {relationId : Uuid}
    {relation : CardRelation}
    (h : Runs (CardRelationService.deleteChecks actor cardId relationId) w relation w') :
    w' = w ∧ w.store.cardRelations.find? relationId = some relation := by
  simp only [CardRelationService.deleteChecks, CardRelationRepository.findById, runs_bind_iff,
    runs_ofExcept_iff, runs_selectKey_iff, runs_requireFound_iff, runs_ensure_iff,
    runs_pure_iff, table_cardRelations] at h
  obtain ⟨_, _, hcard, policy, w₀, hpolicy, _, _, ⟨-, rfl⟩, _, _, ⟨rfl, rfl⟩, _, _, ⟨hfound, rfl⟩, _, _,
    ⟨-, rfl⟩, rfl, rfl⟩ := h
  obtain rfl := hpolicy.of_readsOnly readsOnly_globalPolicy
  obtain ⟨rfl, -⟩ := runs_accessibleCard hcard
  exact ⟨rfl, hfound⟩

theorem runs_deleteRelation_iff {actor : Actor} {cardId : ℕ} {relationId : Uuid} {u : Unit} :
    Runs (CardRelationService.delete actor cardId relationId) w u w' ↔
      (∃ relation, Runs (CardRelationService.deleteChecks actor cardId relationId) w relation w) ∧
        w' = w.withStore { w.store with
          cardRelations := w.store.cardRelations.remove fun r => r.id == relationId } := by
  simp only [CardRelationService.delete, CardRelationRepository.delete, runs_bind_iff,
    runs_deleteWhere_iff, table_cardRelations, put_cardRelations]
  constructor
  · rintro ⟨relation, w₁, hchecks, rfl⟩
    obtain ⟨rfl, -⟩ := runs_deleteRelationChecks hchecks
    exact ⟨⟨relation, hchecks⟩, rfl⟩
  · rintro ⟨⟨relation, hchecks⟩, rfl⟩
    exact ⟨relation, w, hchecks, rfl⟩

/-- A unit of work left these relations, and everything else as it was. -/
structure Linked (w w' : World Store Tick) (relations : Table CardRelation) : Prop where
  store : w'.store = { w.store with cardRelations := relations }
  inputs : w'.inputs = w.inputs
  drawn : w.drawn ≤ w'.drawn

theorem Linked.frame {relations : Table CardRelation} (h : Linked w w' relations)
    {name : TableName} (hname : name ≠ .cardRelations) : w.store.SameTable name w'.store := by
  rw [h.store]
  cases name <;> first | rfl | exact absurd rfl hname

end relations

section listing

theorem readsOnly_listForCard (actor : Actor) (cardId : ℕ) :
    (CommentService.listForCard actor cardId).ReadsOnly :=
  (readsOnly_accessibleCard _ _).bind fun _ => (Program.readsOnly_read _).bind fun _ =>
    Program.readsOnly_pure _

theorem readsOnly_getActive (actor : Actor) (attachmentId : Uuid) :
    (AttachmentService.getActive actor attachmentId).ReadsOnly :=
  ((Program.readsOnly_read _).bind fun _ => (readsOnly_requireFound _ _).bind fun _ =>
    (Program.readsOnly_ensure _ _).bind fun _ => Program.readsOnly_pure _).bind fun _ =>
      (readsOnly_accessibleCard _ _).bind fun _ => Program.readsOnly_pure _

theorem readsOnly_toView (actor : Actor) (cardId : ℕ) (relation : CardRelation) :
    (CardRelationService.toView actor cardId relation).ReadsOnly := by
  refine (Program.readsOnly_read _).bind fun found => ?_
  cases found with
  | none => exact Program.readsOnly_pure _
  | some other =>
    refine (Program.readsOnly_read _).bind fun found => ?_
    cases found with
    | none => exact Program.readsOnly_pure _
    | some board => exact (readsOnly_canAccessBoard _ _).bind fun _ => Program.readsOnly_pure _

theorem readsOnly_views (actor : Actor) (cardId : ℕ) (relations : List CardRelation) :
    (CardRelationService.views actor cardId relations).ReadsOnly := by
  induction relations with
  | nil => exact Program.readsOnly_pure _
  | cons relation relations ih =>
    exact (readsOnly_toView _ _ _).bind fun _ => ih.bind fun _ => Program.readsOnly_pure _

theorem readsOnly_listRelations (actor : Actor) (cardId : ℕ) :
    (CardRelationService.list actor cardId).ReadsOnly :=
  (readsOnly_accessibleCard _ _).bind fun _ => (Program.readsOnly_read _).bind fun _ =>
    readsOnly_views _ _ _

end listing
end AiKanban.Effects
