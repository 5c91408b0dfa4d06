import AiKanban.Effects.Steps
import AiKanban.Services.BoardQuery
import AiKanban.Web.CommentThread

/-!
# Comment threads

Every reply answers a top-level comment of its own card, so that a client shows every
comment of a card once. What was deleted is shown without its text.
-/
namespace AiKanban.Invariants

open Application Db Domain Effects Relational Services Transactions Web

/-- Every reply's parent is a top-level comment on the same card. -/
def RepliesAttached (s : Store) : Prop :=
  ∀ c ∈ s.comments.rows, ∀ id, c.parentCommentId = some id →
    ∃ p ∈ s.comments.rows, p.id = id ∧ p.cardId = c.cardId ∧ p.parentCommentId = none

section writes

variable {w w' : World Store Tick} {s s' : Store}

theorem RepliesAttached.of_comments (h : RepliesAttached s) (hcomments : s'.comments = s.comments) :
    RepliesAttached s' := by
  unfold RepliesAttached
  rwa [hcomments]

/-- The parent of a new reply is the top of the thread it was addressed to. -/
theorem runs_parentOf {card : Card} {asked parent : Option Uuid}
    (h : Runs (CommentService.parentOf card asked) w parent w') :
    w' = w ∧ ∀ id, parent = some id → ∃ p ∈ w.store.comments.rows,
      p.cardId = card.id ∧ id = p.parentCommentId.getD p.id := by
  cases asked with
  | none =>
    obtain ⟨rfl, rfl⟩ := runs_pure_iff.mp h
    exact ⟨rfl, fun id hid => nomatch hid⟩
  | some asked =>
    simp only [CommentService.parentOf, CommentRepository.findById, runs_bind_iff,
      runs_selectKey_iff, runs_requireFound_iff, runs_pure_iff, table_comments] at h
    obtain ⟨_, _, ⟨rfl, rfl⟩, p, _, ⟨hfound, rfl⟩, rfl, rfl⟩ := h
    obtain ⟨hfound, hcard⟩ := Option.filter_eq_some_iff.mp hfound
    refine ⟨rfl, fun id hid => ⟨p, Table.mem_of_find? hfound, by simpa using hcard, ?_⟩⟩
    exact (Option.some.inj hid).symm

theorem comments_add {actor : Actor} {cardId : ℕ} {raw : AddCommentInput} {author : Option Uuid}
    {r : Comment} (h : Runs (CommentService.add actor cardId raw author) w r w') :
    w'.store.comments = w.store.comments.insert r ∧
      ∀ id, r.parentCommentId = some id → ∃ p ∈ w.store.comments.rows,
        p.cardId = r.cardId ∧ id = p.parentCommentId.getD p.id := by
  unfold CommentService.add at h
  replace h := runs_bind_iff.mp h
  obtain ⟨input, _, hparse, h⟩ := h
  obtain ⟨-, rfl⟩ := runs_ofExcept_iff.mp hparse
  replace h := runs_bind_iff.mp h
  obtain ⟨card, _, hcard, h⟩ := h
  obtain ⟨rfl, -⟩ := runs_accessibleCard hcard
  replace h := runs_bind_iff.mp h
  obtain ⟨_, _, hunarchived, h⟩ := h
  obtain ⟨-, rfl⟩ := runs_ensureNotArchived_iff.mp hunarchived
  replace h := runs_bind_iff.mp h
  obtain ⟨policy, _, hpolicy, h⟩ := h
  obtain rfl := runs_activePolicy hpolicy
  replace h := runs_bind_iff.mp h
  obtain ⟨_, _, hdecided, h⟩ := h
  obtain ⟨-, rfl⟩ := runs_decidePolicy_iff.mp hdecided
  replace h := runs_bind_iff.mp h
  obtain ⟨_, _, hread, h⟩ := h
  obtain ⟨-, rfl⟩ := runs_read_iff.mp hread
  replace h := runs_bind_iff.mp h
  obtain ⟨_, _, hauthor, h⟩ := h
  obtain ⟨-, rfl⟩ := runs_requireFound_iff.mp hauthor
  replace h := runs_bind_iff.mp h
  obtain ⟨parent, w₀, hparent, h⟩ := h
  obtain ⟨rfl, hknown⟩ := runs_parentOf hparent
  simp only [runs_bind_iff, runs_clockNow_iff, runs_newId_iff, CommentRepository.insert,
    runs_insertRow_iff, table_comments, put_comments, runs_pure_iff] at h
  obtain ⟨_, _, ⟨rfl, rfl⟩, _, _, ⟨rfl, rfl⟩, _, _, ⟨-, -, rfl⟩, _, w₂, hwatch, mentioned, w₃,
    hmentions, event, w₄, hevent, _, _, happend, rfl, rfl⟩ := h
  have hwatched : w₂.store.comments = _ :=
    sameTable_of_confined hwatch (confined_watch (List.mem_singleton_self _) _ _ _)
      (show TableName.comments ∉ _ by decide)
  have hmentioned : w₃.store.comments = _ :=
    sameTable_of_confined hmentions (confined_resolveMentions _ _ _ _ _)
      (show TableName.comments ∉ _ by decide)
  obtain ⟨-, rfl⟩ := runs_makeEvent_iff.mp hevent
  obtain ⟨happended, -, -, -⟩ := runs_append happend
  refine ⟨?_, hknown⟩
  rw [happended]
  exact hmentioned.trans hwatched

/-- A comment's text and its deletion are all that is rewritten. -/
structure Reworded (s s' : Store) (existing updated : Comment) : Prop where
  found : s.comments.find? existing.id = some existing
  comments : s'.comments = s.comments.update updated
  id : updated.id = existing.id
  card : updated.cardId = existing.cardId
  parent : updated.parentCommentId = existing.parentCommentId

theorem comments_edit {actor : Actor} {commentId : Uuid} {raw : EditCommentInput} {r : Comment}
    (h : Runs (CommentService.edit actor commentId raw) w r w') :
    ∃ existing, Reworded w.store w'.store existing r := by
  unfold CommentService.edit at h
  replace h := runs_bind_iff.mp h
  obtain ⟨input, _, hparse, h⟩ := h
  obtain ⟨-, rfl⟩ := runs_ofExcept_iff.mp hparse
  simp only [runs_bind_iff, runs_ensureNotArchived_iff, runs_decidePolicy_iff, runs_clockNow_iff,
    runs_pure_iff] at h
  obtain ⟨existing, _, hexisting, card, _, hcard, _, _, ⟨-, rfl⟩, policy, _, hpolicy, _, w₀,
    ⟨-, rfl⟩, _, _, ⟨rfl, rfl⟩, _, w₁, hupdate, event, w₂, hevent, _, _, happend, hr, rfl⟩ := h
  obtain ⟨rfl, hfound⟩ := runs_requireActiveComment hexisting
  obtain ⟨rfl, hcard⟩ := runs_accessibleCard hcard
  obtain rfl := runs_activePolicy hpolicy
  obtain rfl := runs_updateComment hupdate
  obtain ⟨-, rfl⟩ := runs_makeEvent_iff.mp hevent
  obtain ⟨happended, -, -, -⟩ := runs_append happend
  have hkey : existing.id = commentId := Table.find?_key hfound
  subst hr
  exact ⟨existing, by rwa [hkey], by rw [happended]; rfl, rfl, rfl, rfl⟩

theorem comments_softDelete {actor : Actor} {commentId : Uuid} {r : Comment}
    (h : Runs (CommentService.softDelete actor commentId) w r w') :
    ∃ existing, Reworded w.store w'.store existing r := by
  simp only [CommentService.softDelete, runs_bind_iff, runs_ensureNotArchived_iff,
    runs_decidePolicy_iff, runs_clockNow_iff, runs_pure_iff] at h
  obtain ⟨existing, _, hexisting, card, _, hcard, _, _, ⟨-, rfl⟩, policy, _, hpolicy, _, w₀,
    ⟨-, rfl⟩, _, _, ⟨rfl, rfl⟩, _, w₁, hupdate, event, w₂, hevent, _, _, happend, hr, rfl⟩ := h
  obtain ⟨rfl, hfound⟩ := runs_requireActiveComment hexisting
  obtain ⟨rfl, hcard⟩ := runs_accessibleCard hcard
  obtain rfl := runs_activePolicy hpolicy
  obtain rfl := runs_updateComment hupdate
  obtain ⟨-, rfl⟩ := runs_makeEvent_iff.mp hevent
  obtain ⟨happended, -, -, -⟩ := runs_append happend
  have hkey : existing.id = commentId := Table.find?_key hfound
  subst hr
  exact ⟨existing, by rwa [hkey], by rw [happended]; rfl, rfl, rfl, rfl⟩

theorem confined_addAttachment (actor : Actor) (cardId : ℕ) (raw : AddAttachmentInput) :
    Confined [.attachments, .cardEvents] (AttachmentService.add actor cardId raw) := by
  unfold AttachmentService.add
  refine confined_ofExcept fun _ => ?_
  refine confined_reads (Program.readsOnly_ensure _ _) fun _ => ?_
  refine confined_bind confined_newId fun _ => ?_
  refine confined_reads (readsOnly_accessibleCard _ _) fun _ => ?_
  refine confined_reads (Program.readsOnly_ensure _ _) fun _ => ?_
  refine confined_reads (readsOnly_activePolicy _) fun _ => ?_
  refine confined_reads (readsOnly_decidePolicy _) fun _ => ?_
  refine confined_reads (Program.readsOnly_read _) fun _ => ?_
  refine confined_reads (readsOnly_requireFound _ _) fun _ => ?_
  refine confined_reads (readsOnly_listAttachments _) fun _ => ?_
  refine confined_reads (Program.readsOnly_ensure _ _) fun _ => ?_
  refine confined_bind confined_newId fun _ => ?_
  refine confined_bind confined_clockNow fun _ => ?_
  refine confined_bind (confined_insertRow (List.mem_cons_self ..)) fun _ => ?_
  refine confined_bind (confined_makeEvent _ _ _) fun _ => ?_
  exact confined_bind (confined_insertRow (List.mem_cons_of_mem _ (List.mem_cons_self ..)))
    fun _ => confined_pure _

theorem confined_removeAttachment (actor : Actor) (attachmentId : Uuid) :
    Confined [.attachments, .cardEvents] (AttachmentService.remove actor attachmentId) := by
  unfold AttachmentService.remove AttachmentService.requireActive
  refine confined_bind (confined_reads (Program.readsOnly_read _) fun _ =>
    confined_reads (readsOnly_requireFound _ _) fun _ =>
      confined_reads (Program.readsOnly_ensure _ _) fun _ => confined_pure _) fun _ => ?_
  refine confined_reads (readsOnly_accessibleCard _ _) fun _ => ?_
  refine confined_reads (Program.readsOnly_ensure _ _) fun _ => ?_
  refine confined_reads (readsOnly_activePolicy _) fun _ => ?_
  refine confined_reads (readsOnly_decidePolicy _) fun _ => ?_
  refine confined_bind confined_clockNow fun _ => ?_
  refine confined_bind (confined_modifyRow fun _ => List.mem_cons_self ..) fun _ => ?_
  refine confined_bind (confined_makeEvent _ _ _) fun _ => ?_
  exact confined_bind (confined_insertRow (List.mem_cons_of_mem _ (List.mem_cons_self ..)))
    fun _ => confined_pure _

theorem RepliesAttached.added {c : Comment} (h : RepliesAttached s)
    (hcomments : s'.comments = s.comments.insert c)
    (hparent : ∀ id, c.parentCommentId = some id → ∃ p ∈ s.comments.rows,
      p.cardId = c.cardId ∧ id = p.parentCommentId.getD p.id) : RepliesAttached s' := by
  have hkept : ∀ p ∈ s.comments.rows, p ∈ s'.comments.rows := by
    intro p hp
    rw [hcomments]
    exact Table.mem_insert.mpr (.inl hp)
  intro x hx id hid
  rw [hcomments] at hx
  rcases Table.mem_insert.mp hx with hold | ⟨-, rfl⟩
  · obtain ⟨p, hp, hrest⟩ := h x hold id hid
    exact ⟨p, hkept p hp, hrest⟩
  · obtain ⟨p, hp, hcard, rfl⟩ := hparent id hid
    cases hparent' : p.parentCommentId with
    | none => exact ⟨p, hkept p hp, rfl, hcard, hparent'⟩
    | some top =>
      -- A reply to a reply goes under the comment that one is under.
      obtain ⟨q, hq, hqid, hqcard, hqtop⟩ := h p hp top hparent'
      exact ⟨q, hkept q hq, hqid, hqcard.trans hcard, hqtop⟩

theorem RepliesAttached.reworded {existing updated : Comment} (h : RepliesAttached s)
    (hr : Reworded s s' existing updated) : RepliesAttached s' := by
  have hexisting := Table.mem_of_find? hr.found
  have haccepts : s.comments.acceptsUpdate updated = true := by
    apply Table.acceptsUpdate_of_clash hexisting hr.id
    intro x
    change decide (updated.id = x.id) = decide (existing.id = x.id)
    rw [hr.id]
  have hself : updated ∈ s'.comments.rows := by
    rw [hr.comments, Table.rows_update haccepts]
    exact List.mem_map.mpr ⟨existing, hexisting, if_pos hr.id.symm⟩
  have hthere : ∀ p ∈ s.comments.rows, ∃ p' ∈ s'.comments.rows,
      p'.id = p.id ∧ p'.cardId = p.cardId ∧ p'.parentCommentId = p.parentCommentId := by
    intro p hp
    by_cases hid : p.id = existing.id
    · obtain rfl : p = existing := Table.eq_of_key hp hexisting hid
      exact ⟨updated, hself, hr.id, hr.card, hr.parent⟩
    · refine ⟨p, ?_, rfl, rfl, rfl⟩
      rw [hr.comments]
      exact Table.mem_update_of_ne hp fun hsame => hid (hsame.trans hr.id)
  have hback : ∀ x ∈ s'.comments.rows, ∃ c ∈ s.comments.rows,
      c.cardId = x.cardId ∧ c.parentCommentId = x.parentCommentId := by
    intro x hx
    rw [hr.comments] at hx
    rcases Table.mem_update hx with hold | rfl
    · exact ⟨x, hold, rfl, rfl⟩
    · exact ⟨existing, hexisting, hr.card.symm, hr.parent.symm⟩
  intro x hx id hid
  obtain ⟨c, hc, hcard, hparent⟩ := hback x hx
  obtain ⟨p, hp, hpid, hpcard, htop⟩ := h c hc id (hparent.trans hid)
  obtain ⟨p', hp', hpid', hpcard', hptop'⟩ := hthere p hp
  exact ⟨p', hp', hpid'.trans hpid, hpcard'.trans (hpcard.trans hcard), hptop'.trans htop⟩

theorem RepliesAttached.discarded {cardId : ℕ} (h : RepliesAttached w.store)
    (hdiscarded : Discarded w w' cardId) : RepliesAttached w'.store := by
  intro c hc id hid
  rw [hdiscarded.comments] at hc ⊢
  obtain ⟨hmem, hother⟩ := Table.mem_remove.mp hc
  obtain ⟨p, hp, hpid, hcard, htop⟩ := h c hmem id hid
  exact ⟨p, Table.mem_remove.mpr ⟨hp, by rwa [hcard]⟩, hpid, hcard, htop⟩

end writes

section runs

variable {w : World Store Tick}

theorem repliesAttached_transact {α : Type} {p : Tx α} (hw : RepliesAttached w.store)
    (hok : ∀ a w', Runs p w a w' → RepliesAttached w'.store) :
    RepliesAttached (transact p w).2.store := by
  rcases ht : transact p w with ⟨e | a, w'⟩
  · exact hw.of_comments (by rw [transact_error ht])
  · exact hok a w' (transact_ok_iff.mp ht)

theorem repliesAttached_collaboration (op : CollaborationOperation)
    (hw : RepliesAttached w.store) : RepliesAttached (transact op.body w).2.store := by
  have hframe : ∀ {α : Type} {names : List TableName} {p : Tx α} {w' : World Store Tick} {u : Unit},
      Confined names p → TableName.comments ∉ names → Runs (discard p) w u w' →
        RepliesAttached w'.store := by
    intro α names p w' u hp hnames h
    obtain ⟨a, h⟩ := runs_discard_iff.mp h
    exact hw.of_comments (sameTable_of_confined h hp hnames)
  refine repliesAttached_transact hw fun u w' h => ?_
  cases op with
  | addComment actor cardId raw author =>
    obtain ⟨r, h⟩ := runs_discard_iff.mp h
    obtain ⟨hcomments, hparent⟩ := comments_add h
    exact hw.added hcomments hparent
  | editComment actor commentId raw =>
    obtain ⟨r, h⟩ := runs_discard_iff.mp h
    obtain ⟨existing, hreworded⟩ := comments_edit h
    exact hw.reworded hreworded
  | softDeleteComment actor commentId =>
    obtain ⟨r, h⟩ := runs_discard_iff.mp h
    obtain ⟨existing, hreworded⟩ := comments_softDelete h
    exact hw.reworded hreworded
  | listComments actor cardId =>
    exact hframe (confined_readsOnly (readsOnly_listForCard _ _)) List.not_mem_nil h
  | addAttachment actor cardId raw => exact hframe (confined_addAttachment _ _ _) (by decide) h
  | getAttachment actor attachmentId =>
    exact hframe (confined_readsOnly (readsOnly_getActive _ _)) List.not_mem_nil h
  | removeAttachment actor attachmentId =>
    exact hframe (confined_removeAttachment _ _) (by decide) h
  | createRelation actor cardId raw =>
    obtain ⟨r, h⟩ := runs_discard_iff.mp h
    obtain ⟨checked, -, -, -, rfl⟩ := runs_createRelation_iff.mp h
    exact hw.of_comments rfl
  | deleteRelation actor cardId relationId =>
    obtain ⟨-, rfl⟩ := runs_deleteRelation_iff.mp h
    exact hw.of_comments rfl
  | listRelations actor cardId =>
    exact hframe (confined_readsOnly (readsOnly_listRelations _ _)) List.not_mem_nil h

variable [Platform]

/-- The card service and the administration take comments away with their card at most. -/
theorem repliesAttached_effect {w' : World Store Tick} {op : Operation}
    (hw : RepliesAttached w.store) (hop : ∀ cop, op ≠ .collaboration cop)
    (h : Effect w w' op) : RepliesAttached w'.store := by
  cases h with
  | untouched h => exact hw.of_comments (h.frame .comments (by decide))
  | created h => exact hw.of_comments (h.frame .comments (by decide))
  | changed h => exact hw.of_comments (h.rewritten.frame .comments (by decide))
  | discarded _ h => exact hw.discarded h
  | alerted h => exact hw.of_comments (h.frame .comments (by decide))
  | noted _ => exact absurd rfl (hop _)
  | related _ _ h | unrelated _ h => exact hw.of_comments (by rw [h.store])
  | unlocated _ _ h => exact hw.of_comments (h.frame .comments (by decide) (by decide))

theorem repliesAttached_step (op : Operation) (hw : RepliesAttached w.store) :
    RepliesAttached (step w op).store := by
  have hother : (∀ cop, op ≠ .collaboration cop) → RepliesAttached (step w op).store := fun hop =>
    step_induction (I := fun w => RepliesAttached w.store)
      (P := fun _ op => ∀ cop, op ≠ .collaboration cop) (fun _ _ _ _ h => h) (fun _ _ _ h => h)
      (fun _ _ _ hw hop heffect => repliesAttached_effect hw hop heffect) hw hop
  cases op with
  | card op => exact hother fun _ => nofun
  | collaboration op => exact repliesAttached_collaboration op hw
  | administration op => exact hother fun _ => nofun

theorem repliesAttached_run (inputs : ℕ → Tick) (ops : List Operation) :
    RepliesAttached (run (freshlySeeded inputs) ops).store := by
  refine run_induction (I := fun w => RepliesAttached w.store) (P := fun _ _ => True)
    (fun _ op hw _ => repliesAttached_step op hw) ops _ ?_ (runsUnder_true ops)
  have hnone : (freshlySeeded inputs).store.comments.rows = [] :=
    congrArg Table.rows (freshlySeeded_sameTable inputs (by decide) :
      ({} : Store).SameTable .comments _)
  simp [RepliesAttached, hnone]

end runs

section lists

variable {w w' : World Store Tick} {actor : Actor}

/-- The comments of a card as every read of them returns them. -/
def commentList (s : Store) (cardId : ℕ) : List Comment :=
  CommentService.redactDeletedComments
    (newestFirst (·.createdAt) (·.id) (commentsOf s cardId)).reverse

theorem runs_listForCard {cardId : ℕ} {list : List Comment}
    (h : Runs (CommentService.listForCard actor cardId) w list w') :
    list = commentList w.store cardId := by
  simp only [CommentService.listForCard, CommentRepository.listByCard, runs_bind_iff,
    runs_read_iff, runs_pure_iff] at h
  obtain ⟨card, _, hcard, _, _, ⟨rfl, rfl⟩, rfl, rfl⟩ := h
  obtain ⟨rfl, -⟩ := runs_accessibleCard hcard
  rfl

theorem readsOnly_detailOf (card : Card) : (BoardQueryService.detailOf card).ReadsOnly := by
  refine (Program.readsOnly_read _).bind fun _ => Program.ReadsOnly.bind ?_ fun _ =>
    (readsOnly_listAttachments _).bind fun _ => Program.readsOnly_pure _
  cases card.locationId with
  | none => exact Program.readsOnly_pure _
  | some id => exact Program.readsOnly_read _

theorem runs_cardDetailWithThread {cardId take : ℕ} {detail : CardDetailWithThread}
    (h : Runs (BoardQueryService.cardDetailWithThread actor cardId take) w detail w') :
    detail.comments = commentList w.store cardId := by
  simp only [BoardQueryService.cardDetailWithThread, BoardQueryService.listLatestByCard,
    CommentRepository.listByCard, runs_bind_iff, runs_read_iff, runs_pure_iff] at h
  obtain ⟨card, _, hcard, _, w₀, hdetail, _, _, ⟨rfl, rfl⟩, _, _, ⟨rfl, rfl⟩, rfl, rfl⟩ := h
  obtain ⟨rfl, hfound⟩ := runs_accessibleCard hcard
  obtain rfl := hdetail.of_readsOnly (readsOnly_detailOf _)
  have hid : card.id = cardId := Table.find?_key hfound
  rw [hid]
  rfl

theorem perm_commentList (s : Store) (cardId : ℕ) :
    (commentList s cardId).Perm (CommentService.redactDeletedComments (commentsOf s cardId)) :=
  ((List.reverse_perm _).trans (List.perm_insertionSort _ _)).map _

/-- Blanking a body leaves the shape of the thread alone. -/
theorem twoLevel_commentList {s : Store} (h : RepliesAttached s) (cardId : ℕ) :
    TwoLevel (commentList s cardId) := by
  have hperm := perm_commentList s cardId
  have hids : (CommentService.redactDeletedComments (commentsOf s cardId)).map (·.id) =
      (commentsOf s cardId).map (·.id) := by
    rw [CommentService.redactDeletedComments, List.map_map]
    apply List.map_congr_left
    intro c _
    simp only [Function.comp_apply]
    split_ifs <;> rfl
  constructor
  · rw [(hperm.map (·.id)).nodup_iff, hids]
    have hdistinct : (s.comments.rows.map (·.id)).Nodup := by
      refine List.pairwise_map.mpr (s.comments.distinct.imp fun {a b} hclash hid => ?_)
      rw [Row.clash_of_key a b hid] at hclash
      cases hclash
    exact hdistinct.sublist (List.filter_sublist.map _)
  · intro c hc id hid
    obtain ⟨row, hrow, rfl⟩ := List.mem_map.mp (hperm.mem_iff.mp hc)
    obtain ⟨hmem, hcard⟩ := List.mem_filter.mp hrow
    have hparent : row.parentCommentId = some id := by
      split_ifs at hid <;> exact hid
    obtain ⟨p, hp, hpid, hpcard, htop⟩ := h row hmem id hparent
    have hsame : p ∈ commentsOf s cardId := List.mem_filter.mpr ⟨hp, by rwa [hpcard]⟩
    refine ⟨_, hperm.mem_iff.mpr (List.mem_map.mpr ⟨p, hsame, rfl⟩), ?_⟩
    split_ifs <;> exact ⟨hpid, htop⟩

theorem body_commentList {s : Store} {cardId : ℕ} {c : Comment} (hc : c ∈ commentList s cardId)
    (hdeleted : c.deletedAt ≠ none) : c.body = "" := by
  obtain ⟨row, -, rfl⟩ := List.mem_map.mp ((perm_commentList s cardId).mem_iff.mp hc)
  split_ifs at hdeleted ⊢ with hnone
  · exact absurd (Option.isNone_iff_eq_none.mp hnone) hdeleted
  · rfl

end lists

/-- One of the reads that return the comments of a card returned these. -/
def ReturnsComments (w : World Store Tick) (cardId : ℕ) (list : List Comment) : Prop :=
  (∃ actor w', Runs (CommentService.listForCard actor cardId) w list w') ∨
    ∃ actor take detail w',
      Runs (BoardQueryService.cardDetailWithThread actor cardId take) w detail w' ∧
        detail.comments = list

/-- In every reachable state replies answer top-level comments of their card, and every list
of comments is shown as a thread, each comment once and the deleted ones without a text. -/
theorem comment_threads [Platform] (inputs : ℕ → Tick) (ops : List Operation) :
    RepliesAttached (run (freshlySeeded inputs) ops).store ∧
      ∀ cardId list, ReturnsComments (run (freshlySeeded inputs) ops) cardId list →
        (shown (buildCommentThread list)).Perm list ∧ list.Nodup ∧
          Threaded (buildCommentThread list) ∧ ∀ c ∈ list, c.deletedAt ≠ none → c.body = "" := by
  have hattached := repliesAttached_run inputs ops
  refine ⟨hattached, fun cardId list hreturns => ?_⟩
  obtain rfl : list = commentList (run (freshlySeeded inputs) ops).store cardId := by
    rcases hreturns with ⟨actor, w', h⟩ | ⟨actor, take, detail, w', h, rfl⟩
    · exact runs_listForCard h
    · exact runs_cardDetailWithThread h
  have htwo := twoLevel_commentList hattached cardId
  exact ⟨perm_shown htwo, htwo.ids.of_map, threaded_buildCommentThread _,
    fun _ hc hdeleted => body_commentList hc hdeleted⟩

/-- A comment, a reply to it, a reply to the reply, and the deletion of the first. -/
def repliedCard : List Operation :=
  [.card (.create ⟨101, 102, .sqlite⟩ sampleActor { title := "Pump" } {}),
    .collaboration (.addComment sampleActor 1 { body := "leaking" } none),
    .collaboration (.addComment sampleActor 1 { body := "where?", parentCommentId := some 115 } none),
    .collaboration
      (.addComment sampleActor 1 { body := "at the flange", parentCommentId := some 119 } none),
    .collaboration (.softDeleteComment sampleActor 115)]

/-- The deleted comment keeps its place, without its text, and both replies are under it. -/
theorem comment_threads_deleted : ∃ list, list.length = 3 ∧ (∃ c ∈ list, c.deletedAt ≠ none) ∧
    (shown (buildCommentThread list)).Perm list ∧ ∀ c ∈ list, c.deletedAt ≠ none → c.body = "" := by
  have hlist : Runs (CommentService.listForCard sampleActor 1)
      (@run samplePlatform (freshlySeeded sampleTicks) repliedCard)
      (commentList (@run samplePlatform (freshlySeeded sampleTicks) repliedCard).store 1) _ :=
    Prod.ext (by decide +kernel) rfl
  obtain ⟨hperm, -, -, hbodies⟩ := (@comment_threads samplePlatform sampleTicks repliedCard).2 1 _
    (.inl ⟨sampleActor, _, hlist⟩)
  exact ⟨_, by decide +kernel, by decide +kernel, hperm, hbodies⟩

example : (buildCommentThread (commentList
    (@run samplePlatform (freshlySeeded sampleTicks) repliedCard).store 1)).map
      (fun node => (node.comment.body, node.replies.map (·.body))) =
    [("", ["where?", "at the flange"])] := by decide +kernel

end AiKanban.Invariants
