import AiKanban.Effects.Steps

/-!
# The dossier of a card

A card's row with its tags, comments, attachments, relations and events. Every effect
leaves the dossiers alone of the cards it is not about.
-/
namespace AiKanban.Invariants

open Domain Db Relational Services Transactions Effects
open Application

/-- A card and what hangs on it. -/
structure Dossier where
  card : Option Card
  tags : List String
  comments : List Comment
  attachments : List Attachment
  relations : List CardRelation
  events : List CardEvent
  deriving DecidableEq

/-- The events of a card, in append order. -/
def eventsOf (s : Store) (cardId : ℕ) : List CardEvent :=
  s.cardEvents.rows.filter fun e => e.cardId == cardId

def dossier (s : Store) (cardId : ℕ) : Dossier where
  card := s.cards.find? cardId
  tags := tagNames s cardId
  comments := commentsOf s cardId
  attachments := attachmentsOf s cardId
  relations := relationsOf s cardId
  events := eventsOf s cardId

section frame

variable {w w' : World Store Tick} {id : ℕ}

theorem dossier_eq {s s' : Store} (hknown : TagsKnown s) (hgrow : TagsGrow s s')
    (hcard : s'.cards.find? id = s.cards.find? id) (htags : cardTagsOf s' id = cardTagsOf s id)
    (hcomments : commentsOf s' id = commentsOf s id)
    (hattachments : attachmentsOf s' id = attachmentsOf s id)
    (hrelations : relationsOf s' id = relationsOf s id)
    (hevents : eventsOf s' id = eventsOf s id) : dossier s' id = dossier s id := by
  unfold dossier
  rw [hcard, tagNames_congr hknown hgrow htags, hcomments, hattachments, hrelations, hevents]

theorem eventsOf_append {s s' : Store} {events : List CardEvent} {cardId : ℕ}
    (hlog : s'.cardEvents.rows = s.cardEvents.rows ++ events)
    (habout : ∀ e ∈ events, e.cardId = cardId) :
    eventsOf s' id = eventsOf s id ++ if id = cardId then events else [] := by
  unfold eventsOf
  rw [hlog, List.filter_append]
  congr 1
  split_ifs with hid
  · exact List.filter_eq_self.mpr fun e he => by simp [habout e he, hid]
  · exact List.filter_eq_nil_iff.mpr fun e he => by simpa [habout e he] using Ne.symm hid

theorem dossier_untouched (hknown : TagsKnown w.store) (h : Untouched w w') :
    dossier w'.store id = dossier w.store id := by
  have hcards : w'.store.cards = w.store.cards := h.frame .cards (by decide)
  have hcardTags : w'.store.cardTags = w.store.cardTags := h.frame .cardTags (by decide)
  have hcomments : w'.store.comments = w.store.comments := h.frame .comments (by decide)
  have hattachments : w'.store.attachments = w.store.attachments := h.frame .attachments (by decide)
  have hrelations : w'.store.cardRelations = w.store.cardRelations :=
    h.frame .cardRelations (by decide)
  have hevents : w'.store.cardEvents = w.store.cardEvents := h.frame .cardEvents (by decide)
  refine dossier_eq hknown h.tags ?_ ?_ ?_ ?_ ?_ ?_
  · rw [hcards]
  · rw [cardTagsOf, hcardTags, cardTagsOf]
  · rw [commentsOf, hcomments, commentsOf]
  · rw [attachmentsOf, hattachments, attachmentsOf]
  · rw [relationsOf, hrelations, relationsOf]
  · rw [eventsOf, hevents, eventsOf]

theorem dossier_created {deps : CardServiceDeps} {card : Card} {resolved : List Tag}
    {event : CardEvent} (hknown : TagsKnown w.store) (h : Created deps w w' card resolved event)
    (hne : id ≠ card.id) : dossier w'.store id = dossier w.store id := by
  have hcomments : w'.store.comments = w.store.comments := h.frame .comments (by decide)
  have hattachments : w'.store.attachments = w.store.attachments := h.frame .attachments (by decide)
  have hrelations : w'.store.cardRelations = w.store.cardRelations :=
    h.frame .cardRelations (by decide)
  refine dossier_eq hknown h.tags.grow ?_ (h.tags.cardTagsOf_ne hne) ?_ ?_ ?_ ?_
  · rw [h.cards]
    exact Table.find?_insert_ne fun hk => hne hk.symm
  · rw [commentsOf, hcomments, commentsOf]
  · rw [attachmentsOf, hattachments, attachmentsOf]
  · rw [relationsOf, hrelations, relationsOf]
  · have habout : ∀ e ∈ [event], e.cardId = card.id := by simp [h.about]
    rw [eventsOf_append h.log habout, if_neg hne, List.append_nil]

theorem dossier_changed [Platform] {op : CardOperation} {card next : Card}
    {events : List CardEvent} (hknown : TagsKnown w.store)
    (h : Changed op w w' card next events) (hne : id ≠ card.id) :
    dossier w'.store id = dossier w.store id := by
  have hr := h.rewritten
  have hcomments : w'.store.comments = w.store.comments := hr.frame .comments (by decide)
  have hattachments : w'.store.attachments = w.store.attachments :=
    hr.frame .attachments (by decide)
  have hrelations : w'.store.cardRelations = w.store.cardRelations :=
    hr.frame .cardRelations (by decide)
  obtain ⟨_, htags⟩ := h.change.tagEdit
  refine dossier_eq hknown htags.grow (hr.find?_ne hne) (htags.cardTagsOf_ne hne) ?_ ?_ ?_ ?_
  · rw [commentsOf, hcomments, commentsOf]
  · rw [attachmentsOf, hattachments, attachmentsOf]
  · rw [relationsOf, hrelations, relationsOf]
  · rw [eventsOf_append hr.log hr.about, if_neg hne, List.append_nil]

theorem dossier_noted {cardId : ℕ} {event : CardEvent} (hknown : TagsKnown w.store)
    (h : Noted w w' cardId event) (hne : id ≠ cardId) :
    dossier w'.store id = dossier w.store id := by
  have hcards : w'.store.cards = w.store.cards := h.frame .cards (by decide)
  have hcardTags : w'.store.cardTags = w.store.cardTags := h.frame .cardTags (by decide)
  have hrelations : w'.store.cardRelations = w.store.cardRelations :=
    h.frame .cardRelations (by decide)
  refine dossier_eq hknown (.of_tags (h.frame .tags (by decide))) ?_ ?_ (h.comments id hne)
    (h.attachments id hne) ?_ ?_
  · rw [hcards]
  · rw [cardTagsOf, hcardTags, cardTagsOf]
  · rw [relationsOf, hrelations, relationsOf]
  · have habout : ∀ e ∈ [event], e.cardId = cardId := by simp [h.about]
    rw [eventsOf_append h.log habout, if_neg hne, List.append_nil]

theorem dossier_alerted (hknown : TagsKnown w.store) (h : Alerted w w')
    (hcard : w'.store.cards.find? id = w.store.cards.find? id) :
    dossier w'.store id = dossier w.store id := by
  have hcardTags : w'.store.cardTags = w.store.cardTags := h.frame .cardTags (by decide)
  have hcomments : w'.store.comments = w.store.comments := h.frame .comments (by decide)
  have hattachments : w'.store.attachments = w.store.attachments := h.frame .attachments (by decide)
  have hrelations : w'.store.cardRelations = w.store.cardRelations :=
    h.frame .cardRelations (by decide)
  have hevents : w'.store.cardEvents = w.store.cardEvents := h.frame .cardEvents (by decide)
  refine dossier_eq hknown (.of_tags (h.frame .tags (by decide))) hcard ?_ ?_ ?_ ?_ ?_
  · rw [cardTagsOf, hcardTags, cardTagsOf]
  · rw [commentsOf, hcomments, commentsOf]
  · rw [attachmentsOf, hattachments, attachmentsOf]
  · rw [relationsOf, hrelations, relationsOf]
  · rw [eventsOf, hevents, eventsOf]

/-- A change of relations reaches no other part of a dossier. -/
theorem dossier_linked_iff {relations : Table CardRelation} (h : Linked w w' relations) :
    dossier w'.store id = dossier w.store id ↔ relationsOf w'.store id = relationsOf w.store id := by
  simp only [dossier, h.store, Dossier.mk.injEq, tagNames, TagRepository.cardTagRows, commentsOf,
    attachmentsOf, eventsOf]
  simp

/-- A discard removes the rows of one card and keeps those of the others. -/
theorem filter_kept {ρ : Type} {rows : List ρ} {of : ρ → ℕ} {cardId : ℕ} (hne : id ≠ cardId) :
    (rows.filter fun r => !(of r == cardId)).filter (fun r => of r == id) =
      rows.filter fun r => of r == id := by
  rw [List.filter_filter]
  refine List.filter_congr fun r _ => ?_
  by_cases hr : of r = id
  · simp [hr, hne]
  · simp [hr]

theorem find?_discarded {cardId : ℕ} (h : Discarded w w' cardId) (hne : id ≠ cardId) :
    w'.store.cards.find? id = w.store.cards.find? id := by
  rw [h.cards, Table.find?_remove]
  cases hfound : w.store.cards.find? id with
  | none => rfl
  | some card =>
    have hid : card.id = id := Table.find?_key hfound
    simp [hid, hne]

theorem find?_discarded_self {cardId : ℕ} (h : Discarded w w' cardId) :
    w'.store.cards.find? cardId = none := by
  rw [h.cards, Table.find?_remove, Option.filter_eq_none_iff]
  intro card hfound
  have hid : card.id = cardId := Table.find?_key hfound
  simp [hid]

theorem tagNames_discarded {cardId : ℕ} (h : Discarded w w' cardId) (hne : id ≠ cardId) :
    tagNames w'.store id = tagNames w.store id := by
  have hcardTags : cardTagsOf w'.store id = cardTagsOf w.store id := by
    rw [cardTagsOf, h.cardTags]
    exact filter_kept hne
  unfold tagNames TagRepository.cardTagRows
  change List.map _ (ascendingBy _ ((cardTagsOf w'.store id).filterMap _)) =
    List.map _ (ascendingBy _ ((cardTagsOf w.store id).filterMap _))
  rw [hcardTags, h.tags]

theorem eventsOf_discarded {cardId : ℕ} (h : Discarded w w' cardId) (hne : id ≠ cardId) :
    eventsOf w'.store id = eventsOf w.store id := by
  rw [eventsOf, h.cardEvents]
  exact filter_kept hne

theorem dossier_discarded {cardId : ℕ} (h : Discarded w w' cardId) (hne : id ≠ cardId)
    (hrelations : relationsOf w'.store id = relationsOf w.store id) :
    dossier w'.store id = dossier w.store id := by
  have hcomments : commentsOf w'.store id = commentsOf w.store id := by
    rw [commentsOf, h.comments]
    exact filter_kept hne
  have hattachments : attachmentsOf w'.store id = attachmentsOf w.store id := by
    rw [attachmentsOf, h.attachments]
    exact filter_kept hne
  unfold dossier
  rw [find?_discarded h hne, tagNames_discarded h hne, hrelations, hcomments, hattachments,
    eventsOf_discarded h hne]

end frame
end AiKanban.Invariants
