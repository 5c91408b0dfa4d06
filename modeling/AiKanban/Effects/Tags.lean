import AiKanban.Effects.Footprint

/-!
# What happens to the tags of a card

Tag rows are only ever added, so a card keeps the tags its own rows name. A full
replacement writes the rows of one card and of no other.
-/
namespace AiKanban.Effects

open Domain Db Policy Relational Services Transactions

/-- The rows that give a card its tags. -/
def cardTagsOf (s : Store) (cardId : ℕ) : List CardTag :=
  s.cardTags.rows.filter fun r => r.cardId == cardId

/-- The names of a card's tags, in stored order. -/
def tagNames (s : Store) (cardId : ℕ) : List String :=
  (TagRepository.cardTagRows s cardId).map (·.name)

/-- Tags are never removed. -/
def TagsGrow (s s' : Store) : Prop := ∀ t ∈ s.tags.rows, t ∈ s'.tags.rows

/-- Every tag a card names is there. -/
def TagsKnown (s : Store) : Prop := ∀ r ∈ s.cardTags.rows, ∃ t ∈ s.tags.rows, t.id = r.tagId

theorem TagsGrow.refl (s : Store) : TagsGrow s s := fun _ h => h

theorem TagsGrow.trans {s s' s'' : Store} (h : TagsGrow s s') (h' : TagsGrow s' s'') :
    TagsGrow s s'' :=
  fun t ht => h' t (h t ht)

theorem TagsGrow.of_tags {s s' : Store} (h : s'.tags = s.tags) : TagsGrow s s' := by
  intro t ht
  rwa [h]

theorem TagsGrow.find? {s s' : Store} (h : TagsGrow s s') {t : Tag} {id : Uuid}
    (ht : s.tags.find? id = some t) : s'.tags.find? id = some t := by
  obtain ⟨hmem, hid⟩ := Table.find?_eq_some_iff.mp ht
  exact Table.find?_eq_some_iff.mpr ⟨h t hmem, hid⟩

/-- A card whose rows stay keeps its tags, whatever tags are added. -/
theorem cardTagRows_congr {s s' : Store} {cardId : ℕ} (hknown : TagsKnown s)
    (hgrow : TagsGrow s s') (hsame : cardTagsOf s' cardId = cardTagsOf s cardId) :
    TagRepository.cardTagRows s' cardId = TagRepository.cardTagRows s cardId := by
  unfold TagRepository.cardTagRows
  change ascendingBy _ ((cardTagsOf s' cardId).filterMap _) =
    ascendingBy _ ((cardTagsOf s cardId).filterMap _)
  rw [hsame]
  congr 1
  refine List.filterMap_congr fun r hr => ?_
  obtain ⟨t, ht, hid⟩ := hknown r (List.mem_filter.mp hr).1
  have hfind : s.tags.find? r.tagId = some t := Table.find?_eq_some_iff.mpr ⟨ht, hid⟩
  rw [hfind, hgrow.find? hfind]

theorem tagNames_congr {s s' : Store} {cardId : ℕ} (hknown : TagsKnown s)
    (hgrow : TagsGrow s s') (hsame : cardTagsOf s' cardId = cardTagsOf s cardId) :
    tagNames s' cardId = tagNames s cardId := by
  unfold tagNames
  rw [cardTagRows_congr hknown hgrow hsame]

/-- The rows of one card were replaced by rows for the given tags. -/
structure Retagged (s s' : Store) (cardId : ℕ) (tags : List Tag) : Prop where
  rows : s'.cardTags.rows =
    (s.cardTags.rows.filter fun r => !(r.cardId == cardId)) ++
      tags.map fun t => (⟨cardId, t.id⟩ : CardTag)
  grow : TagsGrow s s'
  known : ∀ t ∈ tags, t ∈ s'.tags.rows

namespace Retagged

variable {s s' : Store} {cardId : ℕ} {tags : List Tag}

theorem cardTagsOf_self (h : Retagged s s' cardId tags) :
    cardTagsOf s' cardId = tags.map fun t => ⟨cardId, t.id⟩ := by
  unfold cardTagsOf
  rw [h.rows, List.filter_append, List.filter_filter]
  simp

theorem cardTagsOf_ne (h : Retagged s s' cardId tags) {id : ℕ} (hne : id ≠ cardId) :
    cardTagsOf s' id = cardTagsOf s id := by
  unfold cardTagsOf
  rw [h.rows, List.filter_append, List.filter_filter]
  have htags : (tags.map fun t => (⟨cardId, t.id⟩ : CardTag)).filter (fun r => r.cardId == id) = [] := by
    simp [List.filter_eq_nil_iff, Ne.symm hne]
  rw [htags, List.append_nil]
  refine List.filter_congr fun r _ => ?_
  by_cases hr : r.cardId = id
  · simp [hr, hne]
  · simp [hr]

/-- The card's tags are the given ones, in stored order. -/
theorem cardTagRows_self (h : Retagged s s' cardId tags) :
    TagRepository.cardTagRows s' cardId = ascendingBy (fun t => asciiLower t.name) tags := by
  unfold TagRepository.cardTagRows
  change ascendingBy _ ((cardTagsOf s' cardId).filterMap _) = _
  rw [h.cardTagsOf_self, List.filterMap_map]
  congr 1
  have hall : ∀ t ∈ tags, ((fun r : CardTag => s'.tags.find? r.tagId) ∘
      fun t : Tag => (⟨cardId, t.id⟩ : CardTag)) t = some t :=
    fun t ht => Table.find?_of_mem (h.known t ht)
  rw [List.filterMap_congr hall, List.filterMap_some]

theorem mem_tagNames (h : Retagged s s' cardId tags) {name : String} :
    name ∈ tagNames s' cardId ↔ name ∈ tags.map (·.name) := by
  simp [tagNames, h.cardTagRows_self]

theorem tagsKnown (h : Retagged s s' cardId tags) (hs : TagsKnown s) : TagsKnown s' := by
  intro r hr
  rw [h.rows] at hr
  rcases List.mem_append.mp hr with hr | hr
  · obtain ⟨t, ht, hid⟩ := hs r (List.mem_filter.mp hr).1
    exact ⟨t, h.grow t ht, hid⟩
  · obtain ⟨t, ht, rfl⟩ := List.mem_map.mp hr
    exact ⟨t, h.known t ht, rfl⟩

end Retagged

section runs

variable {w w' : World Store Tick}

/-- A body that does nothing but add tags. -/
structure OnlyTags (w w' : World Store Tick) : Prop where
  store : w'.store = { w.store with tags := w'.store.tags }
  grow : TagsGrow w.store w'.store
  inputs : w'.inputs = w.inputs
  drawn : w.drawn ≤ w'.drawn

theorem OnlyTags.refl (w : World Store Tick) : OnlyTags w w := ⟨rfl, .refl _, rfl, le_rfl⟩

theorem OnlyTags.trans {w₁ w₂ w₃ : World Store Tick} (h : OnlyTags w₁ w₂) (h' : OnlyTags w₂ w₃) :
    OnlyTags w₁ w₃ where
  store := by rw [h'.store, h.store]
  grow := h.grow.trans h'.grow
  inputs := h'.inputs.trans h.inputs
  drawn := h.drawn.trans h'.drawn

theorem runs_findByNameCi {name : String} {tag : Option Tag}
    (h : Runs (TagRepository.findByNameCi name) w tag w') :
    w' = w ∧ ∀ t, tag = some t → t ∈ w.store.tags.rows := by
  obtain ⟨rfl, rfl⟩ := runs_read_iff.mp h
  exact ⟨rfl, fun t ht => List.mem_of_find?_eq_some ht⟩

/-- Inserting rows for one card puts them at the end. -/
theorem runs_insertCardTags {cardId : ℕ} {tagIds : List Uuid} {u : Unit}
    (h : Runs (Program.forEach (fun tagId => insertRow (⟨cardId, tagId⟩ : CardTag)
      (fun _ => uniqueViolation) danglingReference) tagIds : Tx Unit) w u w') :
    w'.store = { w.store with cardTags := w'.store.cardTags } ∧
      w'.store.cardTags.rows = w.store.cardTags.rows ++ tagIds.map (fun id => ⟨cardId, id⟩) ∧
      w'.inputs = w.inputs ∧ w'.drawn = w.drawn := by
  induction tagIds generalizing w with
  | nil =>
    obtain ⟨-, rfl⟩ := runs_progPure_iff.mp h
    simp
  | cons tagId tagIds ih =>
    simp only [Program.forEach, runs_progBind_iff, runs_insertRow_iff, table_cardTags,
      put_cardTags] at h
    obtain ⟨_, _, ⟨haccepts, -, rfl⟩, hrest⟩ := h
    obtain ⟨hstore, hrows, hinputs, hdrawn⟩ := ih hrest
    refine ⟨by rw [hstore]; rfl, ?_, hinputs, hdrawn⟩
    rw [hrows, World.withStore_store, Table.rows_insert haccepts, List.map_cons, List.append_assoc]
    rfl

theorem runs_setCardTags {cardId : ℕ} {tags : List Tag} {u : Unit}
    (h : Runs (TagRepository.setCardTags cardId (tags.map (·.id))) w u w')
    (hknown : ∀ t ∈ tags, t ∈ w.store.tags.rows) :
    w'.store = { w.store with cardTags := w'.store.cardTags } ∧
      Retagged w.store w'.store cardId tags ∧ w'.inputs = w.inputs ∧ w'.drawn = w.drawn := by
  simp only [TagRepository.setCardTags, runs_bind_iff, runs_deleteWhere_iff, table_cardTags,
    put_cardTags] at h
  obtain ⟨_, _, rfl, hinsert⟩ := h
  obtain ⟨hstore, hrows, hinputs, hdrawn⟩ := runs_insertCardTags hinsert
  refine ⟨by rw [hstore]; rfl, ⟨?_, ?_, ?_⟩, hinputs, hdrawn⟩
  · rw [hrows, List.map_map]
    rfl
  · exact .of_tags (by rw [hstore]; rfl)
  · rw [hstore]
    exact hknown

variable [Platform]

theorem runs_resolveTag {acc acc' : ResolvedTags} {name : String}
    (h : Runs (resolveTag acc name) w acc' w') (hacc : ∀ t ∈ acc.resolved, t ∈ w.store.tags.rows) :
    OnlyTags w w' ∧ ∀ t ∈ acc'.resolved, t ∈ w'.store.tags.rows := by
  simp only [resolveTag, runs_ite_iff, runs_pure_iff, runs_bind_iff] at h
  rcases h with ⟨-, rfl, rfl⟩ | ⟨-, found, w₁, hfind, h⟩
  · exact ⟨.refl _, hacc⟩
  · obtain ⟨rfl, hmem⟩ := runs_findByNameCi hfind
    cases found with
    | some existing =>
      obtain ⟨rfl, rfl⟩ := runs_pure_iff.mp h
      refine ⟨.refl _, fun t ht => ?_⟩
      rcases List.mem_append.mp ht with ht | ht
      · exact hacc t ht
      · rw [List.mem_singleton.mp ht]
        exact hmem existing rfl
    | none =>
      simp only [runs_bind_iff, runs_newId_iff, TagRepository.insert, runs_insertRow_iff,
        table_tags, put_tags, runs_pure_iff] at h
      obtain ⟨_, _, ⟨rfl, rfl⟩, _, _, ⟨haccepts, -, rfl⟩, rfl, rfl⟩ := h
      have hrows := Table.rows_insert haccepts
      refine ⟨⟨rfl, fun t ht => ?_, rfl, Nat.le_succ _⟩, fun t ht => ?_⟩
      · exact Table.mem_insert.mpr (.inl ht)
      · rcases List.mem_append.mp ht with ht | ht
        · exact Table.mem_insert.mpr (.inl (hacc t ht))
        · exact Table.mem_insert.mpr (.inr ⟨haccepts, List.mem_singleton.mp ht⟩)

/-- Resolving names adds tags at most, and every resolved tag is there. -/
theorem runs_resolveTags {names : List String} {tags : List Tag}
    (h : Runs (resolveTags names) w tags w') :
    OnlyTags w w' ∧ ∀ t ∈ tags, t ∈ w'.store.tags.rows := by
  simp only [resolveTags, runs_bind_iff, runs_pure_iff] at h
  obtain ⟨acc, _, hfold, rfl, rfl⟩ := h
  refine Runs.foldM_induction (I := fun acc w₁ =>
    OnlyTags w w₁ ∧ ∀ t ∈ acc.resolved, t ∈ w₁.store.tags.rows) ?_ ⟨.refl w, by simp⟩ hfold
  rintro acc name - w₁ acc' w₂ ⟨honly, hmem⟩ hstep
  obtain ⟨honly', hmem'⟩ := runs_resolveTag hstep hmem
  exact ⟨honly.trans honly', hmem'⟩

end runs
end AiKanban.Effects
