import AiKanban.Effects.Tags

/-!
# What an edit of a card does

`update` collects one event per field that gets another value, in a fixed order,
and writes the row once. The edited row and the recorded changes are functions of
the card and the input; only the tags need the store.
-/
namespace AiKanban.Effects

open Domain Db Policy Relational Services Services.CardService Transactions

/-- The change an edit of one field records: none when the value stays. -/
def change? {α : Type} [DecidableEq α] (input : Option α) (current : α)
    (change : α → α → FieldChange) : List FieldChange :=
  match input with
  | none => []
  | some value => if value = current then [] else [change current value]

/-- The row after an edit of one field. -/
def overwrite {α : Type} [DecidableEq α] (input : Option α) (current : α)
    (set : α → Card → Card) (next : Card) : Card :=
  match input with
  | none => next
  | some value => if value = current then next else set value next

@[simp] theorem change?_none {α : Type} [DecidableEq α] (current : α)
    (change : α → α → FieldChange) : change? none current change = [] := rfl

@[simp] theorem change?_same {α : Type} [DecidableEq α] (current : α)
    (change : α → α → FieldChange) : change? (some current) current change = [] :=
  if_pos rfl

theorem change?_ne {α : Type} [DecidableEq α] {value current : α} (h : value ≠ current)
    (change : α → α → FieldChange) :
    change? (some value) current change = [change current value] :=
  if_neg h

@[simp] theorem overwrite_none {α : Type} [DecidableEq α] (current : α)
    (set : α → Card → Card) (next : Card) : overwrite none current set next = next := rfl

@[simp] theorem overwrite_same {α : Type} [DecidableEq α] (current : α)
    (set : α → Card → Card) (next : Card) : overwrite (some current) current set next = next :=
  if_pos rfl

theorem overwrite_ne {α : Type} [DecidableEq α] {value current : α} (h : value ≠ current)
    (set : α → Card → Card) (next : Card) :
    overwrite (some value) current set next = set value next :=
  if_neg h

/-- An edit sets the field to the value the input asks for, or to the one it has. -/
theorem overwrite_eq {α : Type} [DecidableEq α] {input : Option α} {current : α}
    {set : α → Card → Card} {next : Card} (h : set current next = next) :
    overwrite input current set next = set (input.getD current) next := by
  cases input with
  | none => exact h.symm
  | some value =>
    by_cases hv : value = current
    · rw [hv, overwrite_same, Option.getD_some, h]
    · exact overwrite_ne hv set next

/-- The row an accepted edit writes. -/
def editedCard (card : Card) (input : UpdateCardInput) (updatedAt : Instant) : Card := { card with
  title := input.title.getD card.title
  description := input.description.getD card.description
  priority := input.priority.getD card.priority
  estimateMinutes := input.estimateMinutes.getD card.estimateMinutes
  assigneeId := input.assigneeId.getD card.assigneeId
  locationId := input.locationId.getD card.locationId
  waitingReason := (input.waitingReason.map some).getD card.waitingReason
  expectedResumeAt := (input.expectedResumeAt.map some).getD card.expectedResumeAt
  resumeAlertedAt :=
    if (input.expectedResumeAt.map some).all (· == card.expectedResumeAt) then card.resumeAlertedAt
    else none
  version := card.version + 1
  updatedAt }

/-- The changes before the tags, in the order of their events. -/
def rowChanges (card : Card) (input : UpdateCardInput) : List FieldChange :=
  change? input.title card.title .title ++
    change? input.description card.description .description ++
    change? input.priority card.priority .priority ++
    change? input.estimateMinutes card.estimateMinutes .estimateMinutes ++
    change? input.assigneeId card.assigneeId .assigneeId ++
    change? input.locationId card.locationId .locationId

/-- The changes of the waiting fields, which come last. -/
def waitingChanges (card : Card) (input : UpdateCardInput) : List FieldChange :=
  change? (input.waitingReason.map some) card.waitingReason .waitingReason ++
    change? (input.expectedResumeAt.map some) card.expectedResumeAt .expectedResumeAt

/-- What an operation did to the tags of one card, with the change it records. -/
inductive TagEdit (s s' : Store) (cardId : ℕ) : List FieldChange → Prop where
  | kept (grow : TagsGrow s s') (same : s'.cardTags = s.cardTags) : TagEdit s s' cardId []
  | replaced {tags : List Tag} (h : Retagged s s' cardId tags) :
      TagEdit s s' cardId [.tags (tagNames s cardId) (tags.map (·.name))]

theorem TagEdit.of_same {s s' : Store} {cardId : ℕ} (htags : s'.tags = s.tags)
    (hcardTags : s'.cardTags = s.cardTags) : TagEdit s s' cardId [] :=
  .kept (.of_tags htags) hcardTags

theorem TagEdit.congr {s s₁ s₂ s' : Store} {cardId : ℕ} {changes : List FieldChange}
    (h : TagEdit s₁ s₂ cardId changes) (htags : s₁.tags = s.tags)
    (hcardTags : s₁.cardTags = s.cardTags) (htags' : s'.tags = s₂.tags)
    (hcardTags' : s'.cardTags = s₂.cardTags) : TagEdit s s' cardId changes := by
  have hgrow : TagsGrow s₁ s₂ → TagsGrow s s' := by
    intro hgrow t ht
    rw [htags']
    exact hgrow t (by rwa [htags])
  cases h with
  | kept grow same => exact .kept (hgrow grow) (by rw [hcardTags', same, hcardTags])
  | @replaced tags h =>
    have hnames : tagNames s₁ cardId = tagNames s cardId := by
      simp only [tagNames, TagRepository.cardTagRows, htags, hcardTags]
    rw [hnames]
    refine .replaced ⟨?_, hgrow h.grow, ?_⟩
    · rw [hcardTags', h.rows, hcardTags]
    · rw [htags']
      exact h.known

theorem TagsKnown.of_frame {s s' : Store} (h : TagsKnown s) (hcardTags : s'.cardTags = s.cardTags)
    (hgrow : TagsGrow s s') : TagsKnown s' := by
  intro r hr
  rw [hcardTags] at hr
  obtain ⟨t, ht, hid⟩ := h r hr
  exact ⟨t, hgrow t ht, hid⟩

theorem TagEdit.tagsKnown {s s' : Store} {cardId : ℕ} {change : List FieldChange}
    (h : TagEdit s s' cardId change) (hknown : TagsKnown s) : TagsKnown s' := by
  cases h with
  | kept hgrow hsame => exact hknown.of_frame hsame hgrow
  | replaced hretagged => exact hretagged.tagsKnown hknown

theorem TagEdit.grow {s s' : Store} {cardId : ℕ} {change : List FieldChange}
    (h : TagEdit s s' cardId change) : TagsGrow s s' := by
  cases h with
  | kept hgrow _ => exact hgrow
  | replaced hretagged => exact hretagged.grow

/-- No recorded change, no other tags. -/
theorem TagEdit.tagNames_eq {s s' : Store} {cardId : ℕ} (h : TagEdit s s' cardId [])
    (hknown : TagsKnown s) : tagNames s' cardId = tagNames s cardId := by
  cases h with
  | kept hgrow hsame => exact tagNames_congr hknown hgrow (by rw [cardTagsOf, hsame, cardTagsOf])

/-- Tags of other cards stay. -/
theorem TagEdit.cardTagsOf_ne {s s' : Store} {cardId : ℕ} {change : List FieldChange}
    (h : TagEdit s s' cardId change) {id : ℕ} (hne : id ≠ cardId) :
    cardTagsOf s' id = cardTagsOf s id := by
  cases h with
  | kept _ hsame =>
    unfold cardTagsOf
    rw [hsame]
  | replaced hretagged => exact hretagged.cardTagsOf_ne hne

/-- The tables a draft may write before the row is written. -/
def draftTables : List TableName := [.cardWatchers, .tags, .cardTags]

theorem draftTables_sub {name : TableName} (h : name ∈ draftTables) : name ∈ rewriteTables := by
  revert h
  cases name <;> decide

/-- Between two points of an edit these changes were recorded. -/
structure Drafted (w w' : World Store Tick) (cardId : ℕ) (edit edit' : Edit)
    (changes : List FieldChange) : Prop where
  events : ∃ events, edit'.events = edit.events ++ events ∧
    events.map (·.body) = changes.map .fieldChanged ∧ (∀ e ∈ events, e.cardId = cardId) ∧
    Stamped w.inputs w.drawn events w'.drawn
  inputs : w'.inputs = w.inputs
  frame : ∀ name, name ∉ draftTables → w.store.SameTable name w'.store

namespace Drafted

variable {w w₁ w' : World Store Tick} {cardId : ℕ} {edit edit₁ edit' : Edit}
  {changes changes' : List FieldChange}

/-- Reads, draws and watchers leave the draft as it was. -/
theorem quiet (hinputs : w'.inputs = w.inputs) (hdrawn : w.drawn ≤ w'.drawn)
    (hframe : ∀ name, name ∉ draftTables → w.store.SameTable name w'.store) :
    Drafted w w' cardId edit edit [] :=
  ⟨⟨[], by simp, rfl, by simp, hdrawn⟩, hinputs, hframe⟩

theorem refl (w : World Store Tick) (cardId : ℕ) (edit : Edit) : Drafted w w cardId edit edit [] :=
  quiet rfl le_rfl fun name _ => .refl name _

theorem trans (h : Drafted w w₁ cardId edit edit₁ changes)
    (h' : Drafted w₁ w' cardId edit₁ edit' changes') :
    Drafted w w' cardId edit edit' (changes ++ changes') := by
  obtain ⟨events, hevents, hbodies, habout, hstamped⟩ := h.events
  obtain ⟨events', hevents', hbodies', habout', hstamped'⟩ := h'.events
  rw [h.inputs] at hstamped'
  refine ⟨⟨events ++ events', ?_, ?_, ?_, hstamped.append hstamped'⟩, h'.inputs.trans h.inputs, ?_⟩
  · rw [hevents', hevents, List.append_assoc]
  · rw [List.map_append, hbodies, hbodies', List.map_append]
  · intro e he
    rcases List.mem_append.mp he with he | he
    · exact habout e he
    · exact habout' e he
  · intro name hname
    exact (h.frame name hname).trans (h'.frame name hname)

end Drafted

variable {w w' : World Store Tick}

theorem runs_fieldChanged {actor : Actor} {card next : Card} {change : FieldChange}
    {edit edit' : Edit} (h : Runs (fieldChanged actor card change next edit) w edit' w') :
    edit'.next = next ∧ w'.store = w.store ∧ Drafted w w' card.id edit edit' [change] := by
  simp only [fieldChanged, runs_bind_iff, runs_makeEvent_iff, runs_pure_iff] at h
  obtain ⟨event, _, ⟨rfl, rfl⟩, rfl, rfl⟩ := h
  refine ⟨rfl, rfl, ⟨⟨_, rfl, rfl, ?_, stamped_envelope w actor card.id _⟩, rfl, ?_⟩⟩
  · simp [envelope]
  · exact fun name _ => .refl name _

theorem runs_watching {α : Type} {p : Tx α} {a : α} {cardId : ℕ} {edit : Edit}
    (h : Runs p w a w') (hp : Confined [.cardWatchers] p) :
    Drafted w w' cardId edit edit [] ∧ w'.store.tags = w.store.tags ∧
      w'.store.cardTags = w.store.cardTags := by
  have htags : w.store.SameTable .tags w'.store := sameTable_of_confined h hp (by decide)
  have hcardTags : w.store.SameTable .cardTags w'.store := sameTable_of_confined h hp (by decide)
  refine ⟨.quiet h.inputs h.drawn_le fun name hname => ?_, htags, hcardTags⟩
  refine sameTable_of_confined h hp fun hmem => hname ?_
  rw [List.mem_singleton.mp hmem]
  decide

/-- Editing one field records its change and sets it on the row. -/
theorem runs_editField {α : Type} [DecidableEq α] {actor : Actor} {card : Card} {input : Option α}
    {current : α} {change : α → α → FieldChange} {set : α → Card → Card} {guard : α → Tx Unit}
    {edit edit' : Edit}
    (h : Runs (editField actor card input current change set guard edit) w edit' w')
    (hguard : ∀ a, Confined [.cardWatchers] (guard a)) :
    edit'.next = overwrite input current set edit.next ∧
      Drafted w w' card.id edit edit' (change? input current change) ∧
      w'.store.tags = w.store.tags ∧ w'.store.cardTags = w.store.cardTags := by
  unfold editField at h
  cases input with
  | none =>
    obtain ⟨rfl, rfl⟩ := runs_pure_iff.mp h
    exact ⟨rfl, .refl _ _ _, rfl, rfl⟩
  | some value =>
    simp only [runs_ite_iff, runs_pure_iff, runs_bind_iff] at h
    rcases h with ⟨rfl, rfl, rfl⟩ | ⟨hne, _, w₁, hrun, hchanged⟩
    · rw [overwrite_same, change?_same]
      exact ⟨rfl, .refl _ _ _, rfl, rfl⟩
    · have hwatch : Drafted w w₁ card.id edit edit [] ∧ w₁.store.tags = w.store.tags ∧
          w₁.store.cardTags = w.store.cardTags := runs_watching hrun (hguard value)
      obtain ⟨hdraft, htags, hcardTags⟩ := hwatch
      obtain ⟨hnext, hstore, hdraft'⟩ := runs_fieldChanged hchanged
      rw [overwrite_ne hne, change?_ne hne]
      exact ⟨hnext, hdraft.trans hdraft', by rw [hstore, htags], by rw [hstore, hcardTags]⟩

/-- The waiting fields of a card outside the waiting lane are not edited. -/
theorem runs_editWaiting {actor : Actor} {card : Card} {policy : PolicyDocument}
    {input : UpdateCardInput} {edit edit' : Edit}
    (h : Runs (editWaiting actor card policy input edit) w edit' w') :
    edit'.next = overwrite (input.expectedResumeAt.map some) card.expectedResumeAt
        (fun day next => { next with expectedResumeAt := day, resumeAlertedAt := none })
        (overwrite (input.waitingReason.map some) card.waitingReason
          (fun reason next => { next with waitingReason := reason }) edit.next) ∧
      Drafted w w' card.id edit edit' (waitingChanges card input) ∧
      w'.store.tags = w.store.tags ∧ w'.store.cardTags = w.store.cardTags ∧
      (input.waitingReason = none ∧ input.expectedResumeAt = none ∨
        ∃ lane, LaneOf w.store card lane ∧ lane.key = waitingKey) := by
  simp only [editWaiting, runs_ite_iff, runs_pure_iff, runs_bind_iff, runs_ensure_iff] at h
  rcases h with ⟨hnone, rfl, rfl⟩ | ⟨-, lane, _, hlane, _, _, ⟨hkey, rfl⟩, edit₁, w₁, h₁, h₂⟩
  · simp only [Bool.and_eq_true, Option.isNone_iff_eq_none] at hnone
    obtain ⟨hreason, hday⟩ := hnone
    rw [waitingChanges, hreason, hday]
    exact ⟨rfl, .refl _ _ _, rfl, rfl, .inl ⟨rfl, rfl⟩⟩
  · obtain ⟨rfl, hof⟩ := runs_laneOfCard hlane
    have hguard : ∀ reason : Option WaitingReason, Confined [.cardWatchers]
        (forPresent reason fun key => ensureActiveWaitingReason policy key card) := fun reason =>
      confined_readsOnly (readsOnly_forPresent fun _ => readsOnly_ensureActiveWaitingReason _ _ _)
    obtain ⟨hnext₁, hdraft₁, htags₁, hcardTags₁⟩ := runs_editField h₁ hguard
    obtain ⟨hnext₂, hdraft₂, htags₂, hcardTags₂⟩ := runs_editField h₂ fun _ => confined_pure _
    refine ⟨by rw [hnext₂, hnext₁], hdraft₁.trans hdraft₂, by rw [htags₂, htags₁],
      by rw [hcardTags₂, hcardTags₁], .inr ⟨lane, hof, ?_⟩⟩
    simpa [waitingKey] using hkey

/-- The changes an edit records, with the tag change in its place. -/
def changes (card : Card) (input : UpdateCardInput) (tagChange : List FieldChange) :
    List FieldChange :=
  rowChanges card input ++ tagChange ++ waitingChanges card input

/-- Only an edit of a card in the waiting lane may name a waiting field. -/
def WaitingEditAllowed (s : Store) (card : Card) (input : UpdateCardInput) : Prop :=
  input.waitingReason = none ∧ input.expectedResumeAt = none ∨
    ∃ lane, LaneOf s card lane ∧ lane.key = waitingKey

theorem WaitingEditAllowed.of_frame {s s' : Store} {card : Card} {input : UpdateCardInput}
    (h : WaitingEditAllowed s' card input) (hlanes : s'.lanes = s.lanes) :
    WaitingEditAllowed s card input := by
  unfold WaitingEditAllowed LaneOf at h ⊢
  rwa [hlanes] at h

/-- The resume date is the only field whose edit sets another one, so it comes last. -/
theorem editedCard_eq {card row : Card} {input : UpdateCardInput} {updatedAt : Instant}
    (hrow : { row with
        expectedResumeAt := (input.expectedResumeAt.map some).getD card.expectedResumeAt
        resumeAlertedAt :=
          if (input.expectedResumeAt.map some).all (· == card.expectedResumeAt) then
            card.resumeAlertedAt
          else none
        version := card.version + 1, updatedAt } = editedCard card input updatedAt)
    (hday : row.expectedResumeAt = card.expectedResumeAt)
    (halerted : row.resumeAlertedAt = card.resumeAlertedAt) {next : Card}
    (hnext : next = overwrite (input.expectedResumeAt.map some) card.expectedResumeAt
      (fun day next => { next with expectedResumeAt := day, resumeAlertedAt := none }) row) :
    { next with version := card.version + 1, updatedAt } = editedCard card input updatedAt := by
  rw [hnext, ← hrow, ← hday, ← halerted]
  cases input.expectedResumeAt with
  | none => rfl
  | some day =>
    rw [Option.map_some]
    by_cases hsame : some day = row.expectedResumeAt
    · rw [hsame, overwrite_same]
      simp
    · rw [overwrite_ne hsame]
      simp [hsame]

section

variable [Platform]

theorem runs_editTags {actor : Actor} {card : Card} {input : Option (List String)}
    {edit edit' : Edit} (h : Runs (editTags actor card input edit) w edit' w') :
    ∃ changes, edit'.next = edit.next ∧ Drafted w w' card.id edit edit' changes ∧
      TagEdit w.store w'.store card.id changes := by
  unfold editTags at h
  cases input with
  | none =>
    obtain ⟨rfl, rfl⟩ := runs_pure_iff.mp h
    exact ⟨[], rfl, .refl _ _ _, .of_same rfl rfl⟩
  | some names =>
    simp only [TagRepository.listByCard, runs_bind_iff, runs_read_iff, runs_ite_iff, runs_pure_iff]
      at h
    obtain ⟨_, w₀, ⟨rfl, rfl⟩, tags, w₁, hresolve, h⟩ := h
    obtain ⟨honly, hknown⟩ := runs_resolveTags hresolve
    have hresolved : Drafted w₀ w₁ card.id edit edit [] := by
      refine .quiet honly.inputs honly.drawn fun name hname => ?_
      rw [honly.store]
      cases name <;> first | rfl | exact absurd (by decide) hname
    rcases h with ⟨-, rfl, rfl⟩ | ⟨-, _, w₂, hset, hchanged⟩
    · exact ⟨[], rfl, hresolved, .kept honly.grow (by rw [honly.store])⟩
    · obtain ⟨hstore, hretag, hinputs, hdrawn⟩ := runs_setCardTags hset hknown
      obtain ⟨hnext, hsame, hdraft⟩ := runs_fieldChanged hchanged
      have hset' : Drafted w₁ w₂ card.id edit edit [] := by
        refine .quiet hinputs hdrawn.ge fun name hname => ?_
        rw [hstore]
        cases name <;> first | rfl | exact absurd (by decide) hname
      refine ⟨_, hnext, (hresolved.trans hset').trans hdraft, .replaced ?_⟩
      rw [hsame]
      refine ⟨?_, honly.grow.trans hretag.grow, hretag.known⟩
      rw [hretag.rows, honly.store]

theorem runs_editFields {deps : CardServiceDeps} {actor : Actor} {card : Card}
    {policy : PolicyDocument} {input : UpdateCardInput} {edit : Edit}
    (h : Runs (editFields deps actor card policy input) w edit w') :
    ∃ tagChange, Drafted w w' card.id ⟨card, []⟩ edit (changes card input tagChange) ∧
      TagEdit w.store w'.store card.id tagChange ∧ WaitingEditAllowed w.store card input ∧
      ∀ updatedAt, { edit.next with version := card.version + 1, updatedAt } =
        editedCard card input updatedAt := by
  simp only [editFields, runs_bind_iff] at h
  obtain ⟨e₁, w₁, h₁, e₂, w₂, h₂, e₃, w₃, h₃, e₄, w₄, h₄, e₅, w₅, h₅, e₆, w₆, h₆, e₇, w₇, h₇, h₈⟩ := h
  have hlocation : ∀ a : Option Uuid, Confined [.cardWatchers] (forPresent a requireLocation) :=
    fun _ => confined_readsOnly (readsOnly_forPresent readsOnly_requireLocation)
  obtain ⟨n₁, d₁, t₁, c₁⟩ := runs_editField h₁ fun _ => confined_pure _
  obtain ⟨n₂, d₂, t₂, c₂⟩ := runs_editField h₂ fun _ => confined_pure _
  obtain ⟨n₃, d₃, t₃, c₃⟩ := runs_editField h₃ fun _ => confined_pure _
  obtain ⟨n₄, d₄, t₄, c₄⟩ := runs_editField h₄ fun _ => confined_pure _
  obtain ⟨n₅, d₅, t₅, c₅⟩ := runs_editField h₅ fun _ => confined_assign (by simp) _ _ _
  obtain ⟨n₆, d₆, t₆, c₆⟩ := runs_editField h₆ hlocation
  obtain ⟨tagChange, n₇, d₇, htags⟩ := runs_editTags h₇
  obtain ⟨n₈, d₈, t₈, c₈, hallowed⟩ := runs_editWaiting h₈
  have drow := ((((d₁.trans d₂).trans d₃).trans d₄).trans d₅).trans d₆
  have dtags := drow.trans d₇
  refine ⟨tagChange, dtags.trans d₈, ?_, ?_, ?_⟩
  · have htags₆ : w₆.store.tags = w.store.tags := by rw [t₆, t₅, t₄, t₃, t₂, t₁]
    have hcardTags₆ : w₆.store.cardTags = w.store.cardTags := by rw [c₆, c₅, c₄, c₃, c₂, c₁]
    exact htags.congr htags₆ hcardTags₆ t₈ c₈
  · exact WaitingEditAllowed.of_frame hallowed (dtags.frame .lanes (by decide))
  · intro updatedAt
    -- Each field still has the card's value when its own edit comes.
    have m₁ := n₁.trans (overwrite_eq rfl)
    rw [m₁] at n₂
    have m₂ := n₂.trans (overwrite_eq rfl)
    rw [m₂] at n₃
    have m₃ := n₃.trans (overwrite_eq rfl)
    rw [m₃] at n₄
    have m₄ := n₄.trans (overwrite_eq rfl)
    rw [m₄] at n₅
    have m₅ := n₅.trans (overwrite_eq rfl)
    rw [m₅] at n₆
    have m₆ := n₆.trans (overwrite_eq rfl)
    rw [n₇, m₆] at n₈
    have m₇ := n₈.trans (congrArg _ (overwrite_eq rfl))
    refine editedCard_eq ?_ ?_ ?_ m₇ <;> rfl

/-- What an accepted `update` does: nothing to the row when no value changes, or one
rewrite with the events of its changes. -/
theorem runs_updateBody {deps : CardServiceDeps} {actor : Actor} {cardId : ℕ}
    {input : UpdateCardInput} {r : Card}
    (h : Runs (updateBody deps actor cardId input) w r w') :
    ∃ card tagChange, w.store.cards.find? cardId = some card ∧ card.archivedAt = none ∧
      card.version = input.expectedVersion ∧ WaitingEditAllowed w.store card input ∧
      TagEdit w.store w'.store card.id tagChange ∧
      (changes card input tagChange = [] ∧ r = card ∧
          (∀ name, name ∉ draftTables → w.store.SameTable name w'.store) ∨
        ∃ events updatedAt, r = editedCard card input updatedAt ∧
          events.map (·.body) = (changes card input tagChange).map .fieldChanged ∧
          changes card input tagChange ≠ [] ∧
          Rewritten w w' card (editedCard card input updatedAt) events) := by
  simp only [updateBody, runs_bind_iff, runs_ensureNotArchived_iff, runs_decidePolicy_iff,
    runs_ensureVersion_iff, runs_ite_iff, runs_pure_iff, runs_clockNow_iff] at h
  obtain ⟨card, _, hcard, _, _, ⟨hactive, rfl⟩, policy, _, hpolicy, _, _, ⟨-, rfl⟩, _, w₀,
    ⟨hversion, rfl⟩, edit, w₁, hedit, h⟩ := h
  obtain ⟨rfl, hfound⟩ := runs_accessibleCard hcard
  obtain rfl := runs_activePolicy hpolicy
  obtain ⟨tagChange, hdraft, htags, hallowed, hnext⟩ := runs_editFields hedit
  obtain ⟨events, hevents, hbodies, habout, hstamped⟩ := hdraft.events
  have hid : card.id = cardId := Table.find?_key hfound
  simp only [List.nil_append] at hevents
  refine ⟨card, tagChange, hfound, hactive, hversion, hallowed, ?_⟩
  rcases h with ⟨hempty, rfl, rfl⟩ | ⟨hne, now, _, ⟨rfl, rfl⟩, _, w₂, hupdate, _, w₃, happend, rfl, rfl⟩
  · refine ⟨htags, .inl ⟨?_, rfl, hdraft.frame⟩⟩
    rw [hevents, List.isEmpty_iff] at hempty
    rw [hempty] at hbodies
    simpa using hbodies.symm
  · rw [hnext] at hupdate
    obtain ⟨haccepts, hs₂, hi₂, hd₂⟩ := runs_updateCard hupdate
    obtain ⟨hs₃, hlog, hi₃, hd₃⟩ := runs_appendEach happend
    simp only [World.tick_store, World.tick_inputs, World.tick_drawn] at haccepts hs₂ hi₂ hd₂
    have hcards : w₁.store.cards = w₀.store.cards := hdraft.frame .cards (by decide)
    have hlog₁ : w₁.store.cardEvents = w₀.store.cardEvents := hdraft.frame .cardEvents (by decide)
    have hs₃' : w'.store = { w₁.store with
        cards := w₁.store.cards.update (editedCard card input w₁.peek.now)
        cardEvents := w'.store.cardEvents } := by
      rw [hs₃, hs₂]
    refine ⟨htags.congr rfl rfl (by rw [hs₃']) (by rw [hs₃']), .inr ⟨edit.events, w₁.peek.now,
      hnext _, ?_, ?_, ?_⟩⟩
    · rw [hevents, hbodies]
    · intro hnone
      rw [hnone] at hbodies
      rw [hevents, List.map_eq_nil_iff.mp hbodies] at hne
      simp at hne
    · exact {
        found := by rw [hid]; exact hfound
        accepted := by rw [← hcards]; exact haccepts
        cards := by rw [hs₃', ← hcards]
        key := rfl
        log := by rw [hlog, hs₂, ← hlog₁]
        about := by rw [hevents]; exact habout
        stamped := by
          rw [hevents]
          exact hstamped.widen le_rfl (by omega)
        inputs := by rw [hi₃, hi₂, hdraft.inputs]
        frame := by
          intro name hname
          have hdrafted := hdraft.frame name (fun hmem => hname (draftTables_sub hmem))
          rw [hs₃']
          cases name <;> first | exact hdrafted | exact absurd (by decide) hname }

end
end AiKanban.Effects
