import Mathlib.Data.String.Basic
import AiKanban.Application.Operations
import AiKanban.Db.Seed
import AiKanban.Effects.Edits

/-!
# Tags for names

The names of a command are made distinct under the fold of the runtime, and each is looked up under
the fold of the database, which knows the letters of ASCII only. Names the database takes for one
are one for the runtime too, so no tag is found twice and none is added that is there.
-/
namespace AiKanban.Invariants

open Application Domain Db Effects Relational Services Transactions

section table

/-- No two tags have names that NOCASE takes for one. -/
theorem nocase_nodup (t : Table Tag) : (t.rows.map fun tag => asciiLower tag.name).Nodup := by
  refine List.pairwise_map.mpr (t.distinct.imp ?_)
  intro a b hclash heq
  simp [Row.clash, heq] at hclash

theorem eq_of_nocase {t : Table Tag} {a b : Tag} (ha : a ∈ t.rows) (hb : b ∈ t.rows)
    (h : asciiLower a.name = asciiLower b.name) : a = b :=
  List.inj_on_of_nodup_map (nocase_nodup t) ha hb h

theorem tag_accepts_iff {t : Table Tag} {tag : Tag} : t.accepts tag = true ↔
    ∀ r ∈ t.rows, r.id ≠ tag.id ∧ asciiLower r.name ≠ asciiLower tag.name := by
  simp only [Table.accepts, List.all_eq_true, Row.clash, Bool.not_eq_true', Bool.or_eq_false_iff,
    decide_eq_false_iff_not]
  constructor
  · intro h r hr
    exact ⟨(h r hr).1 ∘ Eq.symm, (h r hr).2 ∘ Eq.symm⟩
  · intro h r hr
    exact ⟨(h r hr).1 ∘ Eq.symm, (h r hr).2 ∘ Eq.symm⟩

end table

/-- Every id still to be drawn is new among the tags, and no two of them are the same. -/
structure FreshTagIds (w : World Store Tick) : Prop where
  unused : ∀ i, w.drawn ≤ i → ∀ t ∈ w.store.tags.rows, t.id ≠ (w.inputs i).id
  distinct : ∀ i j, w.drawn ≤ i → i < j → (w.inputs i).id ≠ (w.inputs j).id

/-- Names that NOCASE takes for one are one under the runtime's fold. -/
def LowersNocase [Platform] : Prop :=
  ∀ a b, asciiLower a = asciiLower b → Platform.toLowerCase a = Platform.toLowerCase b

section resolving

variable [Platform] {w w' w₁ w₂ : World Store Tick} {acc acc' : ResolvedTags} {name : String}

/-- The world after a tag for the name was added under the next id. -/
def createdTag (w : World Store Tick) (name : String) : World Store Tick :=
  w.tick.withStore { w.store with tags := w.store.tags.insert ⟨w.peek.id, name⟩ }

/-- What resolving one name can do. -/
inductive Resolves (w : World Store Tick) (acc : ResolvedTags) (name : String) :
    ResolvedTags → World Store Tick → Prop
  | seen (hseen : Platform.toLowerCase name ∈ acc.seen) : Resolves w acc name acc w
  | found {tag : Tag} (hseen : Platform.toLowerCase name ∉ acc.seen)
      (hmem : tag ∈ w.store.tags.rows) (hname : asciiLower tag.name = asciiLower name) :
      Resolves w acc name ⟨acc.resolved ++ [tag], Platform.toLowerCase name :: acc.seen⟩ w
  | created (hseen : Platform.toLowerCase name ∉ acc.seen)
      (hnew : ∀ t ∈ w.store.tags.rows, asciiLower t.name ≠ asciiLower name)
      (haccepts : w.store.tags.accepts ⟨w.peek.id, name⟩ = true) :
      Resolves w acc name
        ⟨acc.resolved ++ [⟨w.peek.id, name⟩], Platform.toLowerCase name :: acc.seen⟩
        (createdTag w name)

theorem runs_resolveTag_iff :
    Runs (resolveTag acc name) w acc' w' ↔ Resolves w acc name acc' w' := by
  simp only [resolveTag, runs_ite_iff, runs_pure_iff, runs_bind_iff, TagRepository.findByNameCi,
    runs_read_iff, List.contains_iff_mem]
  constructor
  · rintro (⟨hseen, rfl, rfl⟩ | ⟨hseen, found, w₁, ⟨hfound, rfl⟩, h⟩)
    · exact .seen hseen
    · cases found with
      | some tag =>
        obtain ⟨rfl, rfl⟩ := runs_pure_iff.mp h
        have hname := List.find?_some hfound.symm
        exact .found hseen (List.mem_of_find?_eq_some hfound.symm) (by simpa using hname)
      | none =>
        simp only [runs_bind_iff, runs_newId_iff, TagRepository.insert, runs_insertRow_iff,
          table_tags, put_tags, runs_pure_iff] at h
        obtain ⟨_, _, ⟨rfl, rfl⟩, _, _, ⟨haccepts, -, rfl⟩, rfl, rfl⟩ := h
        refine .created hseen ?_ haccepts
        simpa using List.find?_eq_none.mp hfound.symm
  · intro h
    cases h with
    | seen hseen => exact .inl ⟨hseen, rfl, rfl⟩
    | @found tag hseen hmem hname =>
      refine .inr ⟨hseen, some tag, w, ⟨?_, rfl⟩, runs_pure_iff.mpr ⟨rfl, rfl⟩⟩
      cases hfound : w.store.tags.rows.find? fun t => asciiLower t.name == asciiLower name with
      | none => simpa [hname] using List.find?_eq_none.mp hfound tag hmem
      | some other =>
        have hother := List.find?_some hfound
        rw [beq_iff_eq, ← hname] at hother
        rw [eq_of_nocase (List.mem_of_find?_eq_some hfound) hmem hother]
    | created hseen hnew haccepts =>
      refine .inr ⟨hseen, none, w, ⟨?_, rfl⟩, ?_⟩
      · symm
        simpa using hnew
      · simp only [runs_bind_iff, runs_newId_iff, TagRepository.insert, runs_insertRow_iff,
          table_tags, put_tags, runs_pure_iff]
        exact ⟨_, _, ⟨rfl, rfl⟩, (), _, ⟨haccepts, rfl, rfl⟩, rfl, rfl⟩

/-- Fresh ids never stand in the way of a name. -/
theorem exists_resolves (hfresh : FreshTagIds w) (acc : ResolvedTags) (name : String) :
    ∃ acc' w', Resolves w acc name acc' w' := by
  by_cases hseen : Platform.toLowerCase name ∈ acc.seen
  · exact ⟨_, _, .seen hseen⟩
  · by_cases hfound : ∃ tag ∈ w.store.tags.rows, asciiLower tag.name = asciiLower name
    · obtain ⟨tag, hmem, hname⟩ := hfound
      exact ⟨_, _, .found hseen hmem hname⟩
    · push Not at hfound
      refine ⟨_, _, .created hseen hfound (tag_accepts_iff.mpr ?_)⟩
      intro r hr
      exact ⟨hfresh.unused w.drawn le_rfl r hr, hfound r hr⟩

theorem Resolves.fresh (h : Resolves w acc name acc' w') (hfresh : FreshTagIds w) :
    FreshTagIds w' := by
  cases h with
  | seen | found => exact hfresh
  | created hseen hnew haccepts =>
    refine ⟨?_, ?_⟩
    · intro i hi t ht
      rcases Table.mem_insert.mp ht with ht | ⟨-, rfl⟩
      · exact hfresh.unused i (Nat.le_of_succ_le hi) t ht
      · exact hfresh.distinct w.drawn i le_rfl hi
    · intro i j hi hij
      exact hfresh.distinct i j (Nat.le_of_succ_le hi) hij

theorem Resolves.grow (h : Resolves w acc name acc' w') : TagsGrow w.store w'.store := by
  cases h with
  | seen | found => exact .refl _
  | created => exact fun t ht => Table.mem_insert.mpr (.inl ht)

/-- Once resolved, a name finds its tag wherever the tags still are, and adds none. -/
theorem Resolves.again (h : Resolves w acc name acc' w') (hgrow : TagsGrow w'.store w₂.store) :
    Resolves w₂ acc name acc' w₂ := by
  cases h with
  | seen hseen => exact .seen hseen
  | found hseen hmem hname => exact .found hseen (hgrow _ hmem) hname
  | created hseen hnew haccepts =>
    exact .found hseen (hgrow _ (Table.mem_insert.mpr (.inr ⟨haccepts, rfl⟩))) rfl

/-- The tags resolved so far, for the names so far. -/
structure ResolvedFor (names : List String) (acc : ResolvedTags) (s : Store) : Prop where
  seen : ∀ key, key ∈ acc.seen ↔ key ∈ names.map Platform.toLowerCase
  classes : ∀ key, key ∈ acc.resolved.map (fun t => Platform.toLowerCase t.name) ↔
    key ∈ names.map Platform.toLowerCase
  once : (acc.resolved.map fun t => Platform.toLowerCase t.name).Nodup
  known : ∀ t ∈ acc.resolved, t ∈ s.tags.rows

theorem ResolvedFor.nil {s : Store} : ResolvedFor [] {} s :=
  ⟨by simp, by simp, by simp, by simp⟩

theorem ResolvedFor.skip {names : List String} {s : Store} (h : ResolvedFor names acc s)
    (hseen : Platform.toLowerCase name ∈ acc.seen) : ResolvedFor (names ++ [name]) acc s := by
  have hkey := (h.seen _).mp hseen
  have hsame : ∀ key, key ∈ (names ++ [name]).map Platform.toLowerCase ↔
      key ∈ names.map Platform.toLowerCase := by
    intro key
    rw [List.map_append, List.mem_append]
    constructor
    · rintro (hold | hnew)
      · exact hold
      · rwa [List.mem_singleton.mp hnew]
    · exact .inl
  exact ⟨fun key => (h.seen key).trans (hsame key).symm,
    fun key => (h.classes key).trans (hsame key).symm, h.once, h.known⟩

/-- A tag whose name is the new one for the runtime joins those resolved so far. -/
theorem ResolvedFor.add {names : List String} {s s' : Store} {tag : Tag}
    (h : ResolvedFor names acc s) (hseen : Platform.toLowerCase name ∉ acc.seen)
    (hname : Platform.toLowerCase tag.name = Platform.toLowerCase name) (hgrow : TagsGrow s s')
    (hmem : tag ∈ s'.tags.rows) : ResolvedFor (names ++ [name])
      ⟨acc.resolved ++ [tag], Platform.toLowerCase name :: acc.seen⟩ s' where
  seen := by
    intro key
    simp only [List.mem_cons, h.seen key, List.map_append, List.mem_append, List.map_cons,
      List.map_nil, List.not_mem_nil, or_false]
    exact or_comm
  classes := by
    intro key
    rw [List.map_append, List.mem_append, h.classes key, List.map_append, List.mem_append]
    simp [hname]
  once := by
    rw [List.map_append]
    refine List.nodup_append'.mpr ⟨h.once, by simp, ?_⟩
    intro key hold hnew
    simp only [List.map_cons, List.map_nil, List.mem_singleton] at hnew
    refine hseen ((h.seen _).mpr ((h.classes _).mp ?_))
    rwa [← hname, ← hnew]
  known := by
    intro t ht
    rcases List.mem_append.mp ht with ht | ht
    · exact hgrow t (h.known t ht)
    · rwa [List.mem_singleton.mp ht]

theorem Resolves.resolvedFor {names : List String} (hlowers : LowersNocase)
    (h : Resolves w acc name acc' w') (hacc : ResolvedFor names acc w.store) :
    ResolvedFor (names ++ [name]) acc' w'.store := by
  cases h with
  | seen hseen => exact hacc.skip hseen
  | found hseen hmem hname => exact hacc.add hseen (hlowers _ _ hname) (.refl _) hmem
  | created hseen hnew haccepts =>
    exact hacc.add hseen rfl (fun t ht => Table.mem_insert.mpr (.inl ht))
      (Table.mem_insert.mpr (.inr ⟨haccepts, rfl⟩))

theorem exists_runs_resolveAll (names : List String) (hfresh : FreshTagIds w) (acc : ResolvedTags) :
    ∃ acc' w', Runs (Program.foldM resolveTag acc names) w acc' w' := by
  induction names generalizing w acc with
  | nil => exact ⟨acc, w, runs_progPure_iff.mpr ⟨rfl, rfl⟩⟩
  | cons name names ih =>
    obtain ⟨acc₁, w₁, hstep⟩ := exists_resolves hfresh acc name
    obtain ⟨acc', w', hrest⟩ := ih (hstep.fresh hfresh) acc₁
    exact ⟨acc', w', runs_progBind_iff.mpr ⟨acc₁, w₁, runs_resolveTag_iff.mpr hstep, hrest⟩⟩

theorem runs_resolveAll_resolvedFor {names before : List String} (hlowers : LowersNocase)
    (h : Runs (Program.foldM resolveTag acc names) w acc' w')
    (hacc : ResolvedFor before acc w.store) : ResolvedFor (before ++ names) acc' w'.store := by
  induction names generalizing w acc before with
  | nil =>
    obtain ⟨rfl, rfl⟩ := runs_progPure_iff.mp h
    simpa using hacc
  | cons name names ih =>
    obtain ⟨acc₁, w₁, hstep, hrest⟩ := runs_progBind_iff.mp h
    have hall := ih hrest ((runs_resolveTag_iff.mp hstep).resolvedFor hlowers hacc)
    rwa [List.append_assoc, List.singleton_append] at hall

theorem runs_resolveAll_grow {names : List String}
    (h : Runs (Program.foldM resolveTag acc names) w acc' w') : TagsGrow w.store w'.store := by
  induction names generalizing w acc with
  | nil =>
    obtain ⟨-, rfl⟩ := runs_progPure_iff.mp h
    exact .refl _
  | cons name names ih =>
    obtain ⟨acc₁, w₁, hstep, hrest⟩ := runs_progBind_iff.mp h
    exact (runs_resolveTag_iff.mp hstep).grow.trans (ih hrest)

theorem runs_resolveAll_again {names : List String}
    (h : Runs (Program.foldM resolveTag acc names) w acc' w')
    (hgrow : TagsGrow w'.store w₂.store) :
    Runs (Program.foldM resolveTag acc names) w₂ acc' w₂ := by
  induction names generalizing w acc with
  | nil =>
    obtain ⟨rfl, rfl⟩ := runs_progPure_iff.mp h
    exact runs_progPure_iff.mpr ⟨rfl, rfl⟩
  | cons name names ih =>
    obtain ⟨acc₁, w₁, hstep, hrest⟩ := runs_progBind_iff.mp h
    have hfound := (runs_resolveTag_iff.mp hstep).again ((runs_resolveAll_grow hrest).trans hgrow)
    exact runs_progBind_iff.mpr ⟨acc₁, w₂, runs_resolveTag_iff.mpr hfound, ih hrest⟩

theorem ResolvedFor.ids_nodup {names : List String} {s : Store} (h : ResolvedFor names acc s) :
    (acc.resolved.map (·.id)).Nodup := by
  have hnames : acc.resolved.Pairwise fun a b =>
      Platform.toLowerCase a.name ≠ Platform.toLowerCase b.name := List.pairwise_map.mp h.once
  refine List.pairwise_map.mpr (hnames.imp_of_mem ?_)
  intro a b ha hb hne hid
  exact hne (congrArg _ (congrArg Tag.name (s.tags.eq_of_key (h.known a ha) (h.known b hb) hid)))

end resolving

section cardTags

variable {w w' : World Store Tick} {cardId : ℕ}

/-- Rows for different tags that are there can be given to a card that has none of them. -/
theorem exists_runs_insertCardTags {tagIds : List Uuid} (hcard : w.store.hasCard cardId = true)
    (hknown : ∀ id ∈ tagIds, (w.store.tags.find? id).isSome = true) (hnodup : tagIds.Nodup)
    (hnone : ∀ r ∈ w.store.cardTags.rows, r.cardId = cardId → r.tagId ∉ tagIds) :
    ∃ w', Runs (Program.forEach (fun tagId => insertRow (⟨cardId, tagId⟩ : CardTag)
      (fun _ => uniqueViolation) danglingReference) tagIds : Tx Unit) w () w' := by
  induction tagIds generalizing w with
  | nil => exact ⟨w, runs_progPure_iff.mpr ⟨rfl, rfl⟩⟩
  | cons tagId tagIds ih =>
    obtain ⟨hfirst, hrest⟩ := List.nodup_cons.mp hnodup
    have haccepts : w.store.cardTags.accepts (⟨cardId, tagId⟩ : CardTag) = true := by
      refine List.all_eq_true.mpr ?_
      intro r hr
      have hne : ¬ (cardId = r.cardId ∧ tagId = r.tagId) := by
        rintro ⟨hcardId, htagId⟩
        exact hnone r hr hcardId.symm (by simp [htagId])
      have hclash : Row.clash (⟨cardId, tagId⟩ : CardTag) r = false := by simpa [Row.clash] using hne
      simp [hclash]
    have hrefs : HasTable.references w.store (⟨cardId, tagId⟩ : CardTag) = true := by
      simp [HasTable.references, hcard, hknown tagId (by simp)]
    let w₁ := w.withStore
      { w.store with cardTags := w.store.cardTags.insert (⟨cardId, tagId⟩ : CardTag) }
    have hinsert : Runs (insertRow (⟨cardId, tagId⟩ : CardTag) (fun _ => uniqueViolation)
        danglingReference : Tx Unit) w () w₁ := runs_insertRow_iff.mpr ⟨haccepts, hrefs, rfl⟩
    have hafter : ∀ r ∈ w₁.store.cardTags.rows, r.cardId = cardId → r.tagId ∉ tagIds := by
      intro r hr hcardId
      rcases Table.mem_insert.mp hr with hr | ⟨-, rfl⟩
      · exact fun hmem => hnone r hr hcardId (List.mem_cons_of_mem _ hmem)
      · exact hfirst
    obtain ⟨w', h⟩ := ih (w := w₁) hcard (fun id hid => hknown id (List.mem_cons_of_mem _ hid)) hrest
      hafter
    exact ⟨w', runs_progBind_iff.mpr ⟨(), w₁, hinsert, h⟩⟩

theorem exists_runs_setCardTags {tagIds : List Uuid} (hcard : w.store.hasCard cardId = true)
    (hknown : ∀ id ∈ tagIds, (w.store.tags.find? id).isSome = true) (hnodup : tagIds.Nodup) :
    ∃ w', Runs (TagRepository.setCardTags cardId tagIds) w () w' := by
  let w₁ := w.withStore
    { w.store with cardTags := w.store.cardTags.remove fun r => r.cardId == cardId }
  have hnone : ∀ r ∈ w₁.store.cardTags.rows, r.cardId = cardId → r.tagId ∉ tagIds := by
    intro r hr hcardId
    have hkept := (Table.mem_remove.mp hr).2
    simp [hcardId] at hkept
  obtain ⟨w', h⟩ := exists_runs_insertCardTags (w := w₁) hcard hknown hnodup hnone
  exact ⟨w', runs_bind_iff.mpr ⟨(), w₁, runs_deleteWhere_iff.mpr rfl, h⟩⟩

end cardTags

/-- What the schema makes of an edit that names tags and nothing else. -/
theorem updateTags_parse {names : List String} {version : ℕ} {input : UpdateCardInput}
    (h : UpdateCardInput.parse { tags := some names, expectedVersion := version } = .ok input) :
    input = { tags := some (names.map trim), expectedVersion := version } := by
  obtain ⟨_, -, h⟩ := ok_of_bind h
  obtain ⟨_, -, h⟩ := ok_of_bind h
  obtain ⟨_, -, h⟩ := ok_of_bind h
  obtain ⟨tags, htags, h⟩ := ok_of_bind h
  obtain ⟨_, -, h⟩ := ok_of_bind h
  obtain ⟨_, -, h⟩ := ok_of_bind h
  obtain ⟨given, hgiven, heq⟩ := ok_of_bind htags
  obtain ⟨_, -, hmap⟩ := ok_of_bind hgiven
  obtain rfl := Except.ok.inj hmap
  obtain rfl := Except.ok.inj heq
  exact (Except.ok.inj h).symm

/-- The row, the event log and the tags of every card are as before. -/
structure CardsKept (s s' : Store) : Prop where
  cards : s'.cards = s.cards
  cardEvents : s'.cardEvents = s.cardEvents
  cardTags : s'.cardTags = s.cardTags

theorem CardsKept.of_onlyTags {w w' : World Store Tick} (h : OnlyTags w w') : CardsKept w.store w'.store := by
  constructor <;> rw [h.store]

section sameTags

variable [Platform] {w w' : World Store Tick} {a b names : List String}

/-- The names are the same but for letter case, order and repetition. -/
def SameNames (a b : List String) : Prop :=
  ∀ key, key ∈ a.map Platform.toLowerCase ↔ key ∈ b.map Platform.toLowerCase

theorem sameTagSet_of_sameNames (h : SameNames a b) : sameTagSet a b = true := by
  have hperm : (a.map Platform.toLowerCase).dedup.Perm (b.map Platform.toLowerCase).dedup := by
    refine (List.perm_ext_iff_of_nodup (List.nodup_dedup _) (List.nodup_dedup _)).mpr ?_
    intro key
    rw [List.mem_dedup, List.mem_dedup]
    exact h key
  have hsorted : normalizeTagNames a = normalizeTagNames b := by
    refine List.Perm.eq_of_pairwise (fun x y _ _ hxy hyx => le_antisymm hxy hyx)
      (pairwise_ascendingBy id _) (pairwise_ascendingBy id _) ?_
    exact (List.perm_insertionSort _ _).trans (hperm.trans (List.perm_insertionSort _ _).symm)
  simp [sameTagSet, hsorted]

/-- Editing the tags to those the card has does no more than add tags to the table. -/
theorem runs_editTags_same {actor : Actor} {card : Card} {edit edit' : CardService.Edit}
    (hlowers : LowersNocase) (hsame : SameNames names (tagNames w.store card.id))
    (h : Runs (CardService.editTags actor card (some names) edit) w edit' w') :
    edit' = edit ∧ OnlyTags w w' := by
  simp only [CardService.editTags, TagRepository.listByCard, runs_bind_iff, runs_read_iff,
    runs_ite_iff, runs_pure_iff] at h
  obtain ⟨rows, w₀, ⟨rfl, rfl⟩, tags, w₁, hresolve, h⟩ := h
  obtain ⟨honly, -⟩ := runs_resolveTags hresolve
  obtain ⟨acc, _, hfold, rfl, rfl⟩ := runs_bind_iff.mp hresolve
  have hresolved := runs_resolveAll_resolvedFor hlowers hfold .nil
  have hset : sameTagSet (tagNames w₀.store card.id) (acc.resolved.map (·.name)) = true := by
    refine sameTagSet_of_sameNames ?_
    intro key
    rw [List.map_map]
    exact ((hresolved.classes key).trans (hsame key)).symm
  rcases h with ⟨-, rfl, rfl⟩ | ⟨hne, -⟩
  · exact ⟨rfl, honly⟩
  · exact absurd hset hne

theorem runs_updateBody_same {deps : CardServiceDeps} {actor : Actor} {cardId version : ℕ} {r : Card}
    (hlowers : LowersNocase) (hsame : SameNames names (tagNames w.store cardId))
    (h : Runs (CardService.updateBody deps actor cardId
      { tags := some names, expectedVersion := version }) w r w') :
    w.store.cards.find? cardId = some r ∧ CardsKept w.store w'.store := by
  simp only [CardService.updateBody, CardService.editFields, CardService.editField,
    CardService.editWaiting, Option.isNone_none, Bool.and_self, if_true, runs_bind_iff,
    runs_ensureNotArchived_iff, runs_decidePolicy_iff, runs_ensureVersion_iff, runs_pure_iff,
    runs_ite_iff] at h
  obtain ⟨card, _, hcard, _, _, ⟨-, rfl⟩, policy, _, hpolicy, _, _, ⟨-, rfl⟩, _, _, ⟨-, rfl⟩, edit,
    w₁, ⟨_, _, ⟨rfl, rfl⟩, _, _, ⟨rfl, rfl⟩, _, _, ⟨rfl, rfl⟩, _, _, ⟨rfl, rfl⟩, _, _, ⟨rfl, rfl⟩,
    _, _, ⟨rfl, rfl⟩, _, _, htags, rfl, rfl⟩, h⟩ := h
  obtain ⟨rfl, hfound⟩ := runs_accessibleCard hcard
  obtain rfl := runs_activePolicy hpolicy
  rw [← Table.find?_key hfound] at hsame
  obtain ⟨rfl, honly⟩ := runs_editTags_same hlowers hsame htags
  rcases h with ⟨-, rfl, rfl⟩ | ⟨hne, -⟩
  · exact ⟨hfound, .of_onlyTags honly⟩
  · exact absurd rfl hne

end sameTags

/-- The names were resolved to one tag each, the table is in order, and so it stays. -/
structure ResolvesOnce [Platform] (w w' : World Store Tick) (names : List String)
    (tags : List Tag) : Prop where
  runs : Runs (resolveTags names) w tags w'
  ids : (tags.map (·.id)).Nodup
  classes : SameNames (tags.map (·.name)) names
  once : (tags.map fun t => Platform.toLowerCase t.name).Nodup
  unique : (w'.store.tags.rows.map fun t => asciiLower t.name).Nodup
  fits : ∀ cardId w₂, w₂.store.tags = w'.store.tags → w₂.store.hasCard cardId = true →
    ∃ w₃, Runs (TagRepository.setCardTags cardId (tags.map (·.id))) w₂ () w₃
  again : ∀ w₂, w₂.store.tags = w'.store.tags → Runs (resolveTags names) w₂ tags w₂

theorem exists_resolvesOnce [Platform] {w : World Store Tick} (hlowers : LowersNocase)
    (hfresh : FreshTagIds w) (names : List String) : ∃ tags w', ResolvesOnce w w' names tags := by
  obtain ⟨acc, w', hfold⟩ := exists_runs_resolveAll names hfresh {}
  have hresolved := runs_resolveAll_resolvedFor hlowers hfold .nil
  have hruns : ∀ {w₁ w₂ : World Store Tick}, Runs (Program.foldM resolveTag {} names) w₁ acc w₂ →
      Runs (resolveTags names) w₁ acc.resolved w₂ :=
    fun h => runs_bind_iff.mpr ⟨acc, _, h, runs_pure_iff.mpr ⟨rfl, rfl⟩⟩
  refine ⟨acc.resolved, w', hruns hfold, hresolved.ids_nodup, ?_, hresolved.once,
    nocase_nodup w'.store.tags, ?_, ?_⟩
  · intro key
    rw [List.map_map]
    exact hresolved.classes key
  · intro cardId w₂ htags hcard
    refine exists_runs_setCardTags hcard ?_ hresolved.ids_nodup
    intro id hid
    obtain ⟨t, ht, rfl⟩ := List.mem_map.mp hid
    have hfound : w'.store.tags.find? t.id = some t := Table.find?_of_mem (hresolved.known t ht)
    rw [htags, hfound]
    rfl
  · intro w₂ htags
    exact hruns (runs_resolveAll_again hfold (.of_tags htags))

/-- A card with one tag. -/
def hvacWorld : World Store Tick :=
  @run samplePlatform (freshlySeeded sampleTicks)
    [.card (.create ⟨101, 102, .sqlite⟩ sampleActor { title := "Pump", tags := ["HVAC"] } {})]

theorem lowersNocase_sample : @LowersNocase samplePlatform := fun _ _ h => h

theorem freshTagIds_hvac : FreshTagIds hvacWorld := by
  have hinputs : hvacWorld.inputs = sampleTicks := rfl
  refine ⟨?_, ?_⟩
  · intro i hi t ht
    have hold : ∀ t ∈ hvacWorld.store.tags.rows, t.id < 100 + hvacWorld.drawn := by decide +kernel
    rw [hinputs]
    exact ((hold t ht).trans_le (Nat.add_le_add_left hi 100)).ne
  · intro i j _ hij
    rw [hinputs]
    exact (Nat.add_lt_add_left hij 100).ne

end AiKanban.Invariants
