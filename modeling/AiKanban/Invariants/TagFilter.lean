import AiKanban.Effects.Tags
import AiKanban.Db.Listings
import AiKanban.Application.Operations
import AiKanban.Db.Seed

/-!
# Filtering by a tag

A wanted name is folded by the runtime and a stored one by the database, which knows the letters
of ASCII only. A tag finds its cards where the two folds agree on its name.
-/
namespace AiKanban.Invariants

open Application Domain Db Effects Policy Relational Services Transactions
open Db.CardRepository (CardQueryFacets filterConditions carriesTag queryPage)

/-- The tag is one of the card's. -/
def Attached (s : Store) (card : Card) (tag : Tag) : Prop :=
  tag ∈ s.tags.rows ∧ ∃ r ∈ s.cardTags.rows, r.cardId = card.id ∧ r.tagId = tag.id

section filter

variable {s : Store} {card : Card} {tag : Tag}

theorem mem_cardTagRows_iff : tag ∈ TagRepository.cardTagRows s card.id ↔ Attached s card tag := by
  unfold TagRepository.cardTagRows Attached
  rw [mem_ascendingBy, List.mem_filterMap]
  constructor
  · rintro ⟨r, hr, hfound⟩
    obtain ⟨hmem, hid⟩ := Table.find?_eq_some_iff.mp hfound
    have hr := List.mem_filter.mp hr
    exact ⟨hmem, r, hr.1, beq_iff_eq.mp hr.2, hid.symm⟩
  · rintro ⟨hmem, r, hr, hcardId, htagId⟩
    exact ⟨r, List.mem_filter.mpr ⟨hr, beq_iff_eq.mpr hcardId⟩,
      Table.find?_eq_some_iff.mpr ⟨hmem, htagId.symm⟩⟩

theorem carriesTag_iff (name : String) : carriesTag s card [name] = true ↔
    ∃ tag, Attached s card tag ∧ asciiLower tag.name = name := by
  unfold carriesTag
  rw [List.any_eq_true]
  constructor
  · rintro ⟨tag, htag, hname⟩
    exact ⟨tag, mem_cardTagRows_iff.mp htag, by simpa using hname⟩
  · rintro ⟨tag, htag, hname⟩
    exact ⟨tag, mem_cardTagRows_iff.mpr htag, by simpa using hname⟩

variable [Platform]

/-- One wanted tag adds one condition to those of the other facets. -/
theorem filterConditions_tag {filter : CardQueryFacets} (name : String)
    (hother : filterConditions s { filter with tags := [] } card = true) :
    filterConditions s { filter with tags := [name] } card =
      carriesTag s card [Platform.toLowerCase name] := by
  simp only [filterConditions, List.isEmpty_nil, Bool.true_or, Bool.and_true] at hother
  simp only [Bool.and_eq_true] at hother
  simp [filterConditions, hother]

/-- A card is found by the stored name of its tag where the runtime folds only the letters of ASCII
in it, or where what it makes of it is the fold of another tag of the card. -/
theorem tag_filter_iff {w w' : World Store Tick} {filter : CardQueryFacets} {cards : List Card}
    (hcard : card ∈ w.store.cards.rows) (htag : Attached w.store card tag)
    (hother : filterConditions w.store { filter with tags := [] } card = true)
    (h : Runs (queryPage { filter with tags := [tag.name] } none none) w cards w') :
    card ∈ cards ↔ asciiLower tag.name = Platform.toLowerCase tag.name ∨
      ∃ other, Attached w.store card other ∧ other.id ≠ tag.id ∧
        asciiLower other.name = Platform.toLowerCase tag.name := by
  obtain ⟨rfl, -⟩ := runs_read_iff.mp h
  have hfound : card ∈ newestFirst (·.createdAt) (·.id) (w.store.cards.rows.filter fun c =>
      filterConditions w.store { filter with tags := [tag.name] } c && (none : Option CursorKey).all
        fun key => olderThanNumber key c.createdAt c.id) ↔
      carriesTag w.store card [Platform.toLowerCase tag.name] = true := by
    simp [hcard, filterConditions_tag tag.name hother]
  change card ∈ newestFirst _ _ _ ↔ _
  rw [hfound, carriesTag_iff]
  constructor
  · rintro ⟨other, hattached, hname⟩
    by_cases hid : other.id = tag.id
    · obtain rfl : other = tag := w.store.tags.eq_of_key hattached.1 htag.1 hid
      exact .inl hname
    · exact .inr ⟨other, hattached, hid, hname⟩
  · rintro (hname | ⟨other, hattached, -, hname⟩)
    · exact ⟨tag, htag, hname⟩
    · exact ⟨other, hattached, hname⟩

end filter

/-- The runtime's fold over the letters of ASCII and one more. -/
def latinLower (s : String) : String :=
  String.ofList (s.toList.map fun c => if c = Char.ofNat 0xC9 then Char.ofNat 0xE9 else c.toLower)

@[reducible] def latinPlatform : Platform := { samplePlatform with toLowerCase := latinLower }

/-- `Éclairage` -/
def lighting : String := String.ofList (Char.ofNat 0xC9 :: "clairage".toList)

/-- A card is created with the tags. -/
def taggedWorld (tags : List String) : World Store Tick :=
  @run latinPlatform (freshlySeeded sampleTicks)
    [.card (.create ⟨101, 102, .sqlite⟩ sampleActor { title := "Pump", tags } {})]

theorem tag_filter_ascii : ∃ card ∈ (taggedWorld ["HVAC"]).store.cards.rows, ∃ tag cards,
    Attached (taggedWorld ["HVAC"]).store card tag ∧ tag.name = "HVAC" ∧ card ∈ cards ∧
      Runs (@queryPage latinPlatform { tags := [tag.name] } none none) (taggedWorld ["HVAC"]) cards
        (taggedWorld ["HVAC"]) := by
  obtain ⟨card, hcard, hopen, tag, htag, hname, r, hr, hids⟩ :
      ∃ card ∈ (taggedWorld ["HVAC"]).store.cards.rows, card.archivedAt = none ∧
        ∃ tag ∈ (taggedWorld ["HVAC"]).store.tags.rows, tag.name = "HVAC" ∧
          ∃ r ∈ (taggedWorld ["HVAC"]).store.cardTags.rows, r.cardId = card.id ∧ r.tagId = tag.id := by
    decide +kernel
  have hattached : Attached (taggedWorld ["HVAC"]).store card tag := ⟨htag, r, hr, hids⟩
  have hother : @filterConditions latinPlatform (taggedWorld ["HVAC"]).store {} card = true := by
    simp [filterConditions, anyOf, hopen]
  have hfold : asciiLower tag.name = latinLower tag.name := by
    rw [hname]
    decide +kernel
  have hruns : Runs (@queryPage latinPlatform { tags := [tag.name] } none none)
      (taggedWorld ["HVAC"]) _ (taggedWorld ["HVAC"]) := runs_read_iff.mpr ⟨rfl, rfl⟩
  exact ⟨card, hcard, tag, _, hattached, hname,
    (@tag_filter_iff card tag latinPlatform _ _ {} _ hcard hattached hother hruns).mpr (.inl hfold),
    hruns⟩

/-- The only card is tagged, and the name of its tag does not find it. -/
theorem tag_filter_fails : ∃ card ∈ (taggedWorld [lighting]).store.cards.rows, ∃ tag,
    Attached (taggedWorld [lighting]).store card tag ∧ tag.name = lighting ∧
      card.archivedAt = none ∧
      Runs (@queryPage latinPlatform { tags := [lighting] } none none) (taggedWorld [lighting]) []
        (taggedWorld [lighting]) := by
  obtain ⟨card, hcard, tag, htag, hname, hopen, r, hr, hids⟩ :
      ∃ card ∈ (taggedWorld [lighting]).store.cards.rows,
        ∃ tag ∈ (taggedWorld [lighting]).store.tags.rows, tag.name = lighting ∧
          card.archivedAt = none ∧
            ∃ r ∈ (taggedWorld [lighting]).store.cardTags.rows, r.cardId = card.id ∧ r.tagId = tag.id := by
    decide +kernel
  exact ⟨card, hcard, tag, ⟨htag, r, hr, hids⟩, hname, hopen,
    runs_read_iff.mpr ⟨by decide +kernel, rfl⟩⟩

end AiKanban.Invariants
