import AiKanban.Domain.Commands

/-!
# Board filters

The state of the board filter: every facet is present, and an empty one matches everything.
-/
namespace AiKanban.Domain

inductive FilterScope where
  | active | archived | all
  deriving DecidableEq

def FilterScope.text : FilterScope → String
  | .active => "active"
  | .archived => "archived"
  | .all => "all"

def FilterScope.ofText? (text : String) : Option FilterScope :=
  [FilterScope.active, .archived, .all].find? (·.text = text)

def Priority.text : Priority → String
  | .p0 => "P0"
  | .p1 => "P1"
  | .p2 => "P2"

def Priority.ofText? (text : String) : Option Priority :=
  [Priority.p0, .p1, .p2].find? (·.text = text)

/-- A filter over ids of some kind. -/
structure BoardFilter (ι : Type) where
  priorities : List Priority
  assigneeIds : List ι
  reporterIds : List ι
  tags : List String
  locationIds : List ι
  scope : FilterScope
  q : String
  overdue : Bool
  deriving DecidableEq

/-- What is given for a filter: enumerations come as texts, and an absent facet is `none`. -/
structure BoardFilterInput (ι : Type) where
  priorities : Option (List String) := none
  assigneeIds : Option (List ι) := none
  reporterIds : Option (List ι) := none
  tags : Option (List String) := none
  locationIds : Option (List ι) := none
  scope : Option String := none
  q : Option String := none
  overdue : Option Bool := none

/-- The most values of a facet. -/
def facetMax : ℕ := 50

/-- `z.enum` -/
def enumValue {α : Type} (path : List String) (ofText? : String → Option α) (text : String) :
    Except DomainError α :=
  match ofText? text with
  | some a => .ok a
  | none => .error (.invalidInput path)

/-- `z.array(z.uuid()).max(FACET_MAX)` -/
def idFacet {ι : Type} (isId : ι → Bool) (path : List String) (ids : List ι) :
    Except DomainError Unit := do
  checkEach ids fun id => check (isId id) path
  check (ids.length ≤ facetMax) path

/-- `boardFilterSchema` -/
def BoardFilterInput.parse {ι : Type} (isId : ι → Bool) (raw : BoardFilterInput ι) :
    Except DomainError (BoardFilter ι) := do
  let priorities ← (raw.priorities.getD []).mapM (enumValue ["priorities"] Priority.ofText?)
  check (priorities.length ≤ facetMax) ["priorities"]
  let assigneeIds := raw.assigneeIds.getD []
  idFacet isId ["assigneeIds"] assigneeIds
  let reporterIds := raw.reporterIds.getD []
  idFacet isId ["reporterIds"] reporterIds
  let tags ← parseTags (raw.tags.getD [])
  check (tags.length ≤ facetMax) ["tags"]
  let locationIds := raw.locationIds.getD []
  idFacet isId ["locationIds"] locationIds
  let scope ← enumValue ["scope"] FilterScope.ofText? (raw.scope.getD "active")
  let q := raw.q.getD ""
  boundedText ["q"] 0 200 q
  let overdue := raw.overdue.getD false
  return { priorities, assigneeIds, reporterIds, tags, locationIds, scope, q, overdue }

def emptyBoardFilter {ι : Type} : BoardFilter ι :=
  { priorities := [], assigneeIds := [], reporterIds := [], tags := [], locationIds := []
    scope := .active, q := "", overdue := false }

/-- The empty filter is what the schema makes of nothing. -/
theorem parse_nothing {ι : Type} (isId : ι → Bool) :
    BoardFilterInput.parse isId {} = .ok emptyBoardFilter := rfl

/-- The ids of a facet, as the schema lets them through. -/
def FacetOk {ι : Type} (isId : ι → Bool) (ids : List ι) : Prop :=
  (∀ id ∈ ids, isId id = true) ∧ ids.length ≤ facetMax

/-- What the schema lets through unchanged. -/
structure BoardFilter.Valid {ι : Type} (isId : ι → Bool) (f : BoardFilter ι) : Prop where
  priorities : f.priorities.length ≤ facetMax
  assigneeIds : FacetOk isId f.assigneeIds
  reporterIds : FacetOk isId f.reporterIds
  tags : ∀ tag ∈ f.tags, trim tag = tag ∧ 1 ≤ utf16Length tag ∧ utf16Length tag ≤ 50
  tagsMax : f.tags.length ≤ facetMax
  locationIds : FacetOk isId f.locationIds
  q : utf16Length f.q ≤ 200

/-- The input spells the filter out: enumerations by their texts, tags up to white space around
them, and absent facets by their defaults. -/
structure BoardFilterInput.Spells {ι : Type} (raw : BoardFilterInput ι) (f : BoardFilter ι) :
    Prop where
  priorities : raw.priorities.getD [] = f.priorities.map Priority.text
  assigneeIds : raw.assigneeIds.getD [] = f.assigneeIds
  reporterIds : raw.reporterIds.getD [] = f.reporterIds
  tags : (raw.tags.getD []).map trim = f.tags
  locationIds : raw.locationIds.getD [] = f.locationIds
  scope : raw.scope.getD "active" = f.scope.text
  q : raw.q.getD "" = f.q
  overdue : raw.overdue.getD false = f.overdue

section schema

variable {ι : Type} {isId : ι → Bool} {raw : BoardFilterInput ι} {f : BoardFilter ι}

theorem priority_ofText? (text : String) (p : Priority) :
    Priority.ofText? text = some p ↔ text = p.text := by
  constructor
  · intro h
    have hfound := List.find?_some h
    exact (of_decide_eq_true hfound).symm
  · rintro rfl
    cases p <;> decide

theorem scope_ofText? (text : String) (s : FilterScope) :
    FilterScope.ofText? text = some s ↔ text = s.text := by
  constructor
  · intro h
    have hfound := List.find?_some h
    exact (of_decide_eq_true hfound).symm
  · rintro rfl
    cases s <;> decide

theorem enumValue_ok_iff {α : Type} {path : List String} {ofText? : String → Option α}
    {text : String} {a : α} :
    enumValue path ofText? text = .ok a ↔ ofText? text = some a := by
  unfold enumValue
  cases ofText? text <;> simp

theorem idFacet_ok_iff {path : List String} {ids : List ι} :
    idFacet isId path ids = .ok () ↔ FacetOk isId ids := by
  unfold idFacet FacetOk
  constructor
  · intro h
    obtain ⟨_, hids, hmax⟩ := ok_of_bind h
    refine ⟨fun id hid => check_ok_iff.mp (checkEach_ok_iff.mp hids id hid), ?_⟩
    exact of_decide_eq_true (check_ok_iff.mp hmax)
  · rintro ⟨hids, hmax⟩
    have heach : checkEach ids (fun id => check (isId id) path) = .ok () :=
      checkEach_ok_iff.mpr fun id hid => check_ok_iff.mpr (hids id hid)
    exact (bind_of_ok heach).trans (check_ok_iff.mpr (decide_eq_true hmax))

theorem mapM_enumValue_ok_iff {α : Type} {path : List String} {ofText? : String → Option α}
    {text : α → String} (htext : ∀ t a, ofText? t = some a ↔ t = text a) {values : List String}
    {as : List α} : values.mapM (enumValue path ofText?) = .ok as ↔ values = as.map text := by
  induction values generalizing as with
  | nil =>
    rw [List.mapM_nil]
    constructor
    · rintro ⟨⟩
      rfl
    · intro h
      rw [List.map_eq_nil_iff.mp h.symm]
      rfl
  | cons value values ih =>
    rw [List.mapM_cons]
    constructor
    · intro h
      obtain ⟨a, ha, h⟩ := ok_of_bind h
      obtain ⟨rest, hrest, h⟩ := ok_of_bind h
      cases h
      rw [List.map_cons, (htext value a).mp (enumValue_ok_iff.mp ha), ih.mp hrest]
    · intro h
      cases as with
      | nil => cases h
      | cons a as =>
        obtain ⟨rfl, hrest⟩ := List.cons.inj h
        have ha : enumValue path ofText? (text a) = .ok a :=
          enumValue_ok_iff.mpr ((htext _ a).mpr rfl)
        exact (bind_of_ok ha).trans (bind_of_ok (ih.mpr hrest))

theorem parseTags_ok_iff {names tags : List String} :
    parseTags names = .ok tags ↔
      names.map trim = tags ∧ ∀ tag ∈ tags, 1 ≤ utf16Length tag ∧ utf16Length tag ≤ 50 := by
  unfold parseTags
  constructor
  · intro h
    obtain ⟨_, heach, h⟩ := ok_of_bind h
    cases h
    exact ⟨rfl, fun tag htag => boundedText_ok_iff.mp (checkEach_ok_iff.mp heach tag htag)⟩
  · rintro ⟨rfl, hbounds⟩
    have heach : checkEach (names.map trim) (boundedText ["tags"] 1 50) = .ok () :=
      checkEach_ok_iff.mpr fun tag htag => boundedText_ok_iff.mpr (hbounds tag htag)
    exact bind_of_ok heach

/-- The schema accepts exactly the inputs that spell a valid filter out. -/
theorem parse_ok_iff : raw.parse isId = .ok f ↔ raw.Spells f ∧ f.Valid isId := by
  unfold BoardFilterInput.parse
  constructor
  · intro h
    obtain ⟨priorities, hpriorities, h⟩ := ok_of_bind h
    obtain ⟨_, hpmax, h⟩ := ok_of_bind h
    obtain ⟨_, hassignees, h⟩ := ok_of_bind h
    obtain ⟨_, hreporters, h⟩ := ok_of_bind h
    obtain ⟨tags, htags, h⟩ := ok_of_bind h
    obtain ⟨_, htmax, h⟩ := ok_of_bind h
    obtain ⟨_, hlocations, h⟩ := ok_of_bind h
    obtain ⟨scope, hscope, h⟩ := ok_of_bind h
    obtain ⟨_, hq, h⟩ := ok_of_bind h
    cases h
    obtain ⟨htrim, hbounds⟩ := parseTags_ok_iff.mp htags
    have htext := (scope_ofText? _ _).mp (enumValue_ok_iff.mp hscope)
    refine ⟨⟨(mapM_enumValue_ok_iff priority_ofText?).mp hpriorities, rfl, rfl, htrim, rfl, htext,
      rfl, rfl⟩, ⟨of_decide_eq_true (check_ok_iff.mp hpmax), idFacet_ok_iff.mp hassignees,
      idFacet_ok_iff.mp hreporters, fun tag htag => ⟨?_, hbounds tag htag⟩,
      of_decide_eq_true (check_ok_iff.mp htmax), idFacet_ok_iff.mp hlocations,
      (boundedText_ok_iff.mp hq).2⟩⟩
    obtain ⟨name, -, rfl⟩ := List.mem_map.mp (htrim ▸ htag)
    exact trim_trim name
  · obtain ⟨priorities, _, _, _, _, scope, _, _⟩ := f
    rintro ⟨⟨hpriorities, rfl, rfl, rfl, rfl, hscope, rfl, rfl⟩, hvalid⟩
    refine (bind_of_ok ((mapM_enumValue_ok_iff priority_ofText?).mpr hpriorities)).trans ?_
    refine (bind_of_ok (check_ok_iff.mpr (decide_eq_true hvalid.priorities))).trans ?_
    refine (bind_of_ok (idFacet_ok_iff.mpr hvalid.assigneeIds)).trans ?_
    refine (bind_of_ok (idFacet_ok_iff.mpr hvalid.reporterIds)).trans ?_
    refine (bind_of_ok (parseTags_ok_iff.mpr ⟨rfl, fun t ht => (hvalid.tags t ht).2⟩)).trans ?_
    refine (bind_of_ok (check_ok_iff.mpr (decide_eq_true hvalid.tagsMax))).trans ?_
    refine (bind_of_ok (idFacet_ok_iff.mpr hvalid.locationIds)).trans ?_
    refine (bind_of_ok (enumValue_ok_iff.mpr ((scope_ofText? _ _).mpr hscope))).trans ?_
    exact bind_of_ok (boundedText_ok_iff.mpr ⟨Nat.zero_le _, hvalid.q⟩)

end schema

end AiKanban.Domain
