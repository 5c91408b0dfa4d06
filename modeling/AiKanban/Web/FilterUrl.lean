import AiKanban.Domain.Filters
import AiKanban.Formats.FormUrlEncoded

/-!
# The filter in the URL

Each facet of the board filter is a parameter of its own, a list as a repeated one. A link that
does not denote a filter falls back to the empty one.
-/
namespace AiKanban.Web

open Domain Formats

/-- Names with values, in order. -/
structure URLSearchParams where
  pairs : List (String × String)
deriving DecidableEq

namespace URLSearchParams

variable (params : URLSearchParams) (name value : String)

def get : Option String := (params.pairs.find? (·.1 = name)).map (·.2)

def getAll : List String := (params.pairs.filter (·.1 = name)).map (·.2)

def append : URLSearchParams := ⟨params.pairs ++ [(name, value)]⟩

/-- The first value of the name is replaced and the others go. -/
def setFirst : List (String × String) → List (String × String)
  | [] => [(name, value)]
  | pair :: rest =>
      if pair.1 = name then (name, value) :: rest.filter (·.1 ≠ name)
      else pair :: setFirst rest

def set : URLSearchParams := ⟨setFirst name value params.pairs⟩

def toText : String := serializeForm params.pairs

/-- A text may begin with a question mark. -/
def ofText (text : String) : URLSearchParams :=
  match text.toList with
  | '?' :: rest => ⟨parseForm (String.ofList rest)⟩
  | _ => ⟨parseForm text⟩

end URLSearchParams

def filterToSearchParams (filter : BoardFilter String) : URLSearchParams :=
  let params : URLSearchParams := ⟨[]⟩
  let params := if filter.q ≠ "" then params.set "q" filter.q else params
  let params := if filter.scope ≠ .active then params.set "scope" filter.scope.text else params
  let params := if filter.overdue then params.set "overdue" "1" else params
  let params := filter.priorities.foldl (fun params value => params.append "priority" value.text) params
  let params := filter.assigneeIds.foldl (fun params value => params.append "assignee" value) params
  let params := filter.reporterIds.foldl (fun params value => params.append "reporter" value) params
  let params := filter.tags.foldl (fun params value => params.append "tag" value) params
  filter.locationIds.foldl (fun params value => params.append "location" value) params

/-- Absent scalars are left to the defaults of the schema. -/
def candidate (params : URLSearchParams) : BoardFilterInput String :=
  { q := params.get "q"
    scope := params.get "scope"
    overdue := some (params.get "overdue" == some "1")
    priorities := some (params.getAll "priority")
    assigneeIds := some (params.getAll "assignee")
    reporterIds := some (params.getAll "reporter")
    tags := some (params.getAll "tag")
    locationIds := some (params.getAll "location") }

def filterFromSearchParams (isUuid : String → Bool) (params : URLSearchParams) :
    BoardFilter String :=
  match (candidate params).parse isUuid with
  | .ok filter => filter
  | .error _ => emptyBoardFilter

/-- The filter that parameters denote: the first value of a scalar and all the values of a list;
other names do not matter. -/
structure Denotes (params : URLSearchParams) (filter : BoardFilter String) : Prop where
  q : filter.q = (params.get "q").getD ""
  scope : filter.scope.text = (params.get "scope").getD "active"
  overdue : filter.overdue = true ↔ params.get "overdue" = some "1"
  priorities : filter.priorities.map Priority.text = params.getAll "priority"
  assigneeIds : filter.assigneeIds = params.getAll "assignee"
  reporterIds : filter.reporterIds = params.getAll "reporter"
  tags : filter.tags = (params.getAll "tag").map trim
  locationIds : filter.locationIds = params.getAll "location"

section texts

/-- Parameters are read back from their text. -/
theorem ofText_toText (params : URLSearchParams) :
    URLSearchParams.ofText params.toText = params ∧
      URLSearchParams.ofText (String.ofList ('?' :: params.toText.toList)) = params := by
  have hmark := mark_not_mem params.pairs
  constructor
  · unfold URLSearchParams.ofText URLSearchParams.toText
    split
    · next rest heq =>
      rw [heq] at hmark
      exact absurd List.mem_cons_self hmark
    · rw [parseForm_serializeForm]
  · simp only [URLSearchParams.ofText, String.toList_ofList, String.ofList_toList,
      URLSearchParams.toText, parseForm_serializeForm]

end texts

section parameters

variable {pairs : List (String × String)} {name other value : String}

theorem foldl_append {α : Type} (text : α → String) (values : List α) (params : URLSearchParams) :
    values.foldl (fun params value => params.append name (text value)) params =
      ⟨params.pairs ++ values.map fun value => (name, text value)⟩ := by
  induction values generalizing params with
  | nil => simp
  | cons value values ih =>
    rw [List.foldl_cons, ih]
    simp [URLSearchParams.append]

/-- The parameters of a filter, one facet after the other. -/
def facetPairs (filter : BoardFilter String) : List (String × String) :=
  (if filter.q ≠ "" then [("q", filter.q)] else []) ++
  (if filter.scope ≠ .active then [("scope", filter.scope.text)] else []) ++
  (if filter.overdue then [("overdue", "1")] else []) ++
  filter.priorities.map (fun value => ("priority", value.text)) ++
  filter.assigneeIds.map (fun value => ("assignee", value)) ++
  filter.reporterIds.map (fun value => ("reporter", value)) ++
  filter.tags.map (fun value => ("tag", value)) ++
  filter.locationIds.map (fun value => ("location", value))

theorem filterToSearchParams_eq (filter : BoardFilter String) :
    filterToSearchParams filter = ⟨facetPairs filter⟩ := by
  unfold filterToSearchParams facetPairs
  simp only [foldl_append]
  split_ifs <;> simp [URLSearchParams.set, URLSearchParams.setFirst]

theorem get_eq_head? (params : URLSearchParams) (name : String) :
    params.get name = (params.getAll name).head? := by
  rw [URLSearchParams.get, URLSearchParams.getAll, List.head?_map, List.head?_filter]

/-- Every list of a filter comes back under its name. -/
theorem getAll_lists (filter : BoardFilter String) :
    (filterToSearchParams filter).getAll "priority" = filter.priorities.map Priority.text ∧
    (filterToSearchParams filter).getAll "assignee" = filter.assigneeIds ∧
    (filterToSearchParams filter).getAll "reporter" = filter.reporterIds ∧
    (filterToSearchParams filter).getAll "tag" = filter.tags ∧
    (filterToSearchParams filter).getAll "location" = filter.locationIds := by
  rw [filterToSearchParams_eq]
  unfold URLSearchParams.getAll facetPairs
  refine ⟨?_, ?_, ?_, ?_, ?_⟩ <;>
    split_ifs <;> simp [List.filter_append, List.filter_map, Function.comp_def]

theorem getAll_scalars (filter : BoardFilter String) :
    (filterToSearchParams filter).getAll "q" = (if filter.q ≠ "" then [filter.q] else []) ∧
    (filterToSearchParams filter).getAll "scope" =
      (if filter.scope ≠ .active then [filter.scope.text] else []) ∧
    (filterToSearchParams filter).getAll "overdue" = (if filter.overdue then ["1"] else []) := by
  rw [filterToSearchParams_eq]
  unfold URLSearchParams.getAll facetPairs
  refine ⟨?_, ?_, ?_⟩ <;>
    split_ifs <;> simp [List.filter_append, List.filter_map, Function.comp_def]

/-- The parameters of a filter spell it out. -/
theorem candidate_spells {filter : BoardFilter String} (h : ∀ tag ∈ filter.tags, trim tag = tag) :
    (candidate (filterToSearchParams filter)).Spells filter := by
  obtain ⟨hpriorities, hassignees, hreporters, htags, hlocations⟩ := getAll_lists filter
  obtain ⟨hq, hscope, hoverdue⟩ := getAll_scalars filter
  refine ⟨hpriorities, hassignees, hreporters, ?_, hlocations, ?_, ?_, ?_⟩
  · change ((filterToSearchParams filter).getAll "tag").map trim = filter.tags
    rw [htags]
    exact (List.map_congr_left h).trans (List.map_id _)
  · change ((filterToSearchParams filter).get "scope").getD "active" = filter.scope.text
    rw [get_eq_head?, hscope]
    cases filter.scope <;> rfl
  · change ((filterToSearchParams filter).get "q").getD "" = filter.q
    rw [get_eq_head?, hq]
    split_ifs with hempty
    · rfl
    · exact (not_not.mp hempty).symm
  · change ((filterToSearchParams filter).get "overdue" == some "1") = filter.overdue
    rw [get_eq_head?, hoverdue]
    cases filter.overdue <;> decide

theorem denotes_iff (params : URLSearchParams) (filter : BoardFilter String) :
    Denotes params filter ↔ (candidate params).Spells filter := by
  have hflag : (filter.overdue = true ↔ params.get "overdue" = some "1") ↔
      (params.get "overdue" == some "1") = filter.overdue := by
    have hbeq : (params.get "overdue" == some "1") = true ↔ params.get "overdue" = some "1" :=
      beq_iff_eq
    rw [← hbeq]
    exact Bool.eq_iff_iff.symm.trans eq_comm
  constructor
  · rintro ⟨hq, hscope, hoverdue, hpriorities, hassignees, hreporters, htags, hlocations⟩
    exact ⟨hpriorities.symm, hassignees.symm, hreporters.symm, htags.symm, hlocations.symm,
      hscope.symm, hq.symm, hflag.mp hoverdue⟩
  · rintro ⟨hpriorities, hassignees, hreporters, htags, hlocations, hscope, hq, hoverdue⟩
    exact ⟨hq.symm, hscope.symm, hflag.mpr hoverdue, hpriorities.symm, hassignees.symm,
      hreporters.symm, htags.symm, hlocations.symm⟩

end parameters

section decoding

variable {isUuid : String → Bool} {params : URLSearchParams} {filter : BoardFilter String}

theorem filterFrom_of_denotes (hdenotes : Denotes params filter) (hvalid : filter.Valid isUuid) :
    filterFromSearchParams isUuid params = filter := by
  have hparsed := parse_ok_iff.mpr ⟨(denotes_iff _ _).mp hdenotes, hvalid⟩
  rw [filterFromSearchParams, hparsed]

/-- A link that denotes no valid filter is read as the empty one. -/
theorem filterFrom_of_not (h : ¬ ∃ filter, Denotes params filter ∧ filter.Valid isUuid) :
    filterFromSearchParams isUuid params = emptyBoardFilter := by
  unfold filterFromSearchParams
  cases hparsed : (candidate params).parse isUuid with
  | error e => rfl
  | ok filter =>
    obtain ⟨hspells, hvalid⟩ := parse_ok_iff.mp hparsed
    exact absurd ⟨filter, (denotes_iff _ _).mpr hspells, hvalid⟩ h

theorem filterFrom_accepted (isUuid : String → Bool) (params : URLSearchParams) :
    ∃ raw, BoardFilterInput.parse isUuid raw = .ok (filterFromSearchParams isUuid params) := by
  unfold filterFromSearchParams
  cases hparsed : (candidate params).parse isUuid with
  | error e => exact ⟨{}, parse_nothing isUuid⟩
  | ok filter => exact ⟨_, hparsed⟩

end decoding

/-- A filter that the schema makes comes back from its parameters, and from the text of them;
any parameters give a filter of the schema: the valid one that they denote, or the empty one. -/
theorem filter_url (isUuid : String → Bool) :
    (∀ raw filter, BoardFilterInput.parse isUuid raw = .ok filter →
      filterFromSearchParams isUuid (filterToSearchParams filter) = filter ∧
      filterFromSearchParams isUuid (.ofText (filterToSearchParams filter).toText) = filter ∧
      filterFromSearchParams isUuid
        (.ofText (String.ofList ('?' :: (filterToSearchParams filter).toText.toList))) = filter) ∧
    (∀ params,
      (∃ raw, BoardFilterInput.parse isUuid raw = .ok (filterFromSearchParams isUuid params)) ∧
      (∀ filter, Denotes params filter → filter.Valid isUuid →
        filterFromSearchParams isUuid params = filter) ∧
      ((¬ ∃ filter, Denotes params filter ∧ filter.Valid isUuid) →
        filterFromSearchParams isUuid params = emptyBoardFilter)) := by
  constructor
  · intro raw filter hparsed
    obtain ⟨-, hvalid⟩ := parse_ok_iff.mp hparsed
    have hdenotes : Denotes (filterToSearchParams filter) filter :=
      (denotes_iff _ _).mpr (candidate_spells fun tag htag => (hvalid.tags tag htag).1)
    obtain ⟨hplain, hmarked⟩ := ofText_toText (filterToSearchParams filter)
    have hback := filterFrom_of_denotes hdenotes hvalid
    refine ⟨hback, ?_, ?_⟩
    · rw [hplain, hback]
    · rw [hmarked, hback]
  · intro params
    exact ⟨filterFrom_accepted isUuid params, fun _ => filterFrom_of_denotes, filterFrom_of_not⟩


/-- A tag with a separator in it and a free text beyond ASCII survive. -/
theorem filter_url_sample :
    filterFromSearchParams (fun _ => true) (.ofText (filterToSearchParams
      { (emptyBoardFilter : BoardFilter String) with tags := ["a&b=c"], q := "café +1" }).toText) =
      { (emptyBoardFilter : BoardFilter String) with tags := ["a&b=c"], q := "café +1" } ∧
    filterFromSearchParams (fun _ => true) ⟨[("priority", "P9"), ("q", "crane")]⟩ =
      emptyBoardFilter := by
  obtain ⟨hback, hany⟩ := filter_url fun _ => true
  obtain ⟨-, -, hempty⟩ := hany ⟨[("priority", "P9"), ("q", "crane")]⟩
  refine ⟨(hback { tags := some [" a&b=c"], q := some "café +1" } _ (by decide +kernel)).2.1, ?_⟩
  refine hempty ?_
  rintro ⟨filter, hdenotes, -⟩
  have hpriority : ["P9"] = filter.priorities.map Priority.text := hdenotes.priorities.symm
  cases hlist : filter.priorities with
  | nil => simp [hlist] at hpriority
  | cons p rest =>
    cases p <;> simp [hlist, Priority.text] at hpriority

end AiKanban.Web
