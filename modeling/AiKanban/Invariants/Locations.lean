import AiKanban.Effects.Tables
import AiKanban.Invariants.BoardIntegrity
import AiKanban.Services.BoardQuery

/-!
# The tree of locations

Every location stands below one of the kind its own kind requires, siblings differ in their
folded names, and no card names a missing location. So the walk below a location ends.
-/
namespace AiKanban.Invariants

open Application Db Domain Effects Relational Server Services Transactions Trees Relation

open LocationAdminService (requiredParentKind ensureParent ensureUniqueSiblingName)

/-- The second is right below the first. -/
def ParentOf (s : Store) (parent child : Uuid) : Prop :=
  ∃ l ∈ s.locations.rows, l.id = child ∧ l.parentId = some parent

structure LocationIntegrity [Platform] (s : Store) : Prop where
  roots : ∀ l ∈ s.locations.rows, requiredParentKind l.kind = none → l.parentId = none
  parents : ∀ l ∈ s.locations.rows, ∀ kind ∈ requiredParentKind l.kind,
    ∃ parent ∈ s.locations.rows, l.parentId = some parent.id ∧ parent.kind = kind
  acyclic : ∀ id, ¬ TransGen (ParentOf s) id id
  siblings : ∀ a ∈ s.locations.rows, ∀ b ∈ s.locations.rows, a.parentId = b.parentId →
    Platform.toLowerCase (trim a.name) = Platform.toLowerCase (trim b.name) → a = b
  cards : ∀ card ∈ s.cards.rows, ∀ id ∈ card.locationId, ∃ l ∈ s.locations.rows, l.id = id

/-- The locations alone. -/
structure LocationTree [Platform] (rows : List Location) : Prop where
  roots : ∀ l ∈ rows, requiredParentKind l.kind = none → l.parentId = none
  parents : ∀ l ∈ rows, ∀ kind ∈ requiredParentKind l.kind,
    ∃ parent ∈ rows, l.parentId = some parent.id ∧ parent.kind = kind
  siblings : ∀ a ∈ rows, ∀ b ∈ rows, a.parentId = b.parentId →
    Platform.toLowerCase (trim a.name) = Platform.toLowerCase (trim b.name) → a = b

variable {w w' : World Store Tick} {s s' : Store}

section walking

/-- The height of a location of the kind in a tree. -/
def height : LocationKind → ℕ
  | .building => 2
  | .floor => 1
  | .room => 0

theorem height_requiredParent {kind parent : LocationKind}
    (h : requiredParentKind kind = some parent) : height parent = height kind + 1 := by
  cases kind <;> cases h <;> rfl

/-- What the location under an id gives for its height. -/
def heightOf (s : Store) (id : Uuid) : ℕ := ((s.locations.find? id).map (height ·.kind)).getD 0

theorem mem_childrenByParentOf {all : List Location} {parent id : Uuid} :
    id ∈ BoardQueryService.childrenByParentOf all parent ↔
      ∃ l ∈ all, l.id = id ∧ l.parentId = some parent := by
  simp only [BoardQueryService.childrenByParentOf, List.mem_map, List.mem_filter, beq_iff_eq]
  constructor
  · rintro ⟨l, ⟨hl, hparent⟩, rfl⟩
    exact ⟨l, hl, rfl, hparent⟩
  · rintro ⟨l, hl, rfl, hparent⟩
    exact ⟨l, ⟨hl, hparent⟩, rfl⟩

theorem listed_perm (s : Store) : (LocationRepository.listed s).Perm s.locations.rows :=
  (List.perm_insertionSort _ _).trans
    ((List.perm_insertionSort _ _).trans (List.perm_insertionSort _ _))

theorem locationIds_nodup (s : Store) : (s.locations.rows.map (·.id)).Nodup :=
  s.locations.keys_nodup

theorem child_iff {parent id : Uuid} :
    Child (BoardQueryService.childrenByParentOf (LocationRepository.listed s)) parent id ↔
      ParentOf s parent id := by
  unfold Child
  rw [mem_childrenByParentOf]
  simp only [(listed_perm s).mem_iff]
  rfl

theorem child_eq :
    Child (BoardQueryService.childrenByParentOf (LocationRepository.listed s)) = ParentOf s := by
  funext parent id
  exact propext child_iff

/-- A child is one lower than its parent. -/
theorem LocationTree.heightOf_lt [Platform] (h : LocationTree s.locations.rows) {parent id : Uuid}
    (hchild : ParentOf s parent id) : heightOf s id < heightOf s parent := by
  obtain ⟨l, hl, rfl, hparent⟩ := hchild
  have hfound : s.locations.find? l.id = some l := Table.find?_of_mem hl
  cases hkind : requiredParentKind l.kind with
  | none => simp [h.roots l hl hkind] at hparent
  | some kind =>
    obtain ⟨p, hp, hpid, hpkind⟩ := h.parents l hl kind hkind
    obtain rfl : p.id = parent := Option.some.inj (hpid.symm.trans hparent)
    have hpfound : s.locations.find? p.id = some p := Table.find?_of_mem hp
    subst hpkind
    have hheight := height_requiredParent hkind
    simp only [heightOf, hfound, hpfound, Option.map_some, Option.getD_some]
    omega

theorem LocationTree.forest [Platform] (h : LocationTree s.locations.rows) :
    Forest (BoardQueryService.childrenByParentOf (LocationRepository.listed s)) (heightOf s) where
  falls := fun _ _ hchild => h.heightOf_lt (child_iff.mp hchild)
  parent := by
    intro a b id ha hb
    obtain ⟨l, hl, rfl, hla⟩ := child_iff.mp ha
    obtain ⟨l', hl', hid, hlb⟩ := child_iff.mp hb
    obtain rfl : l' = l := Table.eq_of_key hl' hl hid
    exact Option.some.inj (hla.symm.trans hlb)
  nodup := by
    intro parent
    refine List.Nodup.sublist (List.filter_sublist.map _) ?_
    exact ((listed_perm s).map _).nodup_iff.mpr (locationIds_nodup s)

theorem LocationTree.acyclic [Platform] (h : LocationTree s.locations.rows) (id : Uuid) :
    ¬ TransGen (ParentOf s) id id := by
  rw [← child_eq]
  exact h.forest.acyclic id

/-- Below a location there are only locations. -/
theorem mem_ids_of_below {root id : Uuid} (hroot : root ∈ s.locations.rows.map (·.id))
    (hbelow : ReflTransGen (ParentOf s) root id) : id ∈ s.locations.rows.map (·.id) := by
  rcases hbelow.cases_tail with rfl | ⟨parent, -, l, hl, rfl, -⟩
  · exact hroot
  · exact List.mem_map_of_mem hl

/-- The walk takes at most one round for each location. -/
theorem LocationTree.subtreeIds [Platform] (h : LocationTree s.locations.rows) {root : Location}
    (hroot : root ∈ s.locations.rows) :
    ∃ ids, (∀ fuel, s.locations.rows.length ≤ fuel → BoardQueryService.subtreeIds fuel root.id
        (BoardQueryService.childrenByParentOf (LocationRepository.listed s)) = some ids) ∧
      ids.Nodup ∧ ∀ id, id ∈ ids ↔ ReflTransGen (ParentOf s) root.id id := by
  obtain ⟨ids, hwalk, hnodup, hmem⟩ := h.forest.walk_one root.id
  rw [child_eq] at hmem
  refine ⟨ids, fun fuel hfuel => hwalk fuel ?_, hnodup, hmem⟩
  have hsubset : ids ⊆ s.locations.rows.map (·.id) := by
    intro id hid
    exact mem_ids_of_below (List.mem_map_of_mem hroot) ((hmem id).mp hid)
  have hlength := (hnodup.subperm hsubset).length_le
  rw [List.length_map] at hlength
  omega

end walking

section growing

/-- What an accepted location has checked about its parent. -/
theorem runs_ensureParent {kind : LocationKind} {parentId : Option Uuid} {u : Unit}
    (h : Runs (ensureParent kind parentId) w u w') :
    w' = w ∧ (requiredParentKind kind = none → parentId = none) ∧
      ∀ required ∈ requiredParentKind kind, ∃ parent ∈ w.store.locations.rows,
        parentId = some parent.id ∧ parent.kind = required := by
  refine ⟨h.of_readsOnly (readsOnly_ensureParent _ _), ?_⟩
  unfold ensureParent at h
  cases hkind : requiredParentKind kind with
  | none =>
    cases parentId with
    | none => exact ⟨fun _ => rfl, fun required hrequired => by cases hrequired⟩
    | some id =>
      simp only [hkind] at h
      exact absurd h not_runs_throw
  | some required =>
    refine ⟨nofun, fun required' hrequired => ?_⟩
    obtain rfl : required = required' := Option.some.inj hrequired
    cases parentId with
    | none =>
      simp only [hkind] at h
      exact absurd h not_runs_throw
    | some id =>
      simp only [hkind, LocationRepository.findById, runs_bind_iff, runs_selectKey_iff,
        runs_requireFound_iff, runs_ensure_iff, table_locations] at h
      obtain ⟨_, _, ⟨rfl, rfl⟩, parent, _, ⟨hfound, rfl⟩, hkindEq, -⟩ := h
      refine ⟨parent, Table.mem_of_find? hfound, ?_, by simpa using hkindEq⟩
      rw [show parent.id = id from Table.find?_key hfound]

variable [Platform]

/-- No other location below the same parent has the folded name. -/
theorem runs_ensureUniqueSiblingName {parentId selfId : Option Uuid} {name : String} {u : Unit}
    (h : Runs (ensureUniqueSiblingName parentId name selfId) w u w') :
    w' = w ∧ ∀ l ∈ w.store.locations.rows, l.parentId = parentId →
      Platform.toLowerCase (trim l.name) = Platform.toLowerCase (trim name) → some l.id = selfId := by
  simp only [ensureUniqueSiblingName, LocationRepository.list, runs_bind_iff, runs_read_iff,
    runs_ensure_iff] at h
  obtain ⟨_, _, ⟨rfl, rfl⟩, hall, rfl⟩ := h
  refine ⟨rfl, fun l hl hparent hname => ?_⟩
  have hl' := List.all_eq_true.mp hall l ((listed_perm _).mem_iff.mpr hl)
  simpa [hparent, hname] using hl'

/-- A location under a fitting parent, with a name that its siblings have not. -/
theorem LocationTree.insert {rows : List Location} {location : Location} (h : LocationTree rows)
    (hroot : requiredParentKind location.kind = none → location.parentId = none)
    (hparent : ∀ kind ∈ requiredParentKind location.kind,
      ∃ parent ∈ rows, location.parentId = some parent.id ∧ parent.kind = kind)
    (hname : ∀ l ∈ rows, l.parentId = location.parentId →
      Platform.toLowerCase (trim l.name) ≠ Platform.toLowerCase (trim location.name)) :
    LocationTree (rows ++ [location]) where
  roots := by
    intro l hl
    rcases List.mem_append.mp hl with hold | hnew
    · exact h.roots l hold
    · rwa [List.mem_singleton.mp hnew]
  parents := by
    have hgrow : ∀ l : Location, (∀ kind ∈ requiredParentKind l.kind,
        ∃ parent ∈ rows, l.parentId = some parent.id ∧ parent.kind = kind) →
        ∀ kind ∈ requiredParentKind l.kind,
          ∃ parent ∈ rows ++ [location], l.parentId = some parent.id ∧ parent.kind = kind := by
      intro l hparents kind hkind
      obtain ⟨parent, hmem, hrest⟩ := hparents kind hkind
      exact ⟨parent, List.mem_append_left _ hmem, hrest⟩
    intro l hl
    rcases List.mem_append.mp hl with hold | hnew
    · exact hgrow l (h.parents l hold)
    · rw [List.mem_singleton.mp hnew]
      exact hgrow location hparent
  siblings := by
    intro a ha b hb hsame hfold
    rcases List.mem_append.mp ha with haold | hanew <;>
      rcases List.mem_append.mp hb with hbold | hbnew
    · exact h.siblings a haold b hbold hsame hfold
    · rw [List.mem_singleton.mp hbnew] at hsame hfold
      exact absurd hfold (hname a haold hsame)
    · rw [List.mem_singleton.mp hanew] at hsame hfold
      exact absurd hfold.symm (hname b hbold hsame.symm)
    · rw [List.mem_singleton.mp hanew, List.mem_singleton.mp hbnew]

/-- Another name for one location, which its siblings have not. -/
theorem LocationTree.rename {rows : List Location} {name : String} (h : LocationTree rows)
    (found : Location) (hfound : found ∈ rows)
    (hkeys : ∀ a ∈ rows, ∀ b ∈ rows, a.id = b.id → a = b)
    (hname : ∀ l ∈ rows, l.parentId = found.parentId →
      Platform.toLowerCase (trim l.name) = Platform.toLowerCase (trim name) → l.id = found.id) :
    LocationTree (rows.map fun l => if l.id = found.id then { found with name } else l) := by
  have hshape : ∀ l ∈ rows, ∀ l', l' = (if l.id = found.id then { found with name } else l) →
      l'.id = l.id ∧ l'.kind = l.kind ∧ l'.parentId = l.parentId := by
    rintro l hl l' rfl
    split_ifs with hid
    · obtain rfl := hkeys l hl found hfound hid
      exact ⟨rfl, rfl, rfl⟩
    · exact ⟨rfl, rfl, rfl⟩
  refine ⟨?_, ?_, ?_⟩
  · rintro l' hl' hnone
    obtain ⟨l, hl, rfl⟩ := List.mem_map.mp hl'
    obtain ⟨-, hkind, hparent⟩ := hshape l hl _ rfl
    rw [hkind] at hnone
    rw [hparent]
    exact h.roots l hl hnone
  · rintro l' hl' kind hrequired
    obtain ⟨l, hl, rfl⟩ := List.mem_map.mp hl'
    obtain ⟨-, hkind, hparent⟩ := hshape l hl _ rfl
    rw [hkind] at hrequired
    obtain ⟨parent, hmem, hpid, hpkind⟩ := h.parents l hl kind hrequired
    obtain ⟨hid, hkind', -⟩ := hshape parent hmem _ rfl
    refine ⟨_, List.mem_map.mpr ⟨parent, hmem, rfl⟩, ?_, hkind'.trans hpkind⟩
    rw [hparent, hid, hpid]
  · intro a' ha' b' hb' hsame hfold
    obtain ⟨a, ha, rfl⟩ := List.mem_map.mp ha'
    obtain ⟨b, hb, rfl⟩ := List.mem_map.mp hb'
    rw [(hshape a ha _ rfl).2.2, (hshape b hb _ rfl).2.2] at hsame
    by_cases haid : a.id = found.id <;> by_cases hbid : b.id = found.id
    · rw [if_pos haid, if_pos hbid]
    · obtain rfl := hkeys a ha found hfound haid
      rw [if_pos rfl, if_neg hbid] at hfold
      exact absurd (hname b hb hsame.symm hfold.symm) hbid
    · obtain rfl := hkeys b hb found hfound hbid
      rw [if_neg haid, if_pos rfl] at hfold
      exact absurd (hname a ha hsame hfold) haid
    · rw [if_neg haid, if_neg hbid] at hfold ⊢
      exact h.siblings a ha b hb hsame hfold

theorem tree_createLocation {boardId : Uuid} {actor : Actor} {raw : CreateLocationInput}
    {location : Location} (hw : LocationTree w.store.locations.rows)
    (h : Runs (LocationAdminService.create boardId actor raw) w location w') :
    LocationTree w'.store.locations.rows ∧
      w'.store.locations.rows = w.store.locations.rows ++ [location] := by
  unfold LocationAdminService.create at h
  replace h := runs_bind_iff.mp h
  obtain ⟨input, _, hparse, h⟩ := h
  obtain ⟨-, rfl⟩ := runs_ofExcept_iff.mp hparse
  replace h := runs_bind_iff.mp h
  obtain ⟨id, w₁, hid, h⟩ := h
  obtain ⟨rfl, rfl⟩ := runs_newId_iff.mp hid
  replace h := runs_bind_iff.mp h
  obtain ⟨_, w₂, hgranted, h⟩ := h
  obtain rfl := hgranted.of_readsOnly (readsOnly_ensureGranted _ _ _)
  replace h := runs_bind_iff.mp h
  obtain ⟨_, w₃, hparent, h⟩ := h
  obtain ⟨rfl, hroot, hparents⟩ := runs_ensureParent hparent
  replace h := runs_bind_iff.mp h
  obtain ⟨_, w₄, hname, h⟩ := h
  obtain ⟨rfl, hunique⟩ := runs_ensureUniqueSiblingName hname
  simp only [LocationRepository.insert, runs_bind_iff, runs_insertRow_iff, runs_pure_iff,
    table_locations, put_locations] at h
  obtain ⟨_, _, ⟨haccepts, -, rfl⟩, rfl, rfl⟩ := h
  rw [World.withStore_store, Table.rows_insert haccepts]
  refine ⟨?_, rfl⟩
  exact hw.insert hroot hparents fun l hl hsame hfold => by cases hunique l hl hsame hfold

theorem tree_updateLocation {boardId : Uuid} {actor : Actor} {locationId : Uuid}
    {raw : UpdateLocationInput} {location : Location} (hw : LocationTree w.store.locations.rows)
    (h : Runs (LocationAdminService.update boardId actor locationId raw) w location w') :
    LocationTree w'.store.locations.rows ∧ ∀ id, (∃ l ∈ w.store.locations.rows, l.id = id) →
      ∃ l ∈ w'.store.locations.rows, l.id = id := by
  unfold LocationAdminService.update at h
  replace h := runs_bind_iff.mp h
  obtain ⟨input, _, hparse, h⟩ := h
  obtain ⟨-, rfl⟩ := runs_ofExcept_iff.mp hparse
  replace h := runs_bind_iff.mp h
  obtain ⟨_, w₁, hgranted, h⟩ := h
  obtain rfl := hgranted.of_readsOnly (readsOnly_ensureGranted _ _ _)
  simp only [LocationRepository.findById, LocationRepository.update, runs_bind_iff,
    runs_selectKey_iff, runs_requireFound_iff, runs_modifyRow_iff, runs_pure_iff, table_locations,
    put_locations] at h
  obtain ⟨_, _, ⟨rfl, rfl⟩, found, _, ⟨hfound, rfl⟩, _, w₂, hname, _, _,
    ⟨row, hrow, haccepts, -, rfl⟩, -, rfl⟩ := h
  obtain ⟨rfl, hunique⟩ := runs_ensureUniqueSiblingName hname
  rw [World.withStore_store, Table.rows_update haccepts]
  refine ⟨?_, ?_⟩
  · refine hw.rename found (Table.mem_of_find? hfound)
      (fun a ha b hb => Table.eq_of_key ha hb) ?_
    exact fun l hl hsame hfold => Option.some.inj (hunique l hl hsame hfold)
  · rintro id ⟨l, hl, rfl⟩
    refine ⟨_, List.mem_map.mpr ⟨l, hl, rfl⟩, ?_⟩
    split_ifs with hid
    · exact hid.symm
    · rfl

end growing

section deleting

/-- What the expansion has still to find. -/
def unvisited (locations : List Location) (visited : List Uuid) : List Location :=
  locations.filter fun l => !visited.contains l.id

/-- A level that finds a new child leaves less to find. -/
theorem length_unvisited_lt {locations : List Location} {visited children : List Uuid}
    {child : Location} (hmem : child ∈ locations) (hnew : child.id ∉ visited)
    (hchild : child.id ∈ children) :
    (unvisited locations (children ++ visited)).length < (unvisited locations visited).length := by
  have hsub : unvisited locations (children ++ visited) =
      (unvisited locations visited).filter fun l => !children.contains l.id := by
    simp only [unvisited, List.filter_filter, List.contains_eq_mem, List.mem_append]
    refine List.filter_congr fun l _ => ?_
    simp only [Bool.decide_or, Bool.not_or]
  rw [hsub]
  refine List.length_filter_lt_length_iff_exists.mpr ⟨child, ?_, by simpa using hchild⟩
  exact List.mem_filter.mpr ⟨hmem, by simpa using hnew⟩

/-- The expansion ends with every location below the visited ones. -/
theorem expand_closed {locations : List Location} {fuel : ℕ} {visited frontier : List Uuid}
    (hfuel : (unvisited locations visited).length ≤ fuel) (hfrontier : frontier ⊆ visited)
    (hclosed : ∀ l ∈ locations, ∀ p ∈ l.parentId, p ∈ visited → p ∉ frontier → l.id ∈ visited) :
    ∀ l ∈ locations, ∀ p ∈ l.parentId,
      p ∈ visited ∨ p ∈ LocationRepository.expand locations fuel visited frontier →
      l.id ∈ visited ∨ l.id ∈ LocationRepository.expand locations fuel visited frontier := by
  induction fuel generalizing visited frontier with
  | zero =>
    intro l hl p _ _
    by_contra hnot
    have hmem : l ∈ unvisited locations visited :=
      List.mem_filter.mpr ⟨hl, by simpa using fun hvisited => hnot (.inl hvisited)⟩
    have := List.length_pos_of_mem hmem
    omega
  | succ fuel ih =>
    intro l hl p hp hbelow
    set children := (locations.filter fun l =>
      l.parentId.any (frontier.contains ·) && !visited.contains l.id).map (·.id) with hchildren
    have hchild : ∀ c ∈ locations, ∀ q ∈ c.parentId, q ∈ frontier → c.id ∉ visited →
        c.id ∈ children := by
      intro c hc q hq hfront hnew
      rw [Option.mem_def] at hq
      refine List.mem_map.mpr ⟨c, List.mem_filter.mpr ⟨hc, ?_⟩, rfl⟩
      simp [hq, hfront, hnew]
    have hold : p ∈ visited → l.id ∈ visited ∨ l.id ∈ children := by
      intro hvisited
      by_cases hnew : l.id ∈ visited
      · exact .inl hnew
      · by_cases hfront : p ∈ frontier
        · exact .inr (hchild l hl p hp hfront hnew)
        · exact .inl (hclosed l hl p hp hvisited hfront)
    rw [LocationRepository.expand] at hbelow ⊢
    simp only [← hchildren] at hbelow ⊢
    cases hnone : children with
    | nil =>
      simp only [hnone, List.isEmpty_nil, if_true, List.not_mem_nil, or_false] at hbelow hold ⊢
      exact hold hbelow
    | cons id rest =>
      have hany : children.isEmpty = false := by rw [hnone]; rfl
      rw [← hnone]
      simp only [hany, Bool.false_eq_true, if_false, List.mem_append] at hbelow ⊢
      obtain ⟨c, hc, hcid⟩ : ∃ c ∈ locations, c.id = id ∧ c.id ∉ visited := by
        have hid : id ∈ children := by simp [hnone]
        obtain ⟨c, hc, rfl⟩ := List.mem_map.mp hid
        obtain ⟨hmem, hnew⟩ := List.mem_filter.mp hc
        refine ⟨c, hmem, rfl, ?_⟩
        simp only [Bool.and_eq_true, Bool.not_eq_true'] at hnew
        simpa using hnew.2
      have hless : (unvisited locations (children ++ visited)).length <
          (unvisited locations visited).length :=
        length_unvisited_lt hc hcid.2 (by simp [hcid.1, hnone])
      have hnext : ∀ c ∈ locations, ∀ q ∈ c.parentId, q ∈ children ++ visited → q ∉ children →
          c.id ∈ children ++ visited := by
        intro c hc q hq hmem hnot
        rcases List.mem_append.mp hmem with hq' | hq'
        · exact absurd hq' hnot
        · by_cases hnew : c.id ∈ visited
          · exact List.mem_append_right _ hnew
          · by_cases hfront : q ∈ frontier
            · exact List.mem_append_left _ (hchild c hc q hq hfront hnew)
            · exact absurd (hclosed c hc q hq hq' hfront) hnew
      have hrest := ih (by omega) (List.subset_append_left _ _) hnext l hl p hp
      simp only [List.mem_append] at hrest
      rcases hrest (by tauto) with (hl' | hl') | hl' <;> tauto

/-- A location below a collected one is collected. -/
theorem collectSubtree_closed {locations : List Location} {root : Uuid} {l : Location}
    (hl : l ∈ locations) {p : Uuid} (hp : l.parentId = some p)
    (hmem : p ∈ LocationRepository.collectSubtree locations root) :
    l.id ∈ LocationRepository.collectSubtree locations root := by
  have hfuel : (unvisited locations [root]).length ≤ locations.length := List.length_filter_le _ _
  have hclosed := expand_closed hfuel (List.Subset.refl [root])
    (fun _ _ _ _ hin hout => absurd hin hout) l hl p hp
  simp only [LocationRepository.collectSubtree, List.mem_append] at hmem ⊢
  exact (hclosed hmem.symm).symm

theorem runs_deleteEach {ids : List Uuid} {u : Unit}
    (h : Runs (Program.forEach (fun id => deleteWhere fun r : Location => r.id == id) ids : Tx Unit)
      w u w') :
    w'.store.locations.rows = w.store.locations.rows.filter fun l => !ids.contains l.id := by
  induction ids generalizing w with
  | nil =>
    obtain ⟨-, rfl⟩ := runs_progPure_iff.mp h
    simp
  | cons id ids ih =>
    obtain ⟨_, w₁, hdelete, hrest⟩ := runs_progBind_iff.mp h
    obtain rfl := runs_deleteWhere_iff.mp hdelete
    rw [ih hrest]
    simp only [World.withStore_store, table_locations, put_locations, Table.remove,
      List.filter_filter]
    refine List.filter_congr fun l _ => ?_
    simp only [List.contains_cons, Bool.not_or, Bool.and_comm]

/-- What an accepted deletion leaves of the locations. -/
theorem runs_deleteLocation_rows {id : Uuid} {u : Unit}
    (h : Runs (LocationRepository.delete id) w u w') :
    w'.store.locations.rows = w.store.locations.rows.filter fun l =>
      !(LocationRepository.collectSubtree w.store.locations.rows id).contains l.id := by
  simp only [LocationRepository.delete, LocationRepository.findById, runs_bind_iff,
    runs_selectKey_iff, runs_require_iff, runs_read_iff, runs_modifyWhere_iff, table_cards,
    put_cards] at h
  obtain ⟨_, _, ⟨rfl, rfl⟩, found, _, ⟨hfound, rfl⟩, _, w₀, ⟨rfl, rfl⟩, _, _, rfl, hdelete⟩ := h
  have hrows := runs_deleteEach hdelete
  exact hrows

/-- Without a set of locations that holds what is below its members. -/
theorem LocationTree.cut [Platform] {rows : List Location} {ids : List Uuid} (h : LocationTree rows)
    (hclosed : ∀ l ∈ rows, ∀ p ∈ l.parentId, p ∈ ids → l.id ∈ ids) :
    LocationTree (rows.filter fun l => !ids.contains l.id) where
  roots := fun l hl => h.roots l (List.mem_filter.mp hl).1
  parents := by
    intro l hl kind hkind
    obtain ⟨hmem, hleft⟩ := List.mem_filter.mp hl
    obtain ⟨parent, hparent, hid, hpkind⟩ := h.parents l hmem kind hkind
    refine ⟨parent, List.mem_filter.mpr ⟨hparent, ?_⟩, hid, hpkind⟩
    have hnot : l.id ∉ ids := by simpa using hleft
    simpa using fun hgone => hnot (hclosed l hmem parent.id hid hgone)
  siblings := fun a ha b hb =>
    h.siblings a (List.mem_filter.mp ha).1 b (List.mem_filter.mp hb).1

end deleting

section cards

/-- Cards name known locations only. -/
def CardsAt (known : Uuid → Prop) (s : Store) : Prop :=
  ∀ card ∈ s.cards.rows, ∀ id ∈ card.locationId, known id

def HasLocation (s : Store) (id : Uuid) : Prop := ∃ l ∈ s.locations.rows, l.id = id

theorem hasLocation_congr (h : s'.locations = s.locations) : HasLocation s' = HasLocation s := by
  unfold HasLocation
  rw [h]

variable {known known' : Uuid → Prop}

theorem CardsAt.mono (h : CardsAt known s) (hknown : ∀ id, known id → known' id) :
    CardsAt known' s :=
  fun card hcard id hid => hknown id (h card hcard id hid)

theorem CardsAt.of_cards (h : CardsAt known s) (hcards : s'.cards = s.cards) : CardsAt known s' := by
  unfold CardsAt
  rwa [hcards]

theorem CardsAt.rewritten {card next : Card} {events : List CardEvent} (h : CardsAt known w.store)
    (hrewritten : Rewritten w w' card next events) (hnext : ∀ id ∈ next.locationId, known id) :
    CardsAt known w'.store := by
  intro c hc
  rcases hrewritten.mem_cards hc with rfl | ⟨hold, -⟩
  · exact hnext
  · exact h c hold

/-- The operations that take a location from their input. -/
def PlacesCard : CardOperation → Prop
  | .create .. | .update .. => True
  | _ => False

/-- No other change of a card names another location. -/
theorem locationId_change [Platform] {op : CardOperation} {card next : Card}
    {bodies : List CardEventBody} (h : Change s s' op card next bodies) (hop : ¬ PlacesCard op) :
    next.locationId = card.locationId := by
  cases h with
  | edited => exact absurd trivial hop
  | moved =>
    obtain ⟨_, _, _, _, _, hcross⟩ := crossLane_frame card _ _ _ _ _
    rw [hcross]
    rfl
  | reordered | cancelled | reopened | archived | expired | blocked | unblocked => rfl

/-- An operation that takes no location from its input leaves cards where they are. -/
theorem CardsAt.effect [Platform] {op : Operation} (h : CardsAt known w.store)
    (heffect : Effect w w' op) (hop : ∀ cardOp, op = .card cardOp → ¬ PlacesCard cardOp) :
    CardsAt known w'.store := by
  cases heffect with
  | untouched huntouched => exact h.of_cards (huntouched.frame .cards (by decide))
  | created => exact absurd trivial (hop _ rfl)
  | changed hchanged =>
    have hcard := Table.mem_of_find? hchanged.rewritten.found
    refine h.rewritten hchanged.rewritten fun id hid => ?_
    rw [locationId_change hchanged.change (hop _ rfl)] at hid
    exact h _ hcard id hid
  | discarded _ hdiscarded =>
    intro c hc
    rw [hdiscarded.cards] at hc
    exact h c (Table.mem_remove.mp hc).1
  | alerted halerted =>
    intro c hc
    have hfind : w'.store.cards.find? c.id = some c := Table.find?_of_mem hc
    rcases halerted.cards c.id with hsame | ⟨card, nowIso, hfound, -, -, hmarked⟩
    · rw [hsame] at hfind
      exact h c (Table.mem_of_find? hfind)
    · obtain rfl := Option.some.inj (hmarked.symm.trans hfind)
      exact h card (Table.mem_of_find? hfound)
  | noted hnoted => exact h.of_cards (hnoted.frame .cards (by decide))
  | related _ _ hlinked | unrelated _ hlinked => exact h.of_cards (by rw [hlinked.store])
  | unlocated _ _ hunlocated =>
    intro c hc
    rw [hunlocated.cards] at hc
    obtain ⟨card, hcard, rfl⟩ := List.mem_map.mp hc
    split_ifs
    · exact fun id hid => by cases hid
    · exact h card hcard

theorem CardsAt.operation [Platform] {op : Operation} (h : CardsAt known w.store)
    (hop : ∀ cardOp, op = .card cardOp → ¬ PlacesCard cardOp) :
    CardsAt known (step w op).store :=
  step_induction (I := fun w₁ => CardsAt known w₁.store)
    (P := fun _ op' => ∀ cardOp, op' = .card cardOp → ¬ PlacesCard cardOp)
    (fun _ _ _ _ hop => hop) (fun _ _ _ hop => hop)
    (fun _ _ _ hw hop heffect => hw.effect heffect hop) h hop

/-- A location that a body requires is there. -/
theorem runs_requirePresent {locationId : Option Uuid} {u : Unit}
    (h : Runs (CardService.forPresent locationId CardService.requireLocation) w u w') :
    w' = w ∧ ∀ id ∈ locationId, HasLocation w.store id := by
  cases locationId with
  | none => exact ⟨(runs_pure_iff.mp h).2, nofun⟩
  | some id =>
    simp only [CardService.forPresent, CardService.requireLocation, LocationRepository.findById,
      runs_bind_iff, runs_selectKey_iff, runs_requireFound_iff, runs_pure_iff, table_locations] at h
    obtain ⟨_, _, ⟨rfl, rfl⟩, l, _, ⟨hfound, rfl⟩, -, rfl⟩ := h
    refine ⟨rfl, fun id' hid => ?_⟩
    obtain rfl : id = id' := Option.some.inj hid
    exact ⟨l, Table.mem_of_find? hfound, Table.find?_key hfound⟩

variable [Platform]

/-- A new card names a location that is there. -/
theorem runs_createBody_located {deps : CardServiceDeps} {actor : Actor} {input : CreateCardInput}
    {options : CreateCardOptions} {origin : CardOrigin} {r : Card}
    (h : Runs (CardService.createBody deps actor input options origin) w r w') :
    ∀ id ∈ r.locationId, HasLocation w.store id := by
  unfold CardService.createBody at h
  replace h := runs_bind_iff.mp h
  obtain ⟨_, _, haccess, h⟩ := h
  obtain ⟨rfl, -⟩ := runs_requireBoardAccess haccess
  replace h := runs_bind_iff.mp h
  obtain ⟨policy, _, hpolicy, h⟩ := h
  obtain rfl := runs_activePolicy hpolicy
  replace h := runs_bind_iff.mp h
  obtain ⟨_, _, hdecided, h⟩ := h
  obtain ⟨-, rfl⟩ := runs_decidePolicy_iff.mp hdecided
  replace h := runs_bind_iff.mp h
  obtain ⟨_, _, hread, h⟩ := h
  obtain ⟨-, rfl⟩ := runs_read_iff.mp hread
  replace h := runs_bind_iff.mp h
  obtain ⟨_, _, hreporter, h⟩ := h
  obtain ⟨-, rfl⟩ := runs_requireFound_iff.mp hreporter
  replace h := runs_bind_iff.mp h
  obtain ⟨_, _, hassignee, h⟩ := h
  obtain rfl := hassignee.of_readsOnly
    (readsOnly_forPresent fun _ => readsOnly_requireAssignable _ _ _)
  replace h := runs_bind_iff.mp h
  obtain ⟨_, w₁, hlocation, h⟩ := h
  obtain ⟨rfl, hlocated⟩ := runs_requirePresent hlocation
  simp only [runs_bind_iff, runs_pure_iff] at h
  obtain ⟨_, _, -, _, _, -, _, _, -, _, _, -, _, _, -, _, _, -, _, _, -, _, _, -, _, _, -, _, _, -,
    _, _, -, _, _, -, rfl, -⟩ := h
  exact hlocated

/-- The edited row was checked against the locations when it was written. -/
theorem runs_updateBody_located {deps : CardServiceDeps} {actor : Actor} {cardId : ℕ}
    {input : UpdateCardInput} {r : Card}
    (h : Runs (CardService.updateBody deps actor cardId input) w r w') :
    r ∈ w.store.cards.rows ∨ ∀ id ∈ r.locationId, HasLocation w'.store id := by
  simp only [CardService.updateBody, runs_bind_iff, runs_ensureNotArchived_iff,
    runs_decidePolicy_iff, runs_ensureVersion_iff, runs_ite_iff, runs_pure_iff, runs_clockNow_iff]
    at h
  obtain ⟨card, _, hcard, _, _, ⟨-, rfl⟩, _, _, -, _, _, ⟨-, rfl⟩, _, w₀, ⟨-, rfl⟩, edit, w₁, -, h⟩ := h
  obtain ⟨rfl, hfound⟩ := runs_accessibleCard hcard
  rcases h with ⟨-, rfl, -⟩ | ⟨-, now, _, ⟨rfl, rfl⟩, _, w₂, hupdate, _, w₃, happend, rfl, rfl⟩
  · exact .inl (Table.mem_of_find? hfound)
  · refine .inr fun id hid => ?_
    obtain ⟨hs₃, -, -, -⟩ := runs_appendEach happend
    simp only [CardRepository.update, runs_updateRow_iff, table_cards, put_cards] at hupdate
    obtain ⟨-, -, hreferences, rfl⟩ := hupdate
    have hsome : ((w₁.store.locations.find? id).isSome) = true := by
      have hnull : Store.nullOr edit.next.locationId
          (fun id => (w₁.store.locations.find? id).isSome) = true :=
        (Bool.and_eq_true_iff.mp hreferences).2
      rwa [show edit.next.locationId = some id from hid] at hnull
    obtain ⟨l, hl⟩ := Option.isSome_iff_exists.mp hsome
    rw [hs₃]
    exact ⟨l, Table.mem_of_find? hl, Table.find?_key hl⟩

/-- Every operation of the card service leaves the locations, and cards at them. -/
theorem CardsAt.card (h : CardsAt (HasLocation w.store) w.store) (op : CardOperation) :
    CardsAt (HasLocation w.store) (op.perform w).2.store := by
  by_cases hplaces : PlacesCard op
  · cases op <;> simp only [CardOperation.perform, respond]
    case create deps actor raw options =>
      rw [CardService.create]
      refine store_retry h fun w₁ r w' hstore hrun => ?_
      replace hrun := runs_bind_iff.mp hrun
      obtain ⟨input, _, hparse, hrun⟩ := hrun
      obtain ⟨-, rfl⟩ := runs_ofExcept_iff.mp hparse
      replace hrun := runs_bind_iff.mp hrun
      obtain ⟨origin, _, horigin, hrun⟩ := hrun
      obtain ⟨-, rfl⟩ := runs_ofExcept_iff.mp horigin
      obtain ⟨resolved, event, hcreated⟩ := runs_createBody hrun
      rw [← hstore] at h ⊢
      intro c hc
      rw [hcreated.cards] at hc
      rcases Table.mem_insert.mp hc with hold | ⟨-, rfl⟩
      · exact h c hold
      · exact runs_createBody_located hrun
    case update deps actor cardId raw =>
      rw [CardService.update]
      refine store_once h fun w₁ r w' hstore hrun => ?_
      obtain ⟨input, hparse, hrun⟩ := runs_parse_iff.mp hrun
      obtain ⟨card, tagChange, hfound, -, -, -, -, hcases⟩ := runs_updateBody hrun
      rw [← hstore] at h ⊢
      rcases hcases with ⟨-, -, hframe⟩ | ⟨events, updatedAt, rfl, -, -, hrewritten⟩
      · exact h.of_cards (hframe .cards (by decide))
      · refine h.rewritten hrewritten ?_
        have hsame : w'.store.locations = w₁.store.locations :=
          hrewritten.frame .locations (by decide)
        rcases runs_updateBody_located hrun with hold | hlocated
        · exact h _ hold
        · rwa [hasLocation_congr hsame] at hlocated
    all_goals exact absurd hplaces id
  · have hstep : CardsAt (HasLocation w.store) (step w (.card op)).store := by
      refine h.operation fun cardOp heq => ?_
      cases heq
      exact hplaces
    exact hstep

end cards

section runs

/-- The two halves of the invariant. -/
structure Located [Platform] (s : Store) : Prop where
  tree : LocationTree s.locations.rows
  cards : CardsAt (HasLocation s) s

theorem Located.of_tables [Platform] (h : Located s) (hlocations : s'.locations = s.locations)
    (hcards : s'.cards = s.cards) : Located s' := by
  refine ⟨?_, ?_⟩
  · rw [hlocations]
    exact h.tree
  · rw [hasLocation_congr hlocations]
    exact h.cards.of_cards hcards

variable [Platform]

theorem located_createLocation {boardId : Uuid} {actor : Actor} {raw : CreateLocationInput}
    {location : Location} (hw : Located w.store)
    (h : Runs (LocationAdminService.create boardId actor raw) w location w') :
    Located w'.store := by
  obtain ⟨htree, hrows⟩ := tree_createLocation hw.tree h
  have hcards : w'.store.cards = w.store.cards :=
    sameTable_of_confined h (confined_createLocation _ _ _) (show TableName.cards ∉ _ by decide)
  refine ⟨htree, (hw.cards.of_cards hcards).mono ?_⟩
  rintro id ⟨l, hl, hid⟩
  exact ⟨l, by rw [hrows]; exact List.mem_append_left _ hl, hid⟩

theorem located_updateLocation {boardId : Uuid} {actor : Actor} {locationId : Uuid}
    {raw : UpdateLocationInput} {location : Location} (hw : Located w.store)
    (h : Runs (LocationAdminService.update boardId actor locationId raw) w location w') :
    Located w'.store := by
  obtain ⟨htree, hids⟩ := tree_updateLocation hw.tree h
  have hcards : w'.store.cards = w.store.cards :=
    sameTable_of_confined h (confined_updateLocation _ _ _ _) (show TableName.cards ∉ _ by decide)
  exact ⟨htree, (hw.cards.of_cards hcards).mono hids⟩

/-- The cards of the deleted subtree lose their location with it. -/
theorem located_deleteLocation {boardId : Uuid} {actor : Actor} {locationId : Uuid} {u : Unit}
    (hw : Located w.store) (h : Runs (LocationAdminService.delete boardId actor locationId) w u w') :
    Located w'.store := by
  simp only [LocationAdminService.delete, runs_bind_iff] at h
  obtain ⟨_, w₀, hgranted, h⟩ := h
  obtain rfl := hgranted.of_readsOnly (readsOnly_ensureGranted _ _ _)
  have hrows := runs_deleteLocation_rows h
  obtain ⟨-, hunlocated⟩ := runs_deleteLocation h
  refine ⟨?_, ?_⟩
  · rw [hrows]
    exact hw.tree.cut fun l hl p hp => collectSubtree_closed hl hp
  · intro c hc
    rw [hunlocated.cards] at hc
    obtain ⟨card, hcard, rfl⟩ := List.mem_map.mp hc
    split_ifs with hgone
    · exact nofun
    · intro id hid
      obtain ⟨l, hl, rfl⟩ := hw.cards card hcard id hid
      rw [Option.mem_def] at hid
      refine ⟨l, ?_, rfl⟩
      rw [hrows]
      refine List.mem_filter.mpr ⟨hl, ?_⟩
      simpa [hid] using hgone

theorem located_administration (op : AdministrationOperation) (hw : Located w.store) :
    Located (transact op.body w).2.store := by
  rcases ht : transact op.body w with ⟨e | u, w'⟩
  · have hstore : w'.store = w.store := transact_error ht
    rwa [hstore]
  have h := transact_ok_iff.mp ht
  have hframe : ∀ {α : Type} {names : List TableName} {p : Tx α} {a : α}, Confined names p →
      TableName.locations ∉ names → TableName.cards ∉ names → Runs p w a w' → Located w'.store := by
    intro α names p a hp hlocations hcards hrun
    exact hw.of_tables (sameTable_of_confined hrun hp hlocations)
      (sameTable_of_confined hrun hp hcards)
  cases op with
  | getPolicy boardId =>
    obtain ⟨a, h⟩ := runs_discard_iff.mp h
    exact hframe (confined_readsOnly (readsOnly_getActivePolicy _)) List.not_mem_nil
      List.not_mem_nil h
  | applyPolicy boardId actor document =>
    obtain ⟨a, h⟩ := runs_discard_iff.mp h
    exact hframe (confined_applyPolicy _ _ _) (by decide) (by decide) h
  | createBoard actor raw =>
    obtain ⟨a, h⟩ := runs_discard_iff.mp h
    exact hframe (confined_createBoard _ _) (by decide) (by decide) h
  | updateBoard actor boardId raw =>
    obtain ⟨a, h⟩ := runs_discard_iff.mp h
    exact hframe (confined_updateBoard _ _ _) (by decide) (by decide) h
  | removeBoard actor boardId => exact hframe (confined_removeBoard _ _) (by decide) (by decide) h
  | setPreference actor boardId =>
    exact hframe (confined_setPreference _ _) (by decide) (by decide) h
  | saveGroup actor groupId raw =>
    obtain ⟨a, h⟩ := runs_discard_iff.mp h
    exact hframe (confined_saveGroup _ _ _) (by decide) (by decide) h
  | removeGroup actor groupId => exact hframe (confined_removeGroup _ _) (by decide) (by decide) h
  | createLane boardId actor raw =>
    obtain ⟨a, h⟩ := runs_discard_iff.mp h
    exact hframe (confined_createLane _ _ _) (by decide) (by decide) h
  | updateLane boardId actor laneId raw =>
    obtain ⟨a, h⟩ := runs_discard_iff.mp h
    exact hframe (confined_updateLane _ _ _ _) (by decide) (by decide) h
  | removeLane boardId actor laneId =>
    exact hframe (confined_removeLane _ _ _) (by decide) (by decide) h
  | reorderLanes boardId actor raw =>
    obtain ⟨a, h⟩ := runs_discard_iff.mp h
    exact hframe (confined_reorderLanes _ _ _) (by decide) (by decide) h
  | createLocation boardId actor raw =>
    obtain ⟨a, h⟩ := runs_discard_iff.mp h
    exact located_createLocation hw h
  | updateLocation boardId actor locationId raw =>
    obtain ⟨a, h⟩ := runs_discard_iff.mp h
    exact located_updateLocation hw h
  | deleteLocation boardId actor locationId => exact located_deleteLocation hw h
  | createUser deps actor raw temp =>
    obtain ⟨a, h⟩ := runs_discard_iff.mp h
    exact hframe (confined_createUser _ _ _ _) (by decide) (by decide) h
  | updateUser deps actor userId raw temp =>
    obtain ⟨a, h⟩ := runs_discard_iff.mp h
    exact hframe (confined_updateUser _ _ _ _ _) (by decide) (by decide) h

theorem located_step (op : Operation) (hw : Located w.store) : Located (step w op).store := by
  have hlocations : TableName.locations ∉ cardTables := by decide
  cases op with
  | card op =>
    have hsame : (op.perform w).2.store.locations = w.store.locations :=
      card_sameTable op hlocations
    refine ⟨?_, ?_⟩
    · change LocationTree (op.perform w).2.store.locations.rows
      rw [hsame]
      exact hw.tree
    · change CardsAt (HasLocation (op.perform w).2.store) (op.perform w).2.store
      rw [hasLocation_congr hsame]
      exact hw.cards.card op
  | collaboration op =>
    have hsame : (step w (.collaboration op)).store.locations = w.store.locations :=
      collaboration_sameTable op hlocations
    refine ⟨?_, ?_⟩
    · rw [hsame]
      exact hw.tree
    · rw [hasLocation_congr hsame]
      exact hw.cards.operation fun cardOp heq => by cases heq
  | administration op => exact located_administration op hw

theorem located_run (inputs : ℕ → Tick) (ops : List Operation) :
    Located (run (freshlySeeded inputs) ops).store := by
  refine run_induction (I := fun w => Located w.store) (P := fun _ _ => True)
    (fun _ op hw _ => located_step op hw) ops _ ?_ (runsUnder_true ops)
  have hlocations : (freshlySeeded inputs).store.locations = .empty :=
    freshlySeeded_sameTable inputs (show TableName.locations ∉ seedTables by decide)
  refine ⟨?_, by simp [CardsAt]⟩
  rw [hlocations]
  exact ⟨nofun, nofun, nofun⟩

/-- In every reachable state the locations are a tree of unlike siblings that holds every
card's location, and the walk below a location lists what is below it once. -/
theorem locations_sound (inputs : ℕ → Tick) (ops : List Operation) :
    LocationIntegrity (run (freshlySeeded inputs) ops).store ∧
      ∀ root ∈ (run (freshlySeeded inputs) ops).store.locations.rows,
        ∃ ids, (∀ fuel, (run (freshlySeeded inputs) ops).store.locations.rows.length ≤ fuel →
            BoardQueryService.subtreeIds fuel root.id (BoardQueryService.childrenByParentOf
              (LocationRepository.listed (run (freshlySeeded inputs) ops).store)) = some ids) ∧
          ids.Nodup ∧ ∀ id, id ∈ ids ↔
            ReflTransGen (ParentOf (run (freshlySeeded inputs) ops).store) root.id id := by
  have hlocated := located_run inputs ops
  have htree := hlocated.tree
  refine ⟨?_, fun root hroot => htree.subtreeIds hroot⟩
  exact ⟨htree.roots, htree.parents, htree.acyclic, htree.siblings, hlocated.cards⟩

end runs

example : BoardQueryService.subtreeIds 4 111 (BoardQueryService.childrenByParentOf
    (LocationRepository.listed (@run samplePlatform (freshlySeeded sampleTicks)
      [.administration (.createLocation 101 sampleActor ⟨none, .building, "North"⟩),
        .administration (.createLocation 101 sampleActor ⟨some 111, .floor, "2"⟩),
        .administration (.createLocation 101 sampleActor ⟨some 111, .floor, "1"⟩),
        .administration (.createLocation 101 sampleActor ⟨some 112, .room, "Lab"⟩)]).store)) =
    some [111, 112, 114, 113] := by decide +kernel

end AiKanban.Invariants
