import AiKanban.Application.Operations
import AiKanban.Db.Seed
import AiKanban.Effects.Access
import AiKanban.Effects.Roles
import AiKanban.Services.BoardCatalog

/-!
# What the board catalog shows

The catalog depends on what its reader can see, and its default board is the first usable
choice in the documented order.
-/
namespace AiKanban.Invariants

open Application Db Domain Effects Policy Relational Services Transactions Program

variable {actor : Actor} {w w₁ w₂ : World Store Tick} {policy : PolicyDocument}

/-- The board is stored and the access check lets the actor through. -/
def CanAccess (actor : Actor) (w : World Store Tick) (board : Board) : Prop :=
  board ∈ w.store.boards.rows ∧ Runs (canAccessBoard actor board) w true w

/-- The default of a subject, when it names a board the actor can access. -/
def UsableDefault (actor : Actor) (w : World Store Tick) (subject : DefaultSubject) (id : Uuid) :
    Prop :=
  ⟨subject, id⟩ ∈ w.store.boardDefaults.rows ∧ ∃ board, CanAccess actor w board ∧ board.id = id

/-- Two stores agree on all that the actor's view is made of. -/
structure SameView (actor : Actor) (w₁ w₂ : World Store Tick) : Prop where
  groups : ∀ id, w₁.store.groups.find? id = w₂.store.groups.find? id
  global : (transact globalPolicy w₁).1 = (transact globalPolicy w₂).1
  boards : ∀ board, CanAccess actor w₁ board ↔ CanAccess actor w₂ board
  defaults : ∀ board, CanAccess actor w₁ board → ∀ subject,
    (⟨subject, board.id⟩ : BoardDefault) ∈ w₁.store.boardDefaults.rows ↔
      (⟨subject, board.id⟩ : BoardDefault) ∈ w₂.store.boardDefaults.rows

theorem SameView.usableDefault (h : SameView actor w₁ w₂) (subject : DefaultSubject) (id : Uuid) :
    UsableDefault actor w₁ subject id ↔ UsableDefault actor w₂ subject id := by
  constructor
  · rintro ⟨hrow, board, haccess, rfl⟩
    exact ⟨(h.defaults board haccess subject).mp hrow, board, (h.boards board).mp haccess, rfl⟩
  · rintro ⟨hrow, board, haccess, rfl⟩
    have haccess₁ := (h.boards board).mpr haccess
    exact ⟨(h.defaults board haccess₁ subject).mpr hrow, board, haccess₁, rfl⟩

section lookups

theorem assigned_eq_some_iff {rows : List BoardDefault} {subject : DefaultSubject} {id : Uuid}
    (hunique : ∀ a ∈ rows, ∀ b ∈ rows, a.subject = b.subject → a = b) :
    BoardService.assigned rows subject = some id ↔ ⟨subject, id⟩ ∈ rows := by
  unfold BoardService.assigned
  constructor
  · intro h
    obtain ⟨row, hrow, rfl⟩ := Option.map_eq_some_iff.mp h
    have hsubject : row.subject = subject := by simpa using List.find?_some hrow
    rw [← hsubject]
    exact List.mem_of_find?_eq_some hrow
  · intro h
    obtain ⟨row, hrow⟩ : ∃ row, rows.find? (fun row => row.subject == subject) = some row :=
      Option.isSome_iff_exists.mp (List.find?_isSome.mpr ⟨_, h, beq_self_eq_true _⟩)
    have hsubject : row.subject = subject := by simpa using List.find?_some hrow
    rw [hrow, hunique row (List.mem_of_find?_eq_some hrow) _ h hsubject]
    rfl

theorem onlyOne_eq_some_iff {ids : List Uuid} {id : Uuid} :
    BoardService.onlyOne ids = some id ↔ id ∈ ids ∧ ∀ x ∈ ids, x = id := by
  cases ids with
  | nil => simp [BoardService.onlyOne]
  | cons head rest =>
    unfold BoardService.onlyOne
    rw [List.eraseDups_cons]
    cases hothers : rest.filter fun x => !x == head with
    | nil =>
      have hsame : ∀ x ∈ rest, x = head := by simpa using List.filter_eq_nil_iff.mp hothers
      simp only [List.eraseDups_nil, Option.some.injEq, List.mem_cons]
      constructor
      · rintro rfl
        exact ⟨.inl rfl, fun x hx => hx.elim id (hsame x)⟩
      · rintro ⟨-, hall⟩
        exact hall head (.inl rfl)
    | cons other others =>
      have hother : other ∈ rest ∧ other ≠ head := by
        have hmem : other ∈ rest.filter fun x => !x == head := by simp [hothers]
        simpa using hmem
      rw [List.eraseDups_cons]
      refine ⟨by simp, fun ⟨_, hall⟩ => ?_⟩
      exact absurd ((hall other (by simp [hother.1])).trans (hall head (by simp)).symm) hother.2

end lookups

section runs

/-- The boards the actor can access, oldest first. -/
def visibleBoards (policy : PolicyDocument) (s : Store) (actor : Actor) : List Board :=
  (newestFirst (·.createdAt) (·.id)
    (s.boards.rows.filter (·.archivedAt.isNone))).reverse.filter (accessibleUnder policy s actor)

/-- Personal defaults are listed for their own user only. -/
def listedFor (actor : Actor) (row : BoardDefault) : Bool :=
  match row.subject with
  | .user id => actor.kind == .user && id == actor.id
  | _ => true

/-- The defaults listed for the actor that name a board it can access. -/
def visibleDefaults (policy : PolicyDocument) (s : Store) (actor : Actor) : List BoardDefault :=
  (s.boardDefaults.rows.filter (listedFor actor)).filter fun row =>
    (visibleBoards policy s actor).any fun board => board.id == row.boardId

/-- The default of a group with the user as a member. -/
def memberDefault (s : Store) (userId : Uuid) (row : BoardDefault) : Bool :=
  match row.subject with
  | .group id => (s.groups.find? id).any (·.userIds.contains userId)
  | _ => false

/-- The boards that the listed defaults of the user's groups name. -/
def memberBoards (s : Store) (userId : Uuid) (rows : List BoardDefault) : List Uuid :=
  (rows.filter (memberDefault s userId)).map (·.boardId)

@[simp] theorem id_discovered (canManage : Bool) (board : Board) :
    (BoardService.discovered canManage board).id = board.id := by
  cases canManage <;> rfl

theorem runs_visibleItems (h : Runs globalPolicy w policy w) (actor : Actor) (canManage : Bool)
    (boards : List Board) : Runs (BoardService.visibleItems actor canManage boards) w
      ((boards.filter (accessibleUnder policy w.store actor)).map
        (BoardService.discovered canManage)) w := by
  induction boards with
  | nil => exact runs_pure_iff.mpr ⟨rfl, rfl⟩
  | cons board boards ih =>
    refine runs_bind_iff.mpr ⟨_, w, runs_canAccessBoard h actor board, ?_⟩
    refine runs_bind_iff.mpr ⟨_, w, ih, runs_pure_iff.mpr ⟨?_, rfl⟩⟩
    cases haccess : accessibleUnder policy w.store actor board <;> simp [haccess]

theorem runs_groupBoards (w : World Store Tick) (userId : Uuid) (rows : List BoardDefault) :
    Runs (BoardService.groupBoards userId rows) w (memberBoards w.store userId rows) w := by
  induction rows with
  | nil => exact runs_pure_iff.mpr ⟨rfl, rfl⟩
  | cons row rows ih =>
    obtain ⟨subject, boardId⟩ := row
    cases subject with
    | group id =>
      refine runs_bind_iff.mpr ⟨w.store.groups.find? id, w, runs_selectKey_iff.mpr ⟨rfl, rfl⟩, ?_⟩
      refine runs_bind_iff.mpr ⟨_, w, ih, runs_pure_iff.mpr ⟨?_, rfl⟩⟩
      unfold memberBoards
      by_cases hmember : (w.store.groups.find? id).any (·.userIds.contains userId)
      · have hrow : memberDefault w.store userId ⟨.group id, boardId⟩ = true := hmember
        rw [List.filter_cons_of_pos hrow, List.map_cons, if_pos hmember]
      · have hrow : ¬ memberDefault w.store userId ⟨.group id, boardId⟩ = true := hmember
        rw [List.filter_cons_of_neg hrow, if_neg hmember]
    | application => exact ih
    | role key => exact ih
    | user id => exact ih

/-- The catalog is a function of the store once the global policy can be read. -/
theorem runs_list (h : Runs globalPolicy w policy w) (actor : Actor) :
    Runs (BoardService.list actor) w
      (BoardService.catalog actor (hasPermission actor .managePolicy policy)
        ((visibleBoards policy w.store actor).map
          (BoardService.discovered (hasPermission actor .managePolicy policy)))
        (visibleDefaults policy w.store actor)
        (if actor.kind = .user
          then memberBoards w.store actor.id (visibleDefaults policy w.store actor) else [])) w := by
  refine runs_bind_iff.mpr ⟨policy, w, h, ?_⟩
  refine runs_bind_iff.mpr ⟨_, w, runs_read_iff.mpr ⟨rfl, rfl⟩, ?_⟩
  refine runs_bind_iff.mpr ⟨_, w, runs_visibleItems h actor _ _, ?_⟩
  refine runs_bind_iff.mpr ⟨w.store.boardDefaults.rows.filter (listedFor actor), w, ?_, ?_⟩
  · refine runs_selectWhere_iff.mpr ⟨?_, rfl⟩
    apply List.filter_congr
    rintro ⟨subject, boardId⟩ -
    by_cases hkind : actor.kind = .user <;> cases subject <;> simp [listedFor, hkind]
  have hrows : ((w.store.boardDefaults.rows.filter (listedFor actor)).filter fun row =>
      ((visibleBoards policy w.store actor).map
        (BoardService.discovered (hasPermission actor .managePolicy policy))).any
          fun board => board.id == row.boardId) = visibleDefaults policy w.store actor := by
    simp only [visibleDefaults, List.any_map, Function.comp_def, id_discovered]
  unfold visibleBoards at hrows
  simp only [hrows]
  split_ifs
  · exact runs_bind_iff.mpr ⟨_, w, runs_groupBoards w _ _, runs_pure_iff.mpr ⟨rfl, rfl⟩⟩
  · exact runs_bind_iff.mpr ⟨[], w, runs_pure_iff.mpr ⟨rfl, rfl⟩, runs_pure_iff.mpr ⟨rfl, rfl⟩⟩

end runs

section views

theorem mem_visibleBoards (h : Runs globalPolicy w policy w) {board : Board} :
    board ∈ visibleBoards policy w.store actor ↔ CanAccess actor w board := by
  have haccess : Runs (canAccessBoard actor board) w true w ↔
      true = accessibleUnder policy w.store actor board := runs_canAccessBoard_iff h
  unfold CanAccess
  rw [haccess, visibleBoards, List.mem_filter, List.mem_reverse, mem_newestFirst, List.mem_filter]
  constructor
  · rintro ⟨⟨hrow, -⟩, hvisible⟩
    exact ⟨hrow, hvisible.symm⟩
  · rintro ⟨hrow, hvisible⟩
    have hactive : board.archivedAt.isNone = true := by
      unfold accessibleUnder at hvisible
      exact (Bool.and_eq_true_iff.mp hvisible.symm).1
    exact ⟨⟨hrow, hactive⟩, hvisible.symm⟩

/-- The board precedes the other one: it is older, ties being broken by the id. -/
def Precedes (a b : Board) : Prop :=
  a.createdAt < b.createdAt ∨ a.createdAt = b.createdAt ∧ a.id ≤ b.id

theorem Precedes.antisymm {a b : Board} (hab : Precedes a b) (hba : Precedes b a) : a.id = b.id := by
  rcases hab with hlt | ⟨hsame, hle⟩
  · rcases hba with hlt' | ⟨hsame, -⟩
    · exact absurd hlt' (lt_asymm hlt)
    · exact absurd hsame.symm hlt.ne
  · rcases hba with hlt | ⟨-, hle'⟩
    · exact absurd hsame.symm hlt.ne
    · exact le_antisymm hle hle'

theorem pairwise_visibleBoards (policy : PolicyDocument) (s : Store) (actor : Actor) :
    (visibleBoards policy s actor).Pairwise Precedes :=
  (List.pairwise_reverse.mpr (pairwise_newestFirst _ _ _)).filter _

theorem nodup_visibleBoards (policy : PolicyDocument) (s : Store) (actor : Actor) :
    (visibleBoards policy s actor).Nodup := by
  exact ((List.nodup_reverse.mpr
    ((List.perm_insertionSort _ _).nodup_iff.mpr (s.boards.nodup.filter _))).filter _)

theorem visibleBoards_congr (h : SameView actor w₁ w₂) (h₁ : Runs globalPolicy w₁ policy w₁)
    (h₂ : Runs globalPolicy w₂ policy w₂) :
    visibleBoards policy w₁.store actor = visibleBoards policy w₂.store actor := by
  have hperm : (visibleBoards policy w₁.store actor).Perm (visibleBoards policy w₂.store actor) := by
    rw [List.perm_ext_iff_of_nodup (nodup_visibleBoards _ _ _) (nodup_visibleBoards _ _ _)]
    intro board
    rw [mem_visibleBoards h₁, mem_visibleBoards h₂]
    exact h.boards board
  refine hperm.eq_of_pairwise ?_ (pairwise_visibleBoards _ _ _) (pairwise_visibleBoards _ _ _)
  intro a b ha hb hab hba
  have ha' := (mem_visibleBoards h₁).mp ha
  have hb' := (h.boards b).mpr ((mem_visibleBoards h₂).mp hb)
  exact Table.eq_of_key ha'.1 hb'.1 (hab.antisymm hba)

theorem mem_visibleDefaults (h : Runs globalPolicy w policy w) {row : BoardDefault} :
    row ∈ visibleDefaults policy w.store actor ↔
      listedFor actor row = true ∧ UsableDefault actor w row.subject row.boardId := by
  simp only [visibleDefaults, List.mem_filter, List.any_eq_true, beq_iff_eq, mem_visibleBoards h]
  constructor
  · rintro ⟨⟨hrow, hlisted⟩, hboard⟩
    exact ⟨hlisted, hrow, hboard⟩
  · rintro ⟨hlisted, hrow, hboard⟩
    exact ⟨⟨hrow, hlisted⟩, hboard⟩

theorem nodup_visibleDefaults (policy : PolicyDocument) (s : Store) (actor : Actor) :
    (visibleDefaults policy s actor).Nodup :=
  (s.boardDefaults.nodup.filter _).filter _

theorem assigned_visible (h : Runs globalPolicy w policy w) {subject : DefaultSubject} {id : Uuid} :
    BoardService.assigned (visibleDefaults policy w.store actor) subject = some id ↔
      listedFor actor ⟨subject, id⟩ = true ∧ UsableDefault actor w subject id := by
  rw [assigned_eq_some_iff, mem_visibleDefaults h]
  intro a ha b hb hsubject
  exact Table.eq_of_key ((mem_visibleDefaults h).mp ha).2.1 ((mem_visibleDefaults h).mp hb).2.1 hsubject

theorem personal_visible (h : Runs globalPolicy w policy w) {id : Uuid} :
    BoardService.personalBoard (visibleDefaults policy w.store actor) = some id ↔
      actor.kind = .user ∧ UsableDefault actor w (.user actor.id) id := by
  have hlisted : ∀ row ∈ visibleDefaults policy w.store actor, listedFor actor row = true :=
    fun row hrow => ((mem_visibleDefaults h).mp hrow).1
  by_cases hkind : actor.kind = .user
  · have hfind : BoardService.personalBoard (visibleDefaults policy w.store actor) =
        BoardService.assigned (visibleDefaults policy w.store actor) (.user actor.id) := by
      refine congrArg _ (List.find?_congr fun row hrow => ?_)
      have hown := hlisted row hrow
      obtain ⟨subject, boardId⟩ := row
      cases subject <;> simp_all [listedFor]
    rw [hfind, assigned_visible h]
    simp [listedFor, hkind]
  · refine ⟨fun hsome => ?_, fun hboth => absurd hboth.1 hkind⟩
    obtain ⟨row, hrow, -⟩ := Option.map_eq_some_iff.mp hsome
    have hown := hlisted row (List.mem_of_find?_eq_some hrow)
    have huser := List.find?_some hrow
    obtain ⟨subject, boardId⟩ := row
    cases subject <;> simp_all [listedFor]

/-- A usable default of one of the user's groups. -/
def GroupDefault (actor : Actor) (w : World Store Tick) (id : Uuid) : Prop :=
  actor.kind = .user ∧ ∃ groupId group, w.store.groups.find? groupId = some group ∧
    actor.id ∈ group.userIds ∧ UsableDefault actor w (.group groupId) id

theorem mem_memberBoards (h : Runs globalPolicy w policy w) {id : Uuid} :
    id ∈ (if actor.kind = .user
      then memberBoards w.store actor.id (visibleDefaults policy w.store actor) else []) ↔
      GroupDefault actor w id := by
  by_cases hkind : actor.kind = .user
  · rw [if_pos hkind]
    simp only [memberBoards, List.mem_map, List.mem_filter, mem_visibleDefaults h]
    constructor
    · rintro ⟨⟨subject, boardId⟩, ⟨⟨-, husable⟩, hmember⟩, rfl⟩
      cases subject with
      | group groupId =>
        obtain ⟨group, hgroup, hin⟩ := (Option.any_eq_true _ _).mp hmember
        exact ⟨hkind, groupId, group, hgroup, by simpa using hin, husable⟩
      | _ => cases hmember
    · rintro ⟨-, groupId, group, hgroup, hin, husable⟩
      refine ⟨⟨.group groupId, id⟩, ⟨⟨rfl, husable⟩, ?_⟩, rfl⟩
      simp [memberDefault, hgroup, hin]
  · rw [if_neg hkind]
    exact ⟨by simp, fun hgroup => absurd hgroup.1 hkind⟩

end views

section choice

/-- What each source of a default board has for the actor. Agents and service tokens have
neither a personal default nor group defaults. -/
def Offers (actor : Actor) (w : World Store Tick) : DefaultSource → Uuid → Prop
  | .personal, id => actor.kind = .user ∧ UsableDefault actor w (.user actor.id) id
  | .group, id => GroupDefault actor w id ∧ ∀ other, GroupDefault actor w other → other = id
  | .role, id => UsableDefault actor w (.role actor.role) id
  | .application, id => UsableDefault actor w .application id
  | .fallback, id => ∃ board, CanAccess actor w board ∧ board.id = id ∧
      ∀ other, CanAccess actor w other → Precedes board other

/-- How early a source is asked. -/
def precedence : DefaultSource → ℕ
  | .personal => 0
  | .group => 1
  | .role => 2
  | .application => 3
  | .fallback => 4

/-- The catalog's default board is accessible, and no source asked earlier has one. -/
structure FirstOffer (actor : Actor) (w : World Store Tick) (result : BoardCatalog) : Prop where
  accessible : ∀ id ∈ result.defaultBoardId, ∃ board, CanAccess actor w board ∧ board.id = id
  offered : ∀ id ∈ result.defaultBoardId, Offers actor w result.defaultSource id
  first : ∀ source id, Offers actor w source id →
    precedence result.defaultSource ≤ precedence source ∧ result.defaultBoardId.isSome

theorem Offers.accessible {source : DefaultSource} {id : Uuid} (h : Offers actor w source id) :
    ∃ board, CanAccess actor w board ∧ board.id = id := by
  cases source with
  | personal => exact h.2.2
  | group =>
    obtain ⟨⟨-, _, _, -, -, husable⟩, -⟩ := h
    exact husable.2
  | role => exact h.2
  | application => exact h.2
  | fallback =>
    obtain ⟨board, haccess, hid, -⟩ := h
    exact ⟨board, haccess, hid⟩

theorem offers_fallback_iff (h : Runs globalPolicy w policy w) {id : Uuid} :
    (visibleBoards policy w.store actor).head?.map (·.id) = some id ↔
      Offers actor w .fallback id := by
  have hmem : ∀ board, board ∈ visibleBoards policy w.store actor ↔ CanAccess actor w board :=
    fun _ => mem_visibleBoards h
  have hsorted := pairwise_visibleBoards policy w.store actor
  cases hboards : visibleBoards policy w.store actor with
  | nil =>
    refine ⟨by simp, fun ⟨board, haccess, _⟩ => ?_⟩
    have hin := (hmem board).mpr haccess
    rw [hboards] at hin
    cases hin
  | cons first rest =>
    rw [hboards] at hsorted hmem
    have hleast : ∀ other, CanAccess actor w other → Precedes first other := by
      intro other haccess
      rcases List.mem_cons.mp ((hmem other).mpr haccess) with rfl | hin
      · exact .inr ⟨rfl, le_rfl⟩
      · exact (List.pairwise_cons.mp hsorted).1 other hin
    have hfirst := (hmem first).mp (List.mem_cons_self ..)
    constructor
    · rintro ⟨⟩
      exact ⟨first, hfirst, rfl, hleast⟩
    · rintro ⟨board, haccess, rfl, hboard⟩
      exact congrArg some ((hleast board haccess).antisymm (hboard first hfirst))

section candidates

variable (actor : Actor) (canManage : Bool) (items : List Board) (rows : List BoardDefault)
  (groups : List Uuid)

theorem defaultBoardId_catalog : (BoardService.catalog actor canManage items rows groups).defaultBoardId =
    (BoardService.personalBoard rows).or ((BoardService.onlyOne groups).or
      ((BoardService.assigned rows (.role actor.role)).or
        ((BoardService.assigned rows .application).or (items.head?.map (·.id))))) := by
  unfold BoardService.catalog BoardService.candidates
  cases BoardService.personalBoard rows <;> cases BoardService.onlyOne groups <;>
    cases BoardService.assigned rows (.role actor.role) <;>
    cases BoardService.assigned rows .application <;> rfl

theorem defaultSource_catalog : (BoardService.catalog actor canManage items rows groups).defaultSource =
    if (BoardService.personalBoard rows).isSome then .personal else
    if (BoardService.onlyOne groups).isSome then .group else
    if (BoardService.assigned rows (.role actor.role)).isSome then .role else
    if (BoardService.assigned rows .application).isSome then .application else .fallback := by
  unfold BoardService.catalog BoardService.candidates
  cases BoardService.personalBoard rows <;> cases BoardService.onlyOne groups <;>
    cases BoardService.assigned rows (.role actor.role) <;>
    cases BoardService.assigned rows .application <;> rfl

end candidates

/-- The first candidate with a board, and the fallback when there is none. -/
theorem firstOffer_of_candidates {result : BoardCatalog} {personal group role application : Option Uuid}
    {fallback : Option Uuid} (hpersonal : ∀ id, personal = some id ↔ Offers actor w .personal id)
    (hgroup : ∀ id, group = some id ↔ Offers actor w .group id)
    (hrole : ∀ id, role = some id ↔ Offers actor w .role id)
    (happlication : ∀ id, application = some id ↔ Offers actor w .application id)
    (hfallback : ∀ id, fallback = some id ↔ Offers actor w .fallback id)
    (hboard : result.defaultBoardId =
      personal.or (group.or (role.or (application.or fallback))))
    (hsource : result.defaultSource = if personal.isSome then .personal else
      if group.isSome then .group else if role.isSome then .role else
      if application.isSome then .application else .fallback) : FirstOffer actor w result := by
  have hoffered : ∀ id ∈ result.defaultBoardId, Offers actor w result.defaultSource id := by
    intro id hid
    rw [hboard] at hid
    rw [hsource]
    cases personal with
    | some _ => exact (hpersonal id).mp hid
    | none =>
      cases group with
      | some _ => exact (hgroup id).mp hid
      | none =>
        cases role with
        | some _ => exact (hrole id).mp hid
        | none =>
          cases application with
          | some _ => exact (happlication id).mp hid
          | none => exact (hfallback id).mp hid
  refine ⟨fun id hid => (hoffered id hid).accessible, hoffered, fun source id hoffer => ?_⟩
  rw [hboard, hsource]
  cases source with
  | personal =>
    rw [(hpersonal id).mpr hoffer]
    simp [precedence]
  | group =>
    rw [(hgroup id).mpr hoffer]
    cases personal <;> simp [precedence]
  | role =>
    rw [(hrole id).mpr hoffer]
    cases personal <;> cases group <;> simp [precedence]
  | application =>
    rw [(happlication id).mpr hoffer]
    cases personal <;> cases group <;> cases role <;> simp [precedence]
  | fallback =>
    rw [(hfallback id).mpr hoffer]
    cases personal <;> cases group <;> cases role <;> cases application <;> simp [precedence]

theorem group_visible (h : Runs globalPolicy w policy w) {id : Uuid} :
    BoardService.onlyOne (if actor.kind = .user
      then memberBoards w.store actor.id (visibleDefaults policy w.store actor) else []) = some id ↔
      Offers actor w .group id := by
  rw [onlyOne_eq_some_iff, mem_memberBoards h]
  constructor
  · rintro ⟨hgroup, hall⟩
    exact ⟨hgroup, fun other hother => hall other ((mem_memberBoards h).mpr hother)⟩
  · rintro ⟨hgroup, hall⟩
    exact ⟨hgroup, fun other hother => hall other ((mem_memberBoards h).mp hother)⟩

theorem role_visible (h : Runs globalPolicy w policy w) {id : Uuid} :
    BoardService.assigned (visibleDefaults policy w.store actor) (.role actor.role) = some id ↔
      Offers actor w .role id :=
  (assigned_visible h).trans ⟨And.right, fun husable => ⟨rfl, husable⟩⟩

theorem application_visible (h : Runs globalPolicy w policy w) {id : Uuid} :
    BoardService.assigned (visibleDefaults policy w.store actor) .application = some id ↔
      Offers actor w .application id :=
  (assigned_visible h).trans ⟨And.right, fun husable => ⟨rfl, husable⟩⟩

theorem firstOffer_of_runs {w' : World Store Tick} {result : BoardCatalog}
    (h : Runs (BoardService.list actor) w result w') : FirstOffer actor w result := by
  obtain ⟨policy, hpolicy⟩ : ∃ policy, Runs globalPolicy w policy w := by
    obtain ⟨policy, w₁, hpolicy, -⟩ := runs_bind_iff.mp h
    exact ⟨policy, by rwa [hpolicy.of_readsOnly readsOnly_globalPolicy] at hpolicy⟩
  have hlist := runs_list hpolicy actor
  unfold Runs at h hlist
  rw [hlist] at h
  obtain ⟨rfl, rfl⟩ := h
  have hfallback : ∀ id, ((visibleBoards policy w.store actor).map (BoardService.discovered
      (hasPermission actor .managePolicy policy))).head?.map (·.id) = some id ↔
      Offers actor w .fallback id := by
    intro id
    rw [← offers_fallback_iff hpolicy, List.head?_map, Option.map_map]
    simp only [Function.comp_def, id_discovered]
  apply firstOffer_of_candidates (fun _ => personal_visible hpolicy) (fun _ => group_visible hpolicy)
    (fun _ => role_visible hpolicy) (fun _ => application_visible hpolicy) hfallback
  · exact defaultBoardId_catalog ..
  · exact defaultSource_catalog ..

end choice

section twoRuns

theorem SameView.groupDefault (h : SameView actor w₁ w₂) (id : Uuid) :
    GroupDefault actor w₁ id ↔ GroupDefault actor w₂ id := by
  unfold GroupDefault
  simp only [h.groups, h.usableDefault]

theorem SameView.offers (h : SameView actor w₁ w₂) (source : DefaultSource) (id : Uuid) :
    Offers actor w₁ source id ↔ Offers actor w₂ source id := by
  cases source with
  | personal => exact and_congr_right fun _ => h.usableDefault _ id
  | group => simp only [Offers, h.groupDefault]
  | role => exact h.usableDefault _ id
  | application => exact h.usableDefault _ id
  | fallback => simp only [Offers, h.boards]

/-- Of all the defaults an actor without the grant is shown the application's only. -/
theorem shownAssignments_congr (h : SameView actor w₁ w₂) (h₁ : Runs globalPolicy w₁ policy w₁)
    (h₂ : Runs globalPolicy w₂ policy w₂) :
    (visibleDefaults policy w₁.store actor).filter (BoardService.shownAssignment false) =
      (visibleDefaults policy w₂.store actor).filter (BoardService.shownAssignment false) := by
  have hshown : ∀ row, BoardService.shownAssignment false row = true →
      row.subject = .application := by
    rintro ⟨subject, boardId⟩ hrow
    cases subject <;> first | rfl | cases hrow
  have hperm : ((visibleDefaults policy w₁.store actor).filter
      (BoardService.shownAssignment false)).Perm
      ((visibleDefaults policy w₂.store actor).filter (BoardService.shownAssignment false)) := by
    rw [List.perm_ext_iff_of_nodup ((nodup_visibleDefaults ..).filter _)
      ((nodup_visibleDefaults ..).filter _)]
    intro row
    simp only [List.mem_filter, mem_visibleDefaults h₁, mem_visibleDefaults h₂, h.usableDefault]
  -- At most one row is the application's, so the order of the rows is no matter.
  refine hperm.eq_of_pairwise (fun a b ha hb _ _ => ?_)
    (List.pairwise_of_forall fun _ _ => trivial) (List.pairwise_of_forall fun _ _ => trivial)
  obtain ⟨ha, ha'⟩ := List.mem_filter.mp ha
  obtain ⟨hb, hb'⟩ := List.mem_filter.mp (hperm.mem_iff.mpr hb)
  exact Table.eq_of_key ((mem_visibleDefaults h₁).mp ha).2.1 ((mem_visibleDefaults h₁).mp hb).2.1
    ((hshown a ha').trans (hshown b hb').symm)

/-- With the same policy, equal views give an actor without the grant equal catalogs. -/
theorem list_congr (h : SameView actor w₁ w₂) (h₁ : Runs globalPolicy w₁ policy w₁)
    (h₂ : Runs globalPolicy w₂ policy w₂)
    (hgrant : hasPermission actor .managePolicy policy = false) :
    (transact (BoardService.list actor) w₁).1 = (transact (BoardService.list actor) w₂).1 := by
  have hpersonal := Option.ext fun id =>
    (personal_visible h₁).trans ((h.offers .personal id).trans (personal_visible h₂).symm)
  have hgroup := Option.ext fun id =>
    (group_visible h₁).trans ((h.offers .group id).trans (group_visible h₂).symm)
  have hrole := Option.ext fun id =>
    (role_visible h₁).trans ((h.offers .role id).trans (role_visible h₂).symm)
  have happlication := Option.ext fun id =>
    (application_visible h₁).trans ((h.offers .application id).trans (application_visible h₂).symm)
  unfold transact
  rw [runs_list h₁ actor, runs_list h₂ actor, hgrant]
  unfold BoardService.catalog BoardService.candidates
  simp only [hpersonal, hgroup, hrole, happlication, visibleBoards_congr h h₁ h₂,
    shownAssignments_congr h h₁ h₂]

theorem runs_globalPolicy_of_ok (h : (transact globalPolicy w).1 = .ok policy) :
    Runs globalPolicy w policy w := by
  have hrun : Runs globalPolicy w policy (transact globalPolicy w).2 :=
    transact_ok_iff.mp (Prod.ext h rfl)
  rwa [hrun.of_readsOnly readsOnly_globalPolicy] at hrun

end twoRuns

/-- An actor without the grant gets one catalog from any two stores that agree on its view, and
the default board is the first usable choice. -/
theorem catalog_view :
    (∀ (actor : Actor) (w₁ w₂ : World Store Tick), SameView actor w₁ w₂ →
      (∀ policy, (transact globalPolicy w₁).1 = .ok policy →
        hasPermission actor .managePolicy policy = false) →
      (transact (BoardService.list actor) w₁).1 = (transact (BoardService.list actor) w₂).1) ∧
    ∀ (actor : Actor) (w w' : World Store Tick) (result : BoardCatalog),
      Runs (BoardService.list actor) w result w' → FirstOffer actor w result := by
  refine ⟨fun actor w₁ w₂ h hgrant => ?_, fun actor w w' result => firstOffer_of_runs⟩
  cases hglobal : (transact globalPolicy w₁).1 with
  | error e => exact (transact_bind_error hglobal _).trans (transact_bind_error (h.global ▸ hglobal) _).symm
  | ok policy =>
    exact list_congr h (runs_globalPolicy_of_ok hglobal)
      (runs_globalPolicy_of_ok (h.global ▸ hglobal)) (hgrant policy hglobal)

/-- A user who may not manage policy. -/
def plainReader : Actor := { kind := .user, id := 300, role := "user" }

/-- The seeded database with a board that the reader cannot see as everyone's default. -/
def hiddenAnnex : World Store Tick :=
  @run samplePlatform (freshlySeeded sampleTicks)
    [.administration (.createBoard sampleActor
      ⟨"Annex", .restricted, [], [], [], some ⟨true, [], []⟩⟩)]

theorem sameView_hiddenAnnex : SameView plainReader (freshlySeeded sampleTicks) hiddenAnnex := by
  have h₁ : Runs globalPolicy (freshlySeeded sampleTicks) defaultPolicyDocument _ :=
    runs_globalPolicy_of_ok (by decide +kernel)
  have h₂ : Runs globalPolicy hiddenAnnex defaultPolicyDocument _ :=
    runs_globalPolicy_of_ok (by decide +kernel)
  have hrows₁ : (freshlySeeded sampleTicks).store.boardDefaults.rows = [] := by decide +kernel
  have hrows₂ : hiddenAnnex.store.boardDefaults.rows = [⟨.application, 111⟩] := by decide +kernel
  have hids : ∀ board ∈ visibleBoards defaultPolicyDocument (freshlySeeded sampleTicks).store
      plainReader, board.id ≠ 111 := by decide +kernel
  have hboards : visibleBoards defaultPolicyDocument (freshlySeeded sampleTicks).store plainReader =
      visibleBoards defaultPolicyDocument hiddenAnnex.store plainReader := by decide +kernel
  refine ⟨fun _ => rfl, by decide +kernel, fun board => ?_, fun board haccess subject => ?_⟩
  · rw [← mem_visibleBoards h₁, ← mem_visibleBoards h₂, hboards]
  · have hid := hids board ((mem_visibleBoards h₁).mpr haccess)
    simp [hrows₁, hrows₂, hid]

theorem catalog_view_hiddenAnnex :
    (transact (BoardService.list plainReader) (freshlySeeded sampleTicks)).1 =
      (transact (BoardService.list plainReader) hiddenAnnex).1 :=
  catalog_view.1 plainReader _ _ sameView_hiddenAnnex fun policy hpolicy => by
    have hdefault : (transact globalPolicy (freshlySeeded sampleTicks)).1 =
        .ok defaultPolicyDocument := by decide +kernel
    cases hdefault.symm.trans hpolicy
    decide +kernel

/-- A second board that its creator prefers. -/
def preferredAnnex : World Store Tick :=
  @run samplePlatform (freshlySeeded sampleTicks)
    [.administration (.createBoard sampleActor ⟨"Annex", .all, [], [], [], none⟩),
      .administration (.setPreference sampleActor (some 111))]

/-- A client that acts for the user. -/
def sampleAgent : Actor := { sampleActor with kind := .agent, scope := some .read }

/-- An agent's catalog passes over the personal default of the user it acts for. -/
theorem catalog_agent_default : ¬ ∀ (actor : Actor) (w w' : World Store Tick)
    (result : BoardCatalog) (id : Uuid), Runs (BoardService.list actor) w result w' →
      UsableDefault actor w (.user actor.id) id → result.defaultBoardId = some id := by
  intro h
  have hglobal : Runs globalPolicy preferredAnnex defaultPolicyDocument _ :=
    runs_globalPolicy_of_ok (by decide +kernel)
  have husable : UsableDefault sampleAgent preferredAnnex (.user 102) 111 := by
    refine ⟨by decide +kernel, ?_⟩
    have hvisible : ∃ board ∈ visibleBoards defaultPolicyDocument preferredAnnex.store sampleAgent,
        board.id = 111 := by decide +kernel
    obtain ⟨board, hboard, hid⟩ := hvisible
    exact ⟨board, (mem_visibleBoards hglobal).mp hboard, hid⟩
  have hdefault := h sampleAgent _ _ _ 111 (runs_list hglobal sampleAgent) husable
  refine absurd hdefault ?_
  decide +kernel

end AiKanban.Invariants
