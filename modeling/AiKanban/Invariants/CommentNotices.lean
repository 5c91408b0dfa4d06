import AiKanban.Effects.Acceptance
import AiKanban.Effects.Threads
import AiKanban.Services.Notifications
import AiKanban.Application.Operations
import AiKanban.Db.Seed

/-!
# One notification for a comment

The users a comment mentions are told in its unit of work, and the other watchers of the card by
the fan-out that follows. Nobody is told twice.
-/
namespace AiKanban.Invariants

open Application Domain Db Effects Policy Relational Services Transactions
open CommentService (mention resolveMentions)
open NotificationService

/-- The user as an actor of its own. -/
def asActor (user : User) : Actor := { kind := .user, id := user.id, role := user.role }

def Watching (s : Store) (cardId : ℕ) (userId : Uuid) : Prop :=
  ∃ r ∈ s.cardWatchers.rows, r.cardId = cardId ∧ r.userId = userId

/-- An active user who may see the board. -/
def CanBeTold (w : World Store Tick) (board : Board) (userId : Uuid) : Prop :=
  ∃ row ∈ w.store.users.rows, row.user.id = userId ∧ row.user.isActive = true ∧
    Runs (canAccessBoard (asActor row.user) board) w true w

/-- The same under a given global policy, as a test. -/
def tellable (policy : PolicyDocument) (s : Store) (board : Board) (userId : Uuid) : Bool :=
  (s.users.find? userId).any fun row =>
    row.user.isActive && accessibleUnder policy s (asActor row.user) board

/-- Notifications about a comment, one for each of the users. -/
def Notices (cardId : ℕ) (commentId : Uuid) (kind : NotificationKind) (userIds : List Uuid)
    (created : List Notification) : Prop :=
  created.map (·.userId) = userIds ∧
    ∀ n ∈ created, n.cardId = cardId ∧ n.commentId = some commentId ∧ n.eventType = kind

/-- Users were told that a comment mentions them, and watch the card. -/
structure Mentioned (w w' : World Store Tick) (cardId : ℕ) (commentId : Uuid)
    (userIds : List Uuid) : Prop where
  notices : ∃ created, w'.store.notifications.rows = w.store.notifications.rows ++ created ∧
    Notices cardId commentId .mention userIds created
  watching : ∀ userId, Watching w'.store cardId userId ↔
    Watching w.store cardId userId ∨ userId ∈ userIds
  frame : ∀ name, name ∉ [TableName.cardWatchers, .notifications] → w.store.SameTable name w'.store

variable {w w' : World Store Tick} {policy : PolicyDocument} {board : Board} {cardId : ℕ}
  {commentId : Uuid}

section telling

theorem canBeTold_iff (h : Runs globalPolicy w policy w) (userId : Uuid) :
    CanBeTold w board userId ↔ tellable policy w.store board userId = true := by
  unfold CanBeTold tellable
  rw [Option.any_eq_true]
  constructor
  · rintro ⟨row, hrow, rfl, hactive, haccess⟩
    exact ⟨row, Table.find?_of_mem hrow, by
      rw [hactive, ← (runs_canAccessBoard_iff h).mp haccess, Bool.and_self]⟩
  · rintro ⟨row, hrow, htold⟩
    obtain ⟨hactive, haccess⟩ := Bool.and_eq_true_iff.mp htold
    exact ⟨row, Table.mem_of_find? hrow, Table.find?_key hrow, hactive,
      (runs_canAccessBoard_iff h).mpr haccess.symm⟩

theorem tellable_congr {s s' : Store} (husers : s'.users = s.users) (hgroups : s'.groups = s.groups)
    (userId : Uuid) : tellable policy s' board userId = tellable policy s board userId := by
  simp only [tellable, accessibleUnder, memberIn, husers, hgroups]

end telling

section mentions

/-- A set of ids has each once; by induction on the length, since the rest is filtered. -/
theorem nodup_eraseDups (ids : List Uuid) : ids.eraseDups.Nodup := by
  induction hlength : ids.length using Nat.strong_induction_on generalizing ids with
  | _ n ih =>
    cases ids with
    | nil => exact List.nodup_nil
    | cons id ids =>
      have hshorter : (ids.filter fun other => !other == id).length < n := by
        have hle := List.length_filter_le (fun other => !other == id) ids
        rw [List.length_cons] at hlength
        omega
      rw [List.eraseDups_cons, List.nodup_cons]
      exact ⟨by simp, ih _ hshorter _ rfl⟩

theorem Notices.append {kind : NotificationKind} {a b : List Uuid} {created more : List Notification}
    (h : Notices cardId commentId kind a created) (h' : Notices cardId commentId kind b more) :
    Notices cardId commentId kind (a ++ b) (created ++ more) := by
  constructor
  · rw [List.map_append, h.1, h'.1]
  · intro n hn
    rcases List.mem_append.mp hn with hn | hn
    · exact h.2 n hn
    · exact h'.2 n hn

theorem Notices.nil {kind : NotificationKind} : Notices cardId commentId kind [] [] :=
  ⟨rfl, List.forall_mem_nil _⟩

theorem Mentioned.nil (w : World Store Tick) : Mentioned w w cardId commentId [] where
  notices := ⟨[], (List.append_nil _).symm, .nil⟩
  watching := by simp
  frame name _ := by cases name <;> rfl

theorem Mentioned.trans {w₁ : World Store Tick} {a b : List Uuid}
    (h : Mentioned w w₁ cardId commentId a) (h' : Mentioned w₁ w' cardId commentId b) :
    Mentioned w w' cardId commentId (a ++ b) where
  notices := by
    obtain ⟨created, hrows, hnotices⟩ := h.notices
    obtain ⟨more, hrows', hnotices'⟩ := h'.notices
    exact ⟨created ++ more, by rw [hrows', hrows, List.append_assoc], hnotices.append hnotices'⟩
  watching := by
    intro userId
    rw [h'.watching, h.watching, List.mem_append, or_assoc]
  frame := fun name hname => (h.frame name hname).trans (h'.frame name hname)

theorem watching_insert {s : Store} {r : CardWatcher} (hcard : r.cardId = cardId) (userId : Uuid) :
    Watching { s with cardWatchers := s.cardWatchers.insert r } cardId userId ↔
      Watching s cardId userId ∨ userId = r.userId := by
  unfold Watching
  simp only [Table.mem_insert]
  constructor
  · rintro ⟨x, hx | ⟨-, rfl⟩, hids⟩
    · exact .inl ⟨x, hx, hids⟩
    · exact .inr hids.2.symm
  · rintro (⟨x, hx, hids⟩ | rfl)
    · exact ⟨x, .inl hx, hids⟩
    · by_cases haccepts : s.cardWatchers.accepts r = true
      · exact ⟨r, .inr ⟨haccepts, rfl⟩, hcard, rfl⟩
      · obtain ⟨x, hx, hclash⟩ := List.all_eq_false.mp (Bool.eq_false_of_not_eq_true haccepts)
        have hkey : r.cardId = x.cardId ∧ r.userId = x.userId := by
          simpa [Row.clash, Row.unique] using hclash
        exact ⟨x, .inl hx, hkey.1.symm.trans hcard, hkey.2.symm⟩

/-- The users a step of the loop over the mentions tells. -/
def told (policy : PolicyDocument) (s : Store) (board : Board) (authorId : Uuid) (userId : Uuid) :
    Bool :=
  userId != authorId && tellable policy s board userId

theorem runs_mention {authorId userId : Uuid} {nowIso : Instant} {resolved r : List Uuid}
    (hpolicy : Runs globalPolicy w policy w)
    (h : Runs (mention board authorId cardId commentId nowIso resolved userId) w r w') :
    r = resolved ++ [userId].filter (told policy w.store board authorId) ∧
      Mentioned w w' cardId commentId ([userId].filter (told policy w.store board authorId)) := by
  have hskip : told policy w.store board authorId userId = false → r = resolved ∧ w' = w →
      r = resolved ++ [userId].filter (told policy w.store board authorId) ∧
        Mentioned w w' cardId commentId ([userId].filter (told policy w.store board authorId)) := by
    rintro hno ⟨rfl, rfl⟩
    rw [List.filter_singleton, hno]
    exact ⟨(List.append_nil _).symm, .nil w'⟩
  unfold mention at h
  by_cases hauthor : userId = authorId
  · rw [if_pos hauthor] at h
    exact hskip (by simp [told, hauthor]) (runs_pure_iff.mp h)
  rw [if_neg hauthor] at h
  obtain ⟨found, w₁, hread, h⟩ := runs_bind_iff.mp h
  obtain ⟨hfound, rfl⟩ := runs_read_iff.mp hread
  cases huser : w₁.store.users.find? userId with
  | none =>
    rw [huser] at hfound
    subst hfound
    exact hskip (by simp [told, tellable, huser]) (runs_pure_iff.mp h)
  | some row =>
    rw [huser] at hfound
    subst hfound
    by_cases hactive : row.user.isActive = true
    · simp only [Option.map_some, hactive, Bool.not_true, Bool.false_eq_true, if_false] at h
      obtain ⟨accessible, w₂, haccess, h⟩ := runs_bind_iff.mp h
      obtain rfl := haccess.of_readsOnly (readsOnly_canAccessBoard _ _)
      have hanswer := (runs_canAccessBoard_iff hpolicy).mp haccess
      have htold : told policy w₂.store board authorId userId = accessible := by
        simp [told, tellable, huser, hauthor, hactive, asActor, ← hanswer]
      cases accessible with
      | false => exact hskip htold (runs_pure_iff.mp h)
      | true =>
        rw [List.filter_singleton, htold]
        simp only [Bool.not_true, Bool.false_eq_true, if_false, CardWatcherRepository.add,
          NotificationRepository.insert, runs_bind_iff, runs_insertOrIgnore_iff, runs_newId_iff,
          runs_insertRow_iff, runs_pure_iff] at h
        obtain ⟨_, _, ⟨-, rfl⟩, id, _, ⟨rfl, rfl⟩, _, _, ⟨haccepts, -, rfl⟩, rfl, rfl⟩ := h
        refine ⟨rfl, ⟨_, Table.rows_insert haccepts, rfl, ?_⟩, ?_, ?_⟩
        · intro n hn
          rw [List.mem_singleton.mp hn]
          exact ⟨rfl, rfl, rfl⟩
        · intro other
          exact (watching_insert rfl other).trans (by simp)
        · intro name hname
          cases name <;> first | rfl | exact absurd (by decide) hname
    · simp only [Option.map_some, Bool.eq_false_of_not_eq_true hactive, Bool.not_false, if_true] at h
      exact hskip (by simp [told, tellable, huser, hactive]) (runs_pure_iff.mp h)

theorem Mentioned.sameGuards {userIds : List Uuid} (h : Mentioned w w' cardId commentId userIds) :
    SameGuards w.store w'.store where
  users := h.frame .users (by decide)
  boards := h.frame .boards (by decide)
  groups := h.frame .groups (by decide)
  lanes := h.frame .lanes (by decide)
  locations := h.frame .locations (by decide)
  boardPolicies := h.frame .boardPolicies (by decide)

theorem told_congr {s s' : Store} (h : SameGuards s s') (authorId : Uuid) :
    told policy s' board authorId = told policy s board authorId := by
  funext userId
  rw [told, told, tellable_congr h.users h.groups]

/-- By induction on the mentions; nobody a step tells changes who may be told. -/
theorem runs_mentions {authorId : Uuid} {nowIso : Instant} {mentions resolved r : List Uuid}
    (hpolicy : Runs globalPolicy w policy w)
    (h : Runs (Program.foldM (mention board authorId cardId commentId nowIso) resolved mentions) w r
      w') :
    r = resolved ++ mentions.filter (told policy w.store board authorId) ∧
      Mentioned w w' cardId commentId (mentions.filter (told policy w.store board authorId)) := by
  induction mentions generalizing w resolved with
  | nil =>
    obtain ⟨rfl, rfl⟩ := runs_progPure_iff.mp h
    exact ⟨(List.append_nil _).symm, .nil w'⟩
  | cons userId mentions ih =>
    obtain ⟨_, w₁, hfirst, hrest⟩ := runs_progBind_iff.mp h
    obtain ⟨rfl, hmentioned⟩ := runs_mention hpolicy hfirst
    have hsame := hmentioned.sameGuards
    obtain ⟨rfl, hmore⟩ := ih (runs_globalPolicy_same hpolicy hsame) hrest
    have hsplit : (userId :: mentions).filter (told policy w.store board authorId) =
        [userId].filter (told policy w.store board authorId) ++
          mentions.filter (told policy w.store board authorId) := List.filter_append [userId] mentions
    rw [told_congr hsame] at hmore ⊢
    rw [hsplit, List.append_assoc]
    exact ⟨rfl, hmentioned.trans hmore⟩

end mentions

section comment

variable {actor : Actor}

/-- Who is let in is let in under a global policy. -/
theorem runs_globalPolicy_of_access (h : Runs (canAccessBoard actor board) w true w) :
    ∃ policy, Runs globalPolicy w policy w := by
  unfold canAccessBoard at h
  by_cases harchived : board.archivedAt.isSome
  · rw [if_pos harchived, runs_pure_iff] at h
    exact absurd h.1 (by decide)
  · rw [if_neg harchived] at h
    obtain ⟨policy, w₁, hpolicy, -⟩ := runs_bind_iff.mp h
    obtain rfl := hpolicy.of_readsOnly readsOnly_globalPolicy
    exact ⟨policy, hpolicy⟩

theorem runs_accessibleCard_board {card : Card} (h : Runs (accessibleCard actor cardId) w card w') :
    w' = w ∧ w.store.cards.find? cardId = some card ∧
      ∃ board policy, w.store.boards.find? card.boardId = some board ∧
        Runs globalPolicy w policy w := by
  obtain ⟨rfl, hfound⟩ := runs_accessibleCard h
  simp only [accessibleCard, requireBoardAccess, CardRepository.findById, BoardRepository.findById,
    runs_bind_iff, runs_selectKey_iff, runs_requireFound_iff, runs_ensure_iff, runs_pure_iff] at h
  obtain ⟨_, _, ⟨rfl, rfl⟩, found, _, ⟨-, rfl⟩, _, _,
    ⟨_, _, ⟨rfl, rfl⟩, board, _, ⟨hboard, rfl⟩, answer, _, haccess, _, _, ⟨rfl, -⟩, -, -⟩,
    rfl, -⟩ := h
  obtain rfl := haccess.of_readsOnly (readsOnly_canAccessBoard _ _)
  obtain ⟨policy, hpolicy⟩ := runs_globalPolicy_of_access haccess
  exact ⟨rfl, hfound, board, policy, hboard, hpolicy⟩

/-- A comment was added with its mentions and its event. -/
structure Commented (w w' : World Store Tick) (actor : Actor) (cardId : ℕ) (mentions : List Uuid)
    (comment : Comment) (card : Card) (board : Board) (policy : PolicyDocument)
    (event : CardEvent) : Prop where
  found : w.store.cards.find? cardId = some card
  home : w.store.boards.find? card.boardId = some board
  global : Runs globalPolicy w policy w
  log : w'.store.cardEvents.rows = w.store.cardEvents.rows ++ [event]
  about : event.cardId = cardId
  author : event.actorId = if actor.kind = .system then none else some actor.id
  body : ∃ parent, event.body = .commentAdded comment.id parent
    (mentions.eraseDups.filter (told policy w.store board actor.id))
  notices : ∃ created, w'.store.notifications.rows = w.store.notifications.rows ++ created ∧
    Notices cardId comment.id .mention
      (mentions.eraseDups.filter (told policy w.store board actor.id)) created
  watching : ∀ userId, Watching w'.store cardId userId ↔ Watching w.store cardId userId ∨
    userId = actor.id ∨ userId ∈ mentions.eraseDups.filter (told policy w.store board actor.id)
  cards : w'.store.cards = w.store.cards
  guards : SameGuards w.store w'.store

theorem runs_resolveMentions {authorId : Uuid} {nowIso : Instant} {mentions r : List Uuid}
    {card : Card} (hcard : w.store.cards.find? cardId = some card)
    (hboard : w.store.boards.find? card.boardId = some board) (hpolicy : Runs globalPolicy w policy w)
    (h : Runs (resolveMentions mentions authorId cardId commentId nowIso) w r w') :
    r = mentions.eraseDups.filter (told policy w.store board authorId) ∧
      Mentioned w w' cardId commentId
        (mentions.eraseDups.filter (told policy w.store board authorId)) := by
  simp only [resolveMentions, CardRepository.findById, BoardRepository.findById, runs_bind_iff,
    runs_selectKey_iff, runs_requireFound_iff] at h
  obtain ⟨_, _, ⟨rfl, rfl⟩, found, _, ⟨hfound, rfl⟩, _, _, ⟨rfl, rfl⟩, home, _, ⟨hhome, rfl⟩, h⟩ := h
  obtain rfl : found = card := Option.some.inj (hfound.symm.trans hcard)
  obtain rfl : home = board := Option.some.inj (hhome.symm.trans hboard)
  exact runs_mentions hpolicy h

theorem addComment_parse {raw input : AddCommentInput} (h : raw.parse = .ok input) :
    input.mentions = raw.mentions := by
  obtain ⟨_, -, h⟩ := ok_of_bind h
  obtain ⟨_, -, h⟩ := ok_of_bind h
  rw [← Except.ok.inj h]

/-- The unit of work of `add` without another author, step by step. -/
theorem runs_add {raw : AddCommentInput} {comment : Comment}
    (h : Runs (CommentService.add actor cardId raw none) w comment w') :
    ∃ card board policy event,
      Commented w w' actor cardId raw.mentions comment card board policy event := by
  unfold CommentService.add at h
  replace h := runs_bind_iff.mp h
  obtain ⟨input, _, hparse, h⟩ := h
  obtain ⟨haccepted, rfl⟩ := runs_ofExcept_iff.mp hparse
  have hsame : input.mentions = raw.mentions := addComment_parse haccepted
  clear haccepted
  replace h := runs_bind_iff.mp h
  obtain ⟨card, _, hcard, h⟩ := h
  obtain ⟨rfl, hfound, board, policy, hboard, hpolicy⟩ := runs_accessibleCard_board hcard
  replace h := runs_bind_iff.mp h
  obtain ⟨_, _, hunarchived, h⟩ := h
  obtain ⟨-, rfl⟩ := runs_ensureNotArchived_iff.mp hunarchived
  replace h := runs_bind_iff.mp h
  obtain ⟨own, _, hown, h⟩ := h
  obtain rfl := runs_activePolicy hown
  replace h := runs_bind_iff.mp h
  obtain ⟨_, _, hdecided, h⟩ := h
  obtain ⟨-, rfl⟩ := runs_decidePolicy_iff.mp hdecided
  replace h := runs_bind_iff.mp h
  obtain ⟨_, _, hread, h⟩ := h
  obtain ⟨-, rfl⟩ := runs_read_iff.mp hread
  replace h := runs_bind_iff.mp h
  obtain ⟨_, _, hauthor, h⟩ := h
  obtain ⟨-, rfl⟩ := runs_requireFound_iff.mp hauthor
  replace h := runs_bind_iff.mp h
  obtain ⟨parent, w₀, hparent, h⟩ := h
  obtain rfl := hparent.of_readsOnly (readsOnly_parentOf _ _)
  replace h := runs_bind_iff.mp h
  obtain ⟨nowIso, w₁, hnow, h⟩ := h
  replace h := runs_bind_iff.mp h
  obtain ⟨id, w₂, hid, h⟩ := h
  replace h := runs_bind_iff.mp h
  obtain ⟨_, w₃, hinsert, h⟩ := h
  replace h := runs_bind_iff.mp h
  obtain ⟨_, w₄, hwatch, h⟩ := h
  replace h := runs_bind_iff.mp h
  obtain ⟨mentioned, w₅, hmentions, h⟩ := h
  replace h := runs_bind_iff.mp h
  obtain ⟨event, w₆, hevent, h⟩ := h
  replace h := runs_bind_iff.mp h
  obtain ⟨_, w₇, happend, h⟩ := h
  obtain ⟨rfl, rfl⟩ := runs_pure_iff.mp h
  have hcardId : card.id = cardId := Table.find?_key hfound
  obtain ⟨rfl, rfl⟩ := runs_clockNow_iff.mp hnow
  obtain ⟨rfl, rfl⟩ := runs_newId_iff.mp hid
  obtain ⟨-, -, hw₃⟩ := runs_insertRow_iff.mp hinsert
  obtain ⟨-, hw₄⟩ := runs_insertOrIgnore_iff.mp hwatch
  have hguards : SameGuards w₀.store w₄.store := by
    rw [hw₄, hw₃]
    exact ⟨rfl, rfl, rfl, rfl, rfl, rfl⟩
  have hcards : w₄.store.cards = w₀.store.cards := by
    rw [hw₄, hw₃]
    rfl
  have hevents : w₄.store.cardEvents = w₀.store.cardEvents := by
    rw [hw₄, hw₃]
    rfl
  have hnotifications : w₄.store.notifications = w₀.store.notifications := by
    rw [hw₄, hw₃]
    rfl
  have hwatching : ∀ userId, Watching w₄.store card.id userId ↔
      Watching w₀.store card.id userId ∨ userId = actor.id := by
    intro userId
    rw [hw₄, hw₃]
    exact watching_insert rfl userId
  obtain ⟨rfl, hmentioned⟩ := runs_resolveMentions (by rwa [hcards, hcardId])
    (by rwa [hguards.boards]) (runs_globalPolicy_same hpolicy hguards) hmentions
  obtain ⟨henvelope, rfl⟩ := runs_makeEvent_iff.mp hevent
  obtain ⟨hstore, hrows, -, -⟩ := runs_append happend
  rw [told_congr hguards, hsame] at hmentioned
  obtain ⟨created, hcreated, hnotices⟩ := hmentioned.notices
  exact ⟨card, board, policy, event, {
    found := hfound
    home := hboard
    global := hpolicy
    log := by
      rw [hrows, ← hevents, ← (hmentioned.frame .cardEvents (by decide) :
        w₅.store.cardEvents = w₄.store.cardEvents)]
      rfl
    about := by
      rw [henvelope]
      exact hcardId
    author := by rw [henvelope, envelope]
    body := ⟨parent, by
      rw [henvelope, envelope, told_congr hguards, hsame]
      rfl⟩
    notices := by
      refine ⟨created, ?_, hcardId ▸ hnotices⟩
      rw [hstore, ← hnotifications]
      exact hcreated
    watching := by
      intro userId
      rw [← or_assoc, ← hcardId, ← hwatching, hstore]
      exact hmentioned.watching userId
    cards := by
      rw [hstore, ← hcards]
      exact hmentioned.frame .cards (by decide)
    guards := by
      obtain ⟨husers, hboards, hgroups, hlanes, hlocations, hpolicies⟩ :=
        hguards.trans hmentioned.sameGuards
      rw [hstore]
      exact ⟨husers, hboards, hgroups, hlanes, hlocations, hpolicies⟩ }⟩

end comment

section fanOut

variable {event : CardEvent}

/-- The users that the fan-out tells of those who watch. -/
def receives (policy : PolicyDocument) (s : Store) (board : Board) (event : CardEvent)
    (userId : Uuid) : Bool :=
  !excluded event userId && tellable policy s board userId

theorem runs_addRecipient (hpolicy : Runs globalPolicy w policy w) (recipients : List Uuid)
    (userId : Uuid) : Runs (addRecipient board event recipients userId) w
      (recipients ++ [userId].filter (receives policy w.store board event)) w := by
  have hskip : receives policy w.store board event userId = false →
      recipients = recipients ++ [userId].filter (receives policy w.store board event) := by
    intro hno
    rw [List.filter_singleton, hno, cond_false, List.append_nil]
  unfold addRecipient
  by_cases hexcluded : excluded event userId = true
  · rw [if_pos hexcluded]
    exact runs_pure_iff.mpr ⟨(hskip (by simp [receives, hexcluded])).symm, rfl⟩
  rw [if_neg hexcluded]
  refine runs_bind_iff.mpr ⟨_, w, runs_read_iff.mpr ⟨rfl, rfl⟩, ?_⟩
  cases huser : w.store.users.find? userId with
  | none => exact runs_pure_iff.mpr ⟨(hskip (by simp [receives, tellable, huser])).symm, rfl⟩
  | some row =>
    by_cases hactive : row.user.isActive = true
    · simp only [Option.map_some, hactive, Bool.not_true, Bool.false_eq_true, if_false]
      refine runs_bind_iff.mpr ⟨_, w, runs_canAccessBoard hpolicy _ _, runs_pure_iff.mpr ⟨?_, rfl⟩⟩
      have hreceives : receives policy w.store board event userId =
          accessibleUnder policy w.store (asActor row.user) board := by
        simp [receives, tellable, huser, hactive, hexcluded]
      rw [List.filter_singleton, hreceives]
      unfold asActor
      split_ifs with haccess
      · rw [haccess, cond_true]
      · rw [Bool.eq_false_of_not_eq_true haccess, cond_false, List.append_nil]
    · simp only [Option.map_some, Bool.eq_false_of_not_eq_true hactive, Bool.not_false, if_true]
      exact runs_pure_iff.mpr ⟨(hskip (by simp [receives, tellable, huser, hactive])).symm, rfl⟩

theorem runs_addRecipients (board : Board) (event : CardEvent)
    (hpolicy : Runs globalPolicy w policy w) (watchers recipients : List Uuid) :
    Runs (Program.foldM (addRecipient board event) recipients watchers) w
      (recipients ++ watchers.filter (receives policy w.store board event)) w := by
  induction watchers generalizing recipients with
  | nil => exact runs_progPure_iff.mpr ⟨List.append_nil _, rfl⟩
  | cons userId watchers ih =>
    have hsplit : (userId :: watchers).filter (receives policy w.store board event) =
        [userId].filter (receives policy w.store board event) ++
          watchers.filter (receives policy w.store board event) := List.filter_append [userId] watchers
    rw [hsplit, ← List.append_assoc]
    exact runs_progBind_iff.mpr ⟨_, w, runs_addRecipient hpolicy recipients userId, ih _⟩

theorem runs_notify {nowIso : Instant} {userId : Uuid} {u : Unit}
    (hcomment : commentIdOf event.body = some commentId)
    (h : Runs (notify cardId event nowIso userId) w u w') :
    ∃ created, w'.store.notifications.rows = w.store.notifications.rows ++ created ∧
      Notices cardId commentId (.event event.body.eventType) [userId] created := by
  simp only [notify, NotificationRepository.insert, runs_bind_iff, runs_newId_iff,
    runs_insertRow_iff] at h
  obtain ⟨id, _, ⟨rfl, rfl⟩, haccepts, -, rfl⟩ := h
  refine ⟨_, Table.rows_insert haccepts, rfl, ?_⟩
  intro n hn
  rw [List.mem_singleton.mp hn]
  exact ⟨rfl, hcomment, rfl⟩

/-- A notification for each recipient, in order. -/
theorem runs_notifyAll {nowIso : Instant} {recipients : List Uuid} {u : Unit}
    (hcomment : commentIdOf event.body = some commentId)
    (h : Runs (Program.forEach (notify cardId event nowIso) recipients) w u w') :
    ∃ created, w'.store.notifications.rows = w.store.notifications.rows ++ created ∧
      Notices cardId commentId (.event event.body.eventType) recipients created := by
  induction recipients generalizing w with
  | nil =>
    obtain ⟨-, rfl⟩ := runs_progPure_iff.mp h
    exact ⟨[], (List.append_nil _).symm, .nil⟩
  | cons userId recipients ih =>
    obtain ⟨_, w₁, hfirst, hrest⟩ := runs_progBind_iff.mp h
    obtain ⟨first, hrows, hnotice⟩ := runs_notify hcomment hfirst
    obtain ⟨created, hrows', hnotices⟩ := ih hrest
    exact ⟨first ++ created, by rw [hrows', hrows, List.append_assoc], hnotice.append hnotices⟩

def watcherIds (s : Store) (cardId : ℕ) : List Uuid :=
  (s.cardWatchers.rows.filter fun r => r.cardId == cardId).map (·.userId)

theorem mem_watcherIds {s : Store} {userId : Uuid} :
    userId ∈ watcherIds s cardId ↔ Watching s cardId userId := by
  simp only [watcherIds, Watching, List.mem_map, List.mem_filter, beq_iff_eq, and_assoc]

/-- Nobody watches a card twice. -/
theorem nodup_watcherIds (s : Store) (cardId : ℕ) : (watcherIds s cardId).Nodup := by
  refine List.Nodup.map_on ?_ ((Table.nodup _).filter _)
  intro a ha b hb huser
  obtain ⟨ha, hacard⟩ := List.mem_filter.mp ha
  obtain ⟨hb, hbcard⟩ := List.mem_filter.mp hb
  have hcard : a.cardId = b.cardId := (beq_iff_eq.mp hacard).trans (beq_iff_eq.mp hbcard).symm
  exact Table.eq_of_key ha hb (Prod.ext hcard huser)

/-- A body goes on from what its first part comes to. -/
theorem runs_bind_of_runs {α β : Type} {p : Tx α} {f : α → Tx β} {a : α} {b : β}
    {w₁ : World Store Tick} (h : Runs p w a w₁) : Runs (p >>= f) w b w' ↔ Runs (f a) w₁ b w' := by
  constructor
  · intro hbind
    obtain ⟨a', w₂, hp, hf⟩ := runs_bind_iff.mp hbind
    obtain ⟨hvalue, rfl⟩ := Prod.ext_iff.mp (h.symm.trans hp)
    rw [Except.ok.inj hvalue]
    exact hf
  · intro hf
    exact runs_bind_iff.mpr ⟨a, w₁, h, hf⟩

/-- The fan-out of an event whose card and board are there is that of its watchers. -/
theorem runs_fanOutForEvent_iff {card : Card} {r : List Uuid}
    (hevent : event ∈ w.store.cardEvents.rows) (habout : event.cardId = cardId)
    (hnotifiable : isNotifiableEvent event.body.eventType = true)
    (hcard : w.store.cards.find? cardId = some card)
    (hboard : w.store.boards.find? card.boardId = some board) :
    Runs (fanOutForEvent cardId event.id) w r w' ↔ Runs (fanOut cardId board event) w r w' := by
  have hfound : w.store.cardEvents.find? event.id = some event := Table.find?_of_mem hevent
  have hfindEvent : Runs (EventRepository.findById event.id) w (some event) w :=
    runs_selectKey_iff.mpr ⟨hfound.symm, rfl⟩
  have hfindCard : Runs (CardRepository.findById cardId) w (some card) w :=
    runs_selectKey_iff.mpr ⟨hcard.symm, rfl⟩
  have hfindBoard : Runs (BoardRepository.findById card.boardId) w (some board) w :=
    runs_selectKey_iff.mpr ⟨hboard.symm, rfl⟩
  rw [fanOutForEvent, runs_bind_of_runs hfindEvent]
  simp only [hnotifiable, Bool.not_true, Bool.false_eq_true, if_false]
  rw [runs_bind_of_runs hfindCard]
  simp only [habout, ne_eq, not_true_eq_false, if_false]
  rw [runs_bind_of_runs hfindBoard]

theorem runs_fanOut {r : List Uuid} (hpolicy : Runs globalPolicy w policy w)
    (hcomment : commentIdOf event.body = some commentId)
    (h : Runs (fanOut cardId board event) w r w') :
    r = (watcherIds w.store cardId).filter (receives policy w.store board event) ∧
      ∃ created, w'.store.notifications.rows = w.store.notifications.rows ++ created ∧
        Notices cardId commentId (.event event.body.eventType) r created := by
  have hwatchers : Runs (CardWatcherRepository.listWatcherIds cardId) w (watcherIds w.store cardId) w :=
    runs_read_iff.mpr ⟨rfl, rfl⟩
  have hrecipients := runs_addRecipients board event hpolicy (watcherIds w.store cardId) []
  rw [List.nil_append] at hrecipients
  rw [fanOut, runs_bind_of_runs hwatchers, runs_bind_of_runs hrecipients] at h
  obtain ⟨nowIso, w₁, hnow, h⟩ := runs_bind_iff.mp h
  obtain ⟨-, rfl⟩ := runs_clockNow_iff.mp hnow
  obtain ⟨_, w₂, hnotify, h⟩ := runs_bind_iff.mp h
  obtain ⟨rfl, rfl⟩ := runs_pure_iff.mp h
  obtain ⟨created, hrows, hnotices⟩ := runs_notifyAll hcomment hnotify
  exact ⟨rfl, created, hrows, hnotices⟩

/-- The ids still to be drawn are new to the notifications, and differ. -/
structure UnusedIds (w : World Store Tick) : Prop where
  fresh : ∀ i, w.drawn ≤ i → ∀ n ∈ w.store.notifications.rows, n.id ≠ (w.inputs i).id
  distinct : ∀ i j, w.drawn ≤ i → i < j → (w.inputs i).id ≠ (w.inputs j).id

theorem UnusedIds.tick (h : UnusedIds w) : UnusedIds w.tick where
  fresh i hi := h.fresh i ((Nat.le_succ _).trans hi)
  distinct i j hi hij := h.distinct i j ((Nat.le_succ _).trans hi) hij

/-- The notification of a known user about a known card is stored, under the next id. -/
theorem exists_runs_notify (event : CardEvent) (nowIso : Instant) {userId : Uuid}
    (hids : UnusedIds w) (huser : w.store.hasUser userId = true) (hcard : w.store.hasCard cardId = true) :
    ∃ w', Runs (notify cardId event nowIso userId) w () w' ∧ UnusedIds w' ∧
      w'.store.users = w.store.users ∧ w'.store.cards = w.store.cards := by
  have haccepts : ∀ n : Notification, n.id = w.peek.id → w.store.notifications.accepts n = true := by
    intro n hn
    refine List.all_eq_true.mpr fun x hx => ?_
    have hclash : decide (n.id = x.id) = false :=
      decide_eq_false fun heq => hids.fresh w.drawn le_rfl x hx (heq.symm.trans hn)
    exact congrArg not hclash
  simp only [notify, NotificationRepository.insert, runs_bind_iff, runs_newId_iff,
    runs_insertRow_iff, table_notifications, put_notifications]
  refine ⟨_, ⟨_, _, ⟨rfl, rfl⟩, haccepts _ rfl, ?_, rfl⟩, ⟨?_, ?_⟩, rfl, rfl⟩
  · simp [HasTable.references, huser, hcard]
  · intro i hi n hn
    rcases Table.mem_insert.mp hn with hn | ⟨-, rfl⟩
    · exact hids.fresh i ((Nat.le_succ _).trans hi) n hn
    · exact hids.distinct w.drawn i le_rfl hi
  · exact fun i j hi hij => hids.distinct i j ((Nat.le_succ _).trans hi) hij

theorem exists_runs_notifyAll (event : CardEvent) (nowIso : Instant) {recipients : List Uuid}
    (hids : UnusedIds w) (husers : ∀ userId ∈ recipients, w.store.hasUser userId = true)
    (hcard : w.store.hasCard cardId = true) :
    ∃ w', Runs (Program.forEach (notify cardId event nowIso) recipients) w () w' := by
  induction recipients generalizing w with
  | nil => exact ⟨w, runs_progPure_iff.mpr ⟨rfl, rfl⟩⟩
  | cons userId recipients ih =>
    obtain ⟨w₁, hfirst, hids₁, husers₁, hcards₁⟩ :=
      exists_runs_notify event nowIso hids (husers userId (by simp)) hcard
    obtain ⟨w', hrest⟩ := ih hids₁
      (fun id hid => by
        rw [Store.hasUser, husers₁]
        exact husers id (List.mem_cons_of_mem _ hid))
      (by rwa [Store.hasCard, hcards₁])
    exact ⟨w', runs_progBind_iff.mpr ⟨(), w₁, hfirst, hrest⟩⟩

theorem exists_runs_fanOut (board : Board) (event : CardEvent)
    (hpolicy : Runs globalPolicy w policy w) (hids : UnusedIds w) (hcard : w.store.hasCard cardId = true) :
    ∃ r w', Runs (fanOut cardId board event) w r w' := by
  have hwatchers : Runs (CardWatcherRepository.listWatcherIds cardId) w (watcherIds w.store cardId) w :=
    runs_read_iff.mpr ⟨rfl, rfl⟩
  have hrecipients := runs_addRecipients board event hpolicy (watcherIds w.store cardId) []
  rw [List.nil_append] at hrecipients
  have husers : ∀ userId ∈ (watcherIds w.store cardId).filter (receives policy w.store board event),
      w.store.hasUser userId = true := by
    intro userId hmem
    obtain ⟨-, htellable⟩ := Bool.and_eq_true_iff.mp (List.mem_filter.mp hmem).2
    obtain ⟨row, hrow, -⟩ := (Option.any_eq_true _ _).mp htellable
    rw [Store.hasUser, hrow]
    rfl
  obtain ⟨w', hnotify⟩ := exists_runs_notifyAll event w.peek.now hids.tick husers hcard
  refine ⟨(watcherIds w.store cardId).filter (receives policy w.store board event), w', ?_⟩
  rw [fanOut, runs_bind_of_runs hwatchers, runs_bind_of_runs hrecipients,
    runs_bind_of_runs (runs_clockNow_iff.mpr ⟨rfl, rfl⟩), runs_bind_of_runs hnotify]
  exact runs_pure_iff.mpr ⟨rfl, rfl⟩

end fanOut

section once

def noticesFor (created : List Notification) (userId : Uuid) : List Notification :=
  created.filter fun n => n.userId == userId

theorem Notices.for_mem {kind : NotificationKind} {userIds : List Uuid} {created : List Notification}
    {userId : Uuid} (h : Notices cardId commentId kind userIds created) (hnodup : userIds.Nodup)
    (hmem : userId ∈ userIds) : ∃ n, noticesFor created userId = [n] ∧ n.eventType = kind := by
  obtain ⟨rfl, hkind⟩ := h
  obtain ⟨n, hn, rfl⟩ := List.mem_map.mp hmem
  obtain ⟨before, after, rfl⟩ := List.append_of_mem hn
  rw [List.map_append, List.map_cons] at hnodup
  obtain ⟨-, hrest, hapart⟩ := List.nodup_append.mp hnodup
  have hbefore : before.filter (fun m => m.userId == n.userId) = [] := by
    refine List.filter_eq_nil_iff.mpr fun m hm hsame => ?_
    exact hapart _ (List.mem_map_of_mem hm) _ (List.mem_cons_self ..) (beq_iff_eq.mp hsame)
  have hafter : after.filter (fun m => m.userId == n.userId) = [] := by
    refine List.filter_eq_nil_iff.mpr fun m hm hsame => (List.nodup_cons.mp hrest).1 ?_
    rw [← beq_iff_eq.mp hsame]
    exact List.mem_map_of_mem hm
  refine ⟨n, ?_, (hkind n hn).2.2⟩
  simp [noticesFor, hbefore, hafter]

theorem Notices.for_not_mem {kind : NotificationKind} {userIds : List Uuid}
    {created : List Notification} {userId : Uuid} (h : Notices cardId commentId kind userIds created)
    (hmem : userId ∉ userIds) : noticesFor created userId = [] := by
  refine List.filter_eq_nil_iff.mpr fun n hn hsame => hmem ?_
  rw [← h.1, ← beq_iff_eq.mp hsame]
  exact List.mem_map_of_mem hn

/-- What the comment and its fan-out created: one notification at most for each user. -/
structure ToldOnce (w : World Store Tick) (authorId : Uuid) (cardId : ℕ) (mentions : List Uuid)
    (board : Board) (commentId : Uuid) (created : List Notification) : Prop where
  about : ∀ n ∈ created, n.cardId = cardId ∧ n.commentId = some commentId
  once : ∀ userId, (noticesFor created userId).length ≤ 1
  author : noticesFor created authorId = []
  mentioned : ∀ userId ∈ mentions, userId ≠ authorId → CanBeTold w board userId →
    ∃ n, noticesFor created userId = [n] ∧ n.eventType = .mention
  watcher : ∀ userId, userId ∉ mentions → userId ≠ authorId → Watching w.store cardId userId →
    CanBeTold w board userId → ∃ n, noticesFor created userId = [n] ∧ n.eventType = .event .commentAdded
  nobodyElse : ∀ userId, ¬ (CanBeTold w board userId ∧
    (userId ∈ mentions ∨ Watching w.store cardId userId)) → noticesFor created userId = []

/-- The notifications of the mentions and those of the watchers are for different users. -/
theorem toldOnce_append {authorId : Uuid} {mentions told watching : List Uuid}
    {created more : List Notification}
    (hfirst : Notices cardId commentId .mention told created)
    (hsecond : Notices cardId commentId (.event .commentAdded) watching more)
    (htoldNodup : told.Nodup) (hwatchingNodup : watching.Nodup)
    (htold : ∀ userId, userId ∈ told ↔
      userId ∈ mentions ∧ userId ≠ authorId ∧ CanBeTold w board userId)
    (hwatching : ∀ userId, userId ∈ watching ↔ (Watching w.store cardId userId ∨
      userId = authorId ∨ userId ∈ told) ∧ userId ≠ authorId ∧ userId ∉ told ∧
        CanBeTold w board userId) :
    ToldOnce w authorId cardId mentions board commentId (created ++ more) := by
  have happend : ∀ userId, noticesFor (created ++ more) userId =
      noticesFor created userId ++ noticesFor more userId := fun userId => List.filter_append ..
  have hmention : ∀ userId ∈ told, ∃ n, noticesFor (created ++ more) userId = [n] ∧
      n.eventType = .mention := by
    intro userId hmem
    have hnot : userId ∉ watching := fun hwatches => ((hwatching userId).mp hwatches).2.2.1 hmem
    rw [happend, hsecond.for_not_mem hnot, List.append_nil]
    exact hfirst.for_mem htoldNodup hmem
  have hwatcher : ∀ userId ∈ watching, ∃ n, noticesFor (created ++ more) userId = [n] ∧
      n.eventType = .event .commentAdded := by
    intro userId hmem
    rw [happend, hfirst.for_not_mem ((hwatching userId).mp hmem).2.2.1, List.nil_append]
    exact hsecond.for_mem hwatchingNodup hmem
  have hnone : ∀ userId, userId ∉ told → userId ∉ watching →
      noticesFor (created ++ more) userId = [] := by
    intro userId hnot hnot'
    rw [happend, hfirst.for_not_mem hnot, hsecond.for_not_mem hnot', List.append_nil]
  refine ⟨?_, ?_, ?_, ?_, ?_, ?_⟩
  · intro n hn
    rcases List.mem_append.mp hn with hn | hn
    · exact ⟨(hfirst.2 n hn).1, (hfirst.2 n hn).2.1⟩
    · exact ⟨(hsecond.2 n hn).1, (hsecond.2 n hn).2.1⟩
  · intro userId
    by_cases hmem : userId ∈ told
    · obtain ⟨n, hone, -⟩ := hmention userId hmem
      rw [hone, List.length_singleton]
    · by_cases hmem' : userId ∈ watching
      · obtain ⟨n, hone, -⟩ := hwatcher userId hmem'
        rw [hone, List.length_singleton]
      · rw [hnone userId hmem hmem']
        exact Nat.zero_le _
  · apply hnone
    · exact fun hmem => ((htold authorId).mp hmem).2.1 rfl
    · exact fun hmem => ((hwatching authorId).mp hmem).2.1 rfl
  · intro userId hmem hother htellable
    exact hmention userId ((htold userId).mpr ⟨hmem, hother, htellable⟩)
  · intro userId hnot hother hwatches htellable
    exact hwatcher userId ((hwatching userId).mpr ⟨.inl hwatches, hother,
      fun hmem => hnot ((htold userId).mp hmem).1, htellable⟩)
  · intro userId hnobody
    apply hnone
    · intro hmem
      obtain ⟨hmentioned, -, htellable⟩ := (htold userId).mp hmem
      exact hnobody ⟨htellable, .inl hmentioned⟩
    · intro hmem
      obtain ⟨hwatches | rfl | hmentioned, hother, hnot, htellable⟩ := (hwatching userId).mp hmem
      · exact hnobody ⟨htellable, .inr hwatches⟩
      · exact hother rfl
      · exact hnot hmentioned

end once

/-- A comment by a user, over Slack or by an agent, followed by its fan-out, tells each user once:
the fan-out goes through, and whoever is told is told by one of the two. -/
theorem comment_tells_once {actor : Actor} {raw : AddCommentInput} {comment : Comment}
    (hkind : actor.kind = .user ∨ actor.kind = .slack ∨ actor.kind = .agent)
    (hadd : Runs (CommentService.add actor cardId raw none) w comment w') :
    ∃ event card board, w'.store.cardEvents.rows = w.store.cardEvents.rows ++ [event] ∧
      w.store.cards.find? cardId = some card ∧ w.store.boards.find? card.boardId = some board ∧
        (UnusedIds w' → ∃ recipients w'', Runs (fanOutForEvent cardId event.id) w' recipients w'') ∧
          ∀ recipients w'', Runs (fanOutForEvent cardId event.id) w' recipients w'' →
            ∃ created, w''.store.notifications.rows = w.store.notifications.rows ++ created ∧
              ToldOnce w actor.id cardId raw.mentions board comment.id created := by
  obtain ⟨card, board, policy, event, h⟩ := runs_add hadd
  obtain ⟨parent, hbody⟩ := h.body
  obtain ⟨created, hcreated, hnotices⟩ := h.notices
  have hmem : event ∈ w'.store.cardEvents.rows := by
    rw [h.log]
    exact List.mem_append_right _ (List.mem_singleton_self event)
  have hauthor : event.actorId = some actor.id := by
    rw [h.author, if_neg]
    rcases hkind with hkind | hkind | hkind <;> rw [hkind] <;> decide
  have hfan : ∀ r w'', Runs (fanOutForEvent cardId event.id) w' r w'' ↔
      Runs (fanOut cardId board event) w' r w'' := fun r w'' =>
    runs_fanOutForEvent_iff hmem h.about (by rw [hbody]; rfl) (by rw [h.cards, h.found])
      (by rw [h.guards.boards, h.home])
  have hglobal := runs_globalPolicy_same h.global h.guards
  refine ⟨event, card, board, h.log, h.found, h.home, ?_, ?_⟩
  · intro hids
    have hcard : w'.store.hasCard cardId = true := by
      rw [Store.hasCard, h.cards, h.found]
      rfl
    obtain ⟨r, w'', hrun⟩ := exists_runs_fanOut board event hglobal hids hcard
    exact ⟨r, w'', (hfan r w'').mpr hrun⟩
  · intro r w'' hrun
    obtain ⟨rfl, more, hmore, hwatchers⟩ := runs_fanOut hglobal (by rw [hbody]; rfl)
      ((hfan r w'').mp hrun)
    have htype : event.body.eventType = .commentAdded := by
      rw [hbody]
      rfl
    have htold : ∀ userId, userId ∈ raw.mentions.eraseDups.filter (told policy w.store board actor.id) ↔
        userId ∈ raw.mentions ∧ userId ≠ actor.id ∧ CanBeTold w board userId := by
      intro userId
      simp [told, canBeTold_iff h.global]
    have hexcluded : ∀ userId, excluded event userId = true ↔ userId = actor.id ∨
        userId ∈ raw.mentions.eraseDups.filter (told policy w.store board actor.id) := by
      intro userId
      rw [excluded, hauthor, hbody, mentionedUserIds, Bool.or_eq_true, beq_iff_eq,
        Option.some.injEq, List.contains_iff_mem, eq_comm]
    rw [htype] at hwatchers
    refine ⟨created ++ more, by rw [hmore, hcreated, List.append_assoc],
      toldOnce_append hnotices hwatchers ((nodup_eraseDups _).filter _)
        ((nodup_watcherIds _ _).filter _) htold ?_⟩
    intro userId
    rw [List.mem_filter, mem_watcherIds, h.watching, receives, Bool.and_eq_true, Bool.not_eq_true',
      ← Bool.not_eq_true, hexcluded, tellable_congr h.guards.users h.guards.groups,
      ← canBeTold_iff h.global, not_or, and_assoc]

/-- A second user, with the id 111, and a card. -/
def sharedCard : World Store Tick :=
  @run samplePlatform (freshlySeeded sampleTicks)
    [.administration (.createUser ⟨101, 102⟩ sampleActor ⟨"bo@example.com", "Bo", "user"⟩ ⟨"once", "hash"⟩),
      .card (.create ⟨101, 102, .sqlite⟩ sampleActor { title := "Pump" } {})]

def commentToBo : AddCommentInput := { body := "@Bo", mentions := [111] }

theorem comment_tells_once_bo : ∃ comment w' event recipients w'' created board n,
    Runs (CommentService.add sampleActor 1 commentToBo none) sharedCard comment w' ∧
      Runs (fanOutForEvent 1 event) w' recipients w'' ∧
        ToldOnce sharedCard 102 1 [111] board comment.id created ∧
          noticesFor created 111 = [n] ∧ n.eventType = .mention := by
  obtain ⟨comment, hok⟩ : ∃ comment,
      (exec (CommentService.add sampleActor 1 commentToBo none) sharedCard).1 = .ok comment :=
    exists_ok (by decide +kernel)
  have hadd : Runs (CommentService.add sampleActor 1 commentToBo none) sharedCard comment
      (exec (CommentService.add sampleActor 1 commentToBo none) sharedCard).2 := Prod.ext hok rfl
  obtain ⟨event, card, board, -, hcard, hboard, hgo, honce⟩ := comment_tells_once (.inl rfl) hadd
  have hids : UnusedIds (exec (CommentService.add sampleActor 1 commentToBo none) sharedCard).2 := by
    have hdrawn : ∀ n ∈ (exec (CommentService.add sampleActor 1 commentToBo none)
        sharedCard).2.store.notifications.rows, n.id < 100 +
          (exec (CommentService.add sampleActor 1 commentToBo none) sharedCard).2.drawn := by
      decide +kernel
    have hinputs : (exec (CommentService.add sampleActor 1 commentToBo none) sharedCard).2.inputs =
        sampleTicks := hadd.inputs
    refine ⟨?_, ?_⟩
    · intro i hi n hn
      rw [hinputs]
      exact Nat.ne_of_lt ((hdrawn n hn).trans_le (Nat.add_le_add_left hi 100))
    · intro i j _ hij
      rw [hinputs]
      exact Nat.ne_of_lt (Nat.add_lt_add_left hij 100)
  obtain ⟨recipients, w'', hfan⟩ := hgo hids
  obtain ⟨created, -, htold⟩ := honce recipients w'' hfan
  have hbo : ∀ card ∈ sharedCard.store.cards.find? 1,
      ∀ board ∈ sharedCard.store.boards.find? card.boardId,
        ∃ row ∈ sharedCard.store.users.rows, row.user.id = 111 ∧ row.user.isActive = true ∧
          (exec (canAccessBoard (asActor row.user) board) sharedCard).1 = .ok true := by
    decide +kernel
  obtain ⟨row, hrow, hid, hactive, haccess⟩ := hbo card hcard board hboard
  have htellable : CanBeTold sharedCard board 111 := by
    have hrun : Runs (canAccessBoard (asActor row.user) board) sharedCard true
        (exec (canAccessBoard (asActor row.user) board) sharedCard).2 :=
      Prod.ext haccess rfl
    have hsame := hrun.of_readsOnly (readsOnly_canAccessBoard _ _)
    exact ⟨row, hrow, hid, hactive, by rwa [hsame] at hrun⟩
  obtain ⟨n, hone, hmention⟩ := htold.mentioned 111 (by decide) (by decide) htellable
  exact ⟨comment, _, event.id, recipients, w'', created, board, n, hadd, hfan, htold, hone, hmention⟩

end AiKanban.Invariants
