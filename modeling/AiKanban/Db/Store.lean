import AiKanban.Domain.Events
import AiKanban.Domain.Policy
import AiKanban.Relational.Statements

/-!
# The store

One table per schema table that a modelled service reads or writes, with the
schema's primary, unique and foreign keys.
-/
namespace AiKanban.Db

open Domain Relational Transactions

section rows

instance : Row UserCredentials Uuid := .uniqueAlso (·.user.id) fun r => asciiLower r.user.email
instance : Row BoardDefault DefaultSubject := .unique (·.subject)
instance : Row Group Uuid := .uniqueAlso (·.id) fun r => asciiLower r.name
instance : Row Lane Uuid := .uniqueAlso (·.id) fun r => (r.boardId, r.key)
instance : Row Location Uuid := .unique (·.id)
instance : Row BoardPolicy Uuid := .unique (·.id)
instance : Row Card ℕ := .uniqueAlso (·.id) fun r => (r.laneId, r.position)
instance : Row Tag Uuid := .uniqueAlso (·.id) fun r => asciiLower r.name
instance : Row CardTag (ℕ × Uuid) := .unique fun r => (r.cardId, r.tagId)
instance : Row Comment Uuid := .unique (·.id)
instance : Row Attachment Uuid := .unique (·.id)
instance : Row CardEvent Uuid := .unique (·.id)
instance : Row Session String := .unique (·.id)
instance : Row ServiceToken Uuid := .uniqueAlso (·.id) (·.tokenHash)
instance : Row OAuthAuthorizationCode String := .unique (·.codeHash)
instance : Row OAuthAccessToken Uuid := .uniqueAlso (·.id) (·.tokenHash)
instance : Row OAuthRefreshToken Uuid := .uniqueAlso (·.id) (·.tokenHash)
instance : Row CardRelation Uuid :=
  .uniqueAlso (·.id) fun r => (r.fromCardId, r.toCardId, r.type)
instance : Row CardWatcher (ℕ × Uuid) := .unique fun r => (r.cardId, r.userId)
instance : Row Notification Uuid := .unique (·.id)

/-- At most one board carries the default flag. -/
instance : Row Board Uuid where
  key := (·.id)
  clash a b := decide (a.id = b.id) || (a.isDefault && b.isDefault)
  clash_symm a b := by simp only [eq_comm, Bool.and_comm]
  clash_of_key a b h := by simp [h]

end rows

structure Store where
  users : Table UserCredentials := .empty
  boards : Table Board := .empty
  boardDefaults : Table BoardDefault := .empty
  groups : Table Group := .empty
  lanes : Table Lane := .empty
  locations : Table Location := .empty
  boardPolicies : Table BoardPolicy := .empty
  cards : Table Card := .empty
  tags : Table Tag := .empty
  cardTags : Table CardTag := .empty
  comments : Table Comment := .empty
  attachments : Table Attachment := .empty
  cardEvents : Table CardEvent := .empty
  sessions : Table Session := .empty
  serviceTokens : Table ServiceToken := .empty
  oauthAuthorizationCodes : Table OAuthAuthorizationCode := .empty
  oauthAccessTokens : Table OAuthAccessToken := .empty
  oauthRefreshTokens : Table OAuthRefreshToken := .empty
  cardRelations : Table CardRelation := .empty
  cardWatchers : Table CardWatcher := .empty
  notifications : Table Notification := .empty

instance : Inhabited Store := ⟨{}⟩

/-- One row write, by table. -/
inductive Write where
  | users (w : RowWrite UserCredentials)
  | boards (w : RowWrite Board)
  | boardDefaults (w : RowWrite BoardDefault)
  | groups (w : RowWrite Group)
  | lanes (w : RowWrite Lane)
  | locations (w : RowWrite Location)
  | boardPolicies (w : RowWrite BoardPolicy)
  | cards (w : RowWrite Card)
  | tags (w : RowWrite Tag)
  | cardTags (w : RowWrite CardTag)
  | comments (w : RowWrite Comment)
  | attachments (w : RowWrite Attachment)
  | cardEvents (w : RowWrite CardEvent)
  | sessions (w : RowWrite Session)
  | serviceTokens (w : RowWrite ServiceToken)
  | oauthAuthorizationCodes (w : RowWrite OAuthAuthorizationCode)
  | oauthAccessTokens (w : RowWrite OAuthAccessToken)
  | oauthRefreshTokens (w : RowWrite OAuthRefreshToken)
  | cardRelations (w : RowWrite CardRelation)
  | cardWatchers (w : RowWrite CardWatcher)
  | notifications (w : RowWrite Notification)

inductive TableName where
  | users | boards | boardDefaults | groups | lanes | locations | boardPolicies
  | cards | tags | cardTags | comments | attachments | cardEvents
  | sessions | serviceTokens | oauthAuthorizationCodes | oauthAccessTokens | oauthRefreshTokens
  | cardRelations | cardWatchers | notifications
  deriving DecidableEq

def Write.tableName : Write → TableName
  | .users _ => .users
  | .boards _ => .boards
  | .boardDefaults _ => .boardDefaults
  | .groups _ => .groups
  | .lanes _ => .lanes
  | .locations _ => .locations
  | .boardPolicies _ => .boardPolicies
  | .cards _ => .cards
  | .tags _ => .tags
  | .cardTags _ => .cardTags
  | .comments _ => .comments
  | .attachments _ => .attachments
  | .cardEvents _ => .cardEvents
  | .sessions _ => .sessions
  | .serviceTokens _ => .serviceTokens
  | .oauthAuthorizationCodes _ => .oauthAuthorizationCodes
  | .oauthAccessTokens _ => .oauthAccessTokens
  | .oauthRefreshTokens _ => .oauthRefreshTokens
  | .cardRelations _ => .cardRelations
  | .cardWatchers _ => .cardWatchers
  | .notifications _ => .notifications

def Store.apply (s : Store) : Write → Store
  | .users w => { s with users := s.users.write w }
  | .boards w => { s with boards := s.boards.write w }
  | .boardDefaults w => { s with boardDefaults := s.boardDefaults.write w }
  | .groups w => { s with groups := s.groups.write w }
  | .lanes w => { s with lanes := s.lanes.write w }
  | .locations w => { s with locations := s.locations.write w }
  | .boardPolicies w => { s with boardPolicies := s.boardPolicies.write w }
  | .cards w => { s with cards := s.cards.write w }
  | .tags w => { s with tags := s.tags.write w }
  | .cardTags w => { s with cardTags := s.cardTags.write w }
  | .comments w => { s with comments := s.comments.write w }
  | .attachments w => { s with attachments := s.attachments.write w }
  | .cardEvents w => { s with cardEvents := s.cardEvents.write w }
  | .sessions w => { s with sessions := s.sessions.write w }
  | .serviceTokens w => { s with serviceTokens := s.serviceTokens.write w }
  | .oauthAuthorizationCodes w => { s with oauthAuthorizationCodes := s.oauthAuthorizationCodes.write w }
  | .oauthAccessTokens w => { s with oauthAccessTokens := s.oauthAccessTokens.write w }
  | .oauthRefreshTokens w => { s with oauthRefreshTokens := s.oauthRefreshTokens.write w }
  | .cardRelations w => { s with cardRelations := s.cardRelations.write w }
  | .cardWatchers w => { s with cardWatchers := s.cardWatchers.write w }
  | .notifications w => { s with notifications := s.notifications.write w }

instance : Replay Store Write := ⟨Store.apply⟩

namespace Store

def hasUser (s : Store) (id : Uuid) : Bool := (s.users.find? id).isSome
def hasBoard (s : Store) (id : Uuid) : Bool := (s.boards.find? id).isSome
def hasCard (s : Store) (id : ℕ) : Bool := (s.cards.find? id).isSome

/-- A nullable reference: null, or a row that is there. -/
def nullOr {α : Type} (value : Option α) (there : α → Bool) : Bool := value.all there

end Store

section foreignKeys

instance : HasTable Store Write UserCredentials where
  table := Store.users
  put s t := { s with users := t }
  wrap := Write.users
  references _ _ := true
  apply_wrap _ _ := rfl
  table_put _ _ := rfl
  put_put _ _ _ := rfl
  put_table _ := rfl

instance : HasTable Store Write Board where
  table := Store.boards
  put s t := { s with boards := t }
  wrap := Write.boards
  references _ _ := true
  apply_wrap _ _ := rfl
  table_put _ _ := rfl
  put_put _ _ _ := rfl
  put_table _ := rfl

instance : HasTable Store Write BoardDefault where
  table := Store.boardDefaults
  put s t := { s with boardDefaults := t }
  wrap := Write.boardDefaults
  references s r := s.hasBoard r.boardId
  apply_wrap _ _ := rfl
  table_put _ _ := rfl
  put_put _ _ _ := rfl
  put_table _ := rfl

instance : HasTable Store Write Group where
  table := Store.groups
  put s t := { s with groups := t }
  wrap := Write.groups
  references _ _ := true
  apply_wrap _ _ := rfl
  table_put _ _ := rfl
  put_put _ _ _ := rfl
  put_table _ := rfl

instance : HasTable Store Write Lane where
  table := Store.lanes
  put s t := { s with lanes := t }
  wrap := Write.lanes
  references s r := s.hasBoard r.boardId
  apply_wrap _ _ := rfl
  table_put _ _ := rfl
  put_put _ _ _ := rfl
  put_table _ := rfl

instance : HasTable Store Write Location where
  table := Store.locations
  put s t := { s with locations := t }
  wrap := Write.locations
  references s r := Store.nullOr r.parentId fun id => (s.locations.find? id).isSome
  apply_wrap _ _ := rfl
  table_put _ _ := rfl
  put_put _ _ _ := rfl
  put_table _ := rfl

instance : HasTable Store Write BoardPolicy where
  table := Store.boardPolicies
  put s t := { s with boardPolicies := t }
  wrap := Write.boardPolicies
  references s r := s.hasBoard r.boardId && s.hasUser r.createdBy
  apply_wrap _ _ := rfl
  table_put _ _ := rfl
  put_put _ _ _ := rfl
  put_table _ := rfl

instance : HasTable Store Write Card where
  table := Store.cards
  put s t := { s with cards := t }
  wrap := Write.cards
  references s r := s.hasBoard r.boardId && (s.lanes.find? r.laneId).isSome && s.hasUser r.reporterId &&
    Store.nullOr r.assigneeId s.hasUser && Store.nullOr r.locationId fun id => (s.locations.find? id).isSome
  apply_wrap _ _ := rfl
  table_put _ _ := rfl
  put_put _ _ _ := rfl
  put_table _ := rfl

instance : HasTable Store Write Tag where
  table := Store.tags
  put s t := { s with tags := t }
  wrap := Write.tags
  references _ _ := true
  apply_wrap _ _ := rfl
  table_put _ _ := rfl
  put_put _ _ _ := rfl
  put_table _ := rfl

instance : HasTable Store Write CardTag where
  table := Store.cardTags
  put s t := { s with cardTags := t }
  wrap := Write.cardTags
  references s r := s.hasCard r.cardId && (s.tags.find? r.tagId).isSome
  apply_wrap _ _ := rfl
  table_put _ _ := rfl
  put_put _ _ _ := rfl
  put_table _ := rfl

instance : HasTable Store Write Comment where
  table := Store.comments
  put s t := { s with comments := t }
  wrap := Write.comments
  references s r := s.hasCard r.cardId && s.hasUser r.authorId &&
    Store.nullOr r.parentCommentId fun id => (s.comments.find? id).isSome
  apply_wrap _ _ := rfl
  table_put _ _ := rfl
  put_put _ _ _ := rfl
  put_table _ := rfl

instance : HasTable Store Write Attachment where
  table := Store.attachments
  put s t := { s with attachments := t }
  wrap := Write.attachments
  references s r := s.hasCard r.cardId && s.hasUser r.uploadedBy
  apply_wrap _ _ := rfl
  table_put _ _ := rfl
  put_put _ _ _ := rfl
  put_table _ := rfl

instance : HasTable Store Write CardEvent where
  table := Store.cardEvents
  put s t := { s with cardEvents := t }
  wrap := Write.cardEvents
  references s r := s.hasCard r.cardId
  apply_wrap _ _ := rfl
  table_put _ _ := rfl
  put_put _ _ _ := rfl
  put_table _ := rfl

instance : HasTable Store Write Session where
  table := Store.sessions
  put s t := { s with sessions := t }
  wrap := Write.sessions
  references s r := s.hasUser r.userId
  apply_wrap _ _ := rfl
  table_put _ _ := rfl
  put_put _ _ _ := rfl
  put_table _ := rfl

instance : HasTable Store Write ServiceToken where
  table := Store.serviceTokens
  put s t := { s with serviceTokens := t }
  wrap := Write.serviceTokens
  references s r := s.hasUser r.createdBy
  apply_wrap _ _ := rfl
  table_put _ _ := rfl
  put_put _ _ _ := rfl
  put_table _ := rfl

instance : HasTable Store Write OAuthAuthorizationCode where
  table := Store.oauthAuthorizationCodes
  put s t := { s with oauthAuthorizationCodes := t }
  wrap := Write.oauthAuthorizationCodes
  references s r := s.hasUser r.userId
  apply_wrap _ _ := rfl
  table_put _ _ := rfl
  put_put _ _ _ := rfl
  put_table _ := rfl

instance : HasTable Store Write OAuthAccessToken where
  table := Store.oauthAccessTokens
  put s t := { s with oauthAccessTokens := t }
  wrap := Write.oauthAccessTokens
  references s r := s.hasUser r.userId
  apply_wrap _ _ := rfl
  table_put _ _ := rfl
  put_put _ _ _ := rfl
  put_table _ := rfl

instance : HasTable Store Write OAuthRefreshToken where
  table := Store.oauthRefreshTokens
  put s t := { s with oauthRefreshTokens := t }
  wrap := Write.oauthRefreshTokens
  references s r := s.hasUser r.userId
  apply_wrap _ _ := rfl
  table_put _ _ := rfl
  put_put _ _ _ := rfl
  put_table _ := rfl

instance : HasTable Store Write CardRelation where
  table := Store.cardRelations
  put s t := { s with cardRelations := t }
  wrap := Write.cardRelations
  references s r := s.hasCard r.fromCardId && s.hasCard r.toCardId
  apply_wrap _ _ := rfl
  table_put _ _ := rfl
  put_put _ _ _ := rfl
  put_table _ := rfl

instance : HasTable Store Write CardWatcher where
  table := Store.cardWatchers
  put s t := { s with cardWatchers := t }
  wrap := Write.cardWatchers
  references s r := s.hasCard r.cardId && s.hasUser r.userId
  apply_wrap _ _ := rfl
  table_put _ _ := rfl
  put_put _ _ _ := rfl
  put_table _ := rfl

instance : HasTable Store Write Notification where
  table := Store.notifications
  put s t := { s with notifications := t }
  wrap := Write.notifications
  references s r := s.hasUser r.userId && s.hasCard r.cardId
  apply_wrap _ _ := rfl
  table_put _ _ := rfl
  put_put _ _ _ := rfl
  put_table _ := rfl

end foreignKeys

section frames

/-- The named table is the same in both stores. -/
def Store.SameTable (name : TableName) (s s' : Store) : Prop :=
  match name with
  | .users => s'.users = s.users
  | .boards => s'.boards = s.boards
  | .boardDefaults => s'.boardDefaults = s.boardDefaults
  | .groups => s'.groups = s.groups
  | .lanes => s'.lanes = s.lanes
  | .locations => s'.locations = s.locations
  | .boardPolicies => s'.boardPolicies = s.boardPolicies
  | .cards => s'.cards = s.cards
  | .tags => s'.tags = s.tags
  | .cardTags => s'.cardTags = s.cardTags
  | .comments => s'.comments = s.comments
  | .attachments => s'.attachments = s.attachments
  | .cardEvents => s'.cardEvents = s.cardEvents
  | .sessions => s'.sessions = s.sessions
  | .serviceTokens => s'.serviceTokens = s.serviceTokens
  | .oauthAuthorizationCodes => s'.oauthAuthorizationCodes = s.oauthAuthorizationCodes
  | .oauthAccessTokens => s'.oauthAccessTokens = s.oauthAccessTokens
  | .oauthRefreshTokens => s'.oauthRefreshTokens = s.oauthRefreshTokens
  | .cardRelations => s'.cardRelations = s.cardRelations
  | .cardWatchers => s'.cardWatchers = s.cardWatchers
  | .notifications => s'.notifications = s.notifications

theorem Store.SameTable.refl (name : TableName) (s : Store) : s.SameTable name s := by
  cases name <;> rfl

theorem Store.SameTable.trans {name : TableName} {s s' s'' : Store} (h : s.SameTable name s')
    (h' : s'.SameTable name s'') : s.SameTable name s'' := by
  cases name <;> exact Eq.trans h' h

/-- A write to another table leaves this one alone. -/
theorem sameTable_apply (s : Store) {x : Write} {name : TableName} (h : x.tableName ≠ name) :
    s.SameTable name (Replay.apply s x) := by
  cases x <;> cases name <;> first | exact absurd rfl h | rfl

theorem sameTable_replay (s : Store) {log : List Write} {name : TableName}
    (h : ∀ x ∈ log, x.tableName ≠ name) : s.SameTable name (replay s log) := by
  induction log generalizing s with
  | nil => exact .refl name s
  | cons x log ih =>
    have hx := sameTable_apply s (h x (by simp))
    exact hx.trans (ih (Replay.apply s x) fun y hy => h y (by simp [hy]))

end frames
end AiKanban.Db
