import AiKanban.Db.CardRepository

/-!
# The other repositories

The statements of each repository, under its own name.
-/
namespace AiKanban.Db

open Domain Relational Transactions

namespace UserRepository

def findById (id : Uuid) : Tx (Option User) := .read fun v => (v.users.find? id).map (·.user)

end UserRepository

namespace UserAccountRepository

def list : Tx (List User) :=
  .read fun v => (newestFirst (·.createdAt) (·.id) (v.users.rows.map (·.user))).reverse

def emailInUse : DomainError := .conflict "email already in use" none

def insert (user : User) (passwordHash : String) : Tx Unit :=
  insertRow (⟨user, passwordHash⟩ : UserCredentials) (fun _ => emailInUse) danglingReference

/-- Every profile column; never the hash, nor the creation time. -/
def update (user : User) : Tx Unit :=
  modifyRow user.id
    (fun row : UserCredentials => { row with user := { user with createdAt := row.user.createdAt } })
    (.notFound "user") emailInUse danglingReference

def setPassword (userId : Uuid) (passwordHash : String) (mustChangePassword : Bool) : Tx Unit :=
  modifyRow userId
    (fun row : UserCredentials => ⟨{ row.user with mustChangePassword }, passwordHash⟩)
    (.notFound "user") uniqueViolation danglingReference

end UserAccountRepository

namespace SessionRepository

/-- Every session of the user except one; all of them when none is spared. -/
def revokeOthersForUser (userId : Uuid) (exceptIdHash : Option String) : Tx Unit :=
  deleteWhere fun r : Session => r.userId == userId && exceptIdHash.all (· != r.id)

end SessionRepository

namespace ServiceTokenRepository

def list : Tx (List ServiceToken) :=
  .read fun v => newestFirst (·.createdAt) (·.id) v.serviceTokens.rows

end ServiceTokenRepository

namespace OAuthRepositories

def revokeCodesForUser (userId : Uuid) : Tx Unit :=
  deleteWhere fun r : OAuthAuthorizationCode => r.userId == userId

def revokeAccessTokensForUser (userId : Uuid) : Tx Unit := do
  let now ← clockNow
  modifyWhere (fun r : OAuthAccessToken => r.userId == userId && r.revokedAt.isNone)
    fun r => { r with revokedAt := some now }

def revokeRefreshTokensForUser (userId : Uuid) : Tx Unit := do
  let now ← clockNow
  modifyWhere (fun r : OAuthRefreshToken => r.userId == userId && r.revokedAt.isNone)
    fun r => { r with revokedAt := some now }

end OAuthRepositories

namespace BoardRepository

def findById (id : Uuid) : Tx (Option Board) := selectKey id

/-- The permanently-flagged default board, present even if archived. -/
def getDefault : Tx (Option Board) := .read fun v => v.boards.rows.find? (·.isDefault)

/-- Active boards, oldest first. -/
def list : Tx (List Board) :=
  .read fun v =>
    (newestFirst (·.createdAt) (·.id) (v.boards.rows.filter (·.archivedAt.isNone))).reverse

def insert (board : Board) : Tx Unit := insertRow board (fun _ => uniqueViolation) danglingReference

/-- A missing board is no error: the statement touches no row. -/
def update (board : Board) : Tx Unit :=
  modifyWhere (fun r : Board => r.id == board.id) fun _ => board

/-- Admin defaults plus one user's preference, without other users' preferences. -/
def listDefaults (userId : Option Uuid) : Tx (List BoardDefault) :=
  selectWhere fun r => match r.subject, userId with
    | .user id, some u => id == u
    | .user _, none => false
    | _, _ => true

def setDefault (subject : DefaultSubject) : Option Uuid → Tx Unit
  | none => deleteWhere fun r : BoardDefault => r.subject == subject
  | some boardId => upsertRow (⟨subject, boardId⟩ : BoardDefault) danglingReference

end BoardRepository

namespace GroupRepository

def list : Tx (List Group) := .read fun v => ascendingBy (·.name) v.groups.rows

def findById (id : Uuid) : Tx (Option Group) := selectKey id

def nameInUse : DomainError := .conflict "group name already exists" none

def insert (group : Group) : Tx Unit := insertRow group (fun _ => nameInUse) danglingReference

def update (group : Group) : Tx Unit :=
  modifyRow group.id (fun _ => group) (.notFound "group") nameInUse danglingReference

def remove (id : Uuid) : Tx Unit := deleteWhere fun r : Group => r.id == id

end GroupRepository

namespace LaneRepository

def boardLanes (v : Store) (boardId : Uuid) : List Lane :=
  ascendingBy (·.position) (v.lanes.rows.filter fun l => l.boardId == boardId)

/-- Board order. -/
def listByBoard (boardId : Uuid) : Tx (List Lane) := .read fun v => boardLanes v boardId

def laneWithKey (v : Store) (boardId : Uuid) (key : LaneKey) : Option Lane :=
  v.lanes.rows.find? fun l => l.boardId == boardId && l.key == key

def findByKey (boardId : Uuid) (key : LaneKey) : Tx (Option Lane) :=
  .read fun v => laneWithKey v boardId key

/-- Label and WIP-limit edits. -/
def update (lane : Lane) : Tx Unit :=
  modifyRow lane.id (fun r : Lane => { r with label := lane.label, wipLimit := lane.wipLimit })
    (.notFound "lane") uniqueViolation danglingReference

def insert (lane : Lane) : Tx Unit := insertRow lane (fun _ => uniqueViolation) danglingReference

/-- A card that still points at the lane stands against its deletion. -/
def remove (laneId : Uuid) : Tx Unit :=
  .write fun v =>
    match v.lanes.find? laneId with
    | none => .error (.notFound "lane")
    | some lane =>
        if v.cards.rows.any fun c => c.laneId == laneId then
          .error (.conflict "lane still has cards" none)
        else .ok [.lanes (.delete lane)]

/-- One `UPDATE` per lane, the position being the lane's place in the list. -/
def reorder (boardId : Uuid) (orderedIds : List Uuid) : Tx Unit :=
  Program.forEach
    (fun p : Uuid × ℕ => modifyWhere (fun r : Lane => r.boardId == boardId && r.id == p.1)
      fun r => { r with position := p.2 })
    orderedIds.zipIdx

end LaneRepository

namespace LocationRepository

def findById (id : Uuid) : Tx (Option Location) := selectKey id

/-- The stored kinds sort in this order. -/
def kindOrder : LocationKind → ℕ
  | .building => 0
  | .floor => 1
  | .room => 2

/-- Every row, in the order of kind, name and id; each sort keeps the one before it. -/
def listed (v : Store) : List Location :=
  ascendingBy (fun l => kindOrder l.kind)
    (ascendingBy (·.name) (ascendingBy (·.id) v.locations.rows))

def list : Tx (List Location) := .read listed

def insert (location : Location) : Tx Unit :=
  insertRow location (fun _ => uniqueViolation) danglingReference

def update (location : Location) : Tx Unit :=
  modifyRow location.id (fun _ => location) (.notFound "location") uniqueViolation danglingReference

/-- Breadth-first levels below a frontier, deepest first; every round adds a row not
yet visited, so as many rounds as there are locations are enough. -/
def expand (locations : List Location) : ℕ → List Uuid → List Uuid → List Uuid
  | 0, _, _ => []
  | fuel + 1, visited, frontier =>
      let children := (locations.filter fun l =>
        l.parentId.any (frontier.contains ·) && !visited.contains l.id).map (·.id)
      if children.isEmpty then []
      else expand locations fuel (children ++ visited) children ++ children

/-- The subtree ids rooted at `id`, children before parents. -/
def collectSubtree (locations : List Location) (id : Uuid) : List Uuid :=
  expand locations locations.length [id] [id] ++ [id]

/-- Deletes the whole subtree; a card that referenced a removed node loses the reference. -/
def delete (id : Uuid) : Tx Unit := do
  let found ← findById id
  let _ ← Program.require found (.notFound "location")
  let subtreeIds ← .read fun v => collectSubtree v.locations.rows id
  modifyWhere (fun c : Card => c.locationId.any (subtreeIds.contains ·))
    fun c => { c with locationId := none }
  Program.forEach (fun subtreeId => deleteWhere fun r : Location => r.id == subtreeId) subtreeIds

end LocationRepository

namespace TagRepository

/-- The name column is NOCASE. -/
def findByNameCi (name : String) : Tx (Option Tag) :=
  .read fun v => v.tags.rows.find? fun t => asciiLower t.name == asciiLower name

def insert (tag : Tag) : Tx Unit := insertRow tag (fun _ => uniqueViolation) danglingReference

/-- The card's tags in stored form, by name. -/
def cardTagRows (v : Store) (cardId : ℕ) : List Tag :=
  ascendingBy (fun t => asciiLower t.name)
    ((v.cardTags.rows.filter fun r => r.cardId == cardId).filterMap fun r => v.tags.find? r.tagId)

def listByCard (cardId : ℕ) : Tx (List Tag) := .read fun v => cardTagRows v cardId

/-- Full replacement of the card's tag rows. -/
def setCardTags (cardId : ℕ) (tagIds : List Uuid) : Tx Unit := do
  deleteWhere fun r : CardTag => r.cardId == cardId
  Program.forEach
    (fun tagId => insertRow (⟨cardId, tagId⟩ : CardTag) (fun _ => uniqueViolation) danglingReference)
    tagIds

end TagRepository

namespace CommentRepository

def findById (id : Uuid) : Tx (Option Comment) := selectKey id

def insert (comment : Comment) : Tx Unit :=
  insertRow comment (fun _ => uniqueViolation) danglingReference

def update (comment : Comment) : Tx Unit :=
  modifyRow comment.id (fun _ => comment) (.notFound "comment") uniqueViolation danglingReference

def listByCard (cardId : ℕ) : Tx (List Comment) :=
  .read fun v =>
    (newestFirst (·.createdAt) (·.id) (v.comments.rows.filter fun c => c.cardId == cardId)).reverse

end CommentRepository

namespace AttachmentRepository

def findById (id : Uuid) : Tx (Option Attachment) := selectKey id

def insert (attachment : Attachment) : Tx Unit :=
  insertRow attachment (fun _ => uniqueViolation) danglingReference

def update (attachment : Attachment) : Tx Unit :=
  modifyRow attachment.id (fun _ => attachment) (.notFound "attachment") uniqueViolation
    danglingReference

def listByCard (cardId : ℕ) : Tx (List Attachment) :=
  .read fun v =>
    (newestFirst (·.createdAt) (·.id)
      (v.attachments.rows.filter fun a => a.cardId == cardId)).reverse

end AttachmentRepository

namespace PolicyRepository

/-- The newest version of the board's policy. -/
def newest (v : Store) (boardId : Uuid) : Option BoardPolicy :=
  (newestFirst (·.createdAt) (·.id)
    (v.boardPolicies.rows.filter fun p => p.boardId == boardId)).head?

def getActive (boardId : Uuid) : Tx (Option BoardPolicy) := .read fun v => newest v boardId

def insert (policy : BoardPolicy) : Tx Unit :=
  insertRow policy (fun _ => uniqueViolation) danglingReference

end PolicyRepository

namespace EventRepository

/-- Append-only. -/
def append (event : CardEvent) : Tx Unit :=
  insertRow event (fun _ => uniqueViolation) danglingReference

/-- The newest events of a card of the given types, newest first. -/
def latest (v : Store) (cardId : ℕ) (types : List CardEventType) : List CardEvent :=
  newestFirst (·.createdAt) (·.id) (v.cardEvents.rows.filter fun e =>
    e.cardId == cardId && types.contains e.body.eventType)

/-- `listLatestByCard` with a limit of one. -/
def latestByCard (cardId : ℕ) (types : List CardEventType) : Tx (Option CardEvent) :=
  .read fun v => (latest v cardId types).head?

end EventRepository

namespace CardRelationRepository

def findById (id : Uuid) : Tx (Option CardRelation) := selectKey id

def listByCard (cardId : ℕ) : Tx (List CardRelation) :=
  .read fun v => newestFirst (·.createdAt) (·.id)
    (v.cardRelations.rows.filter fun r => r.fromCardId == cardId || r.toCardId == cardId)

def exists' (fromCardId toCardId : ℕ) (type : RelationType) : Tx Bool :=
  .read fun v => v.cardRelations.rows.any fun r =>
    r.fromCardId == fromCardId && r.toCardId == toCardId && r.type == type

def insert (relation : CardRelation) : Tx Unit :=
  insertRow relation (fun _ => uniqueViolation) danglingReference

def delete (id : Uuid) : Tx Unit := deleteWhere fun r : CardRelation => r.id == id

end CardRelationRepository

namespace CardWatcherRepository

/-- Idempotent: watching twice is a no-op. -/
def add (cardId : ℕ) (userId : Uuid) (createdAt : Instant) : Tx Unit :=
  insertOrIgnore (⟨cardId, userId, createdAt⟩ : CardWatcher) danglingReference

def remove (cardId : ℕ) (userId : Uuid) : Tx Unit :=
  deleteWhere fun r : CardWatcher => r.cardId == cardId && r.userId == userId

end CardWatcherRepository

namespace NotificationRepository

def insert (notification : Notification) : Tx Unit :=
  insertRow notification (fun _ => uniqueViolation) danglingReference

end NotificationRepository
end AiKanban.Db
