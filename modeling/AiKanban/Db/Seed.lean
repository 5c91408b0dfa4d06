import AiKanban.Services.BoardService

/-!
# Seeding

The structural seed of every boot, and a world seeded from an empty database.
-/
namespace AiKanban.Db

open Domain Relational Services Transactions

structure StructuralSeedResult where
  boardId : Uuid
  systemUserId : Uuid
  deriving DecidableEq

def systemUserEmail : String := "system@rivian-kanban.local"
def placeholderPasswordHash : String := "!placeholder:not-a-valid-argon2id-hash!"

/-- The flagged board if one exists, else the oldest one. -/
def seedBoard : Tx (Option Board) :=
  .read fun v => match v.boards.rows.find? (·.isDefault) with
    | some board => some board
    | none => (newestFirst (·.createdAt) (·.id) v.boards.rows).getLast?

/-- The original board; its lanes are seeded with it and never again. -/
def seedNewBoard (now : Instant) : Tx Board := do
  let board : Board := {
    id := ← newId, name := "Facilities", isDefault := true, archivedAt := none
    accessMode := .all, allowedRoleKeys := [], allowedUserIds := [], allowedGroupIds := []
    createdAt := now }
  BoardRepository.insert board
  return board

def seedSystemUser (now : Instant) : Tx User := do
  let found ← .read fun v => v.users.rows.find? fun r : UserCredentials =>
    r.user.email == systemUserEmail
  match found with
  | some row => return row.user
  | none => do
      let user : User := {
        id := ← newId, email := systemUserEmail, displayName := "Automation", role := "admin"
        mustChangePassword := false, slackUserId := none, isActive := true
        timezone := "America/Los_Angeles", theme := .system, createdAt := now }
      UserAccountRepository.insert user placeholderPasswordHash
      return user

def seedPolicy (boardId userId : Uuid) (now : Instant) : Tx Unit := do
  let existing ← .read fun v => v.boardPolicies.rows.any fun p => p.boardId == boardId
  if existing then pure ()
  else do
    PolicyRepository.insert {
      id := ← newId, boardId, config := defaultPolicyDocument, createdBy := userId
      createdAt := now }

/-- Board, lanes, the default permissive policy and the automation user. -/
def structuralSeed : Tx StructuralSeedResult := do
  let now ← clockNow
  let existing ← seedBoard
  let board ← match existing with
    | some board => pure board
    | none => seedNewBoard now
  let system ← seedSystemUser now
  if existing.isNone then
    Program.forEach (BoardService.insertDefaultLane board.id) defaultLanes.zipIdx
  seedPolicy board.id system.id now
  return ⟨board.id, system.id⟩

/-- An empty database after its first boot. -/
def freshlySeeded (inputs : ℕ → Tick) : World Store Tick :=
  (transact structuralSeed ⟨{}, inputs, 0⟩).2

/-- A second per reading of the clock, and identifiers in drawing order. -/
def sampleTicks (n : ℕ) : Tick := ⟨1000 * n, 100 + n, n + 1⟩

/-- The board of a database seeded from `sampleTicks`, and its automation user. -/
def sampleSeed : StructuralSeedResult := ⟨101, 102⟩

def sampleActor : Actor := { kind := .user, id := sampleSeed.systemUserId, role := "admin" }

example : (exec structuralSeed ⟨{}, sampleTicks, 0⟩).1 = .ok sampleSeed := by decide +kernel

end AiKanban.Db
