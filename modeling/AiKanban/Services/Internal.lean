import AiKanban.Db.Repositories
import AiKanban.Policy.PolicyEngine

/-!
# Helpers shared by the services
-/
namespace AiKanban.Services

open Domain Db Policy Relational Transactions

def requireFound {α : Type} (value : Option α) (resource : String) : Tx α :=
  .require value (.notFound resource)

/-- Archived cards are read-only except reopen. -/
def ensureNotArchived (card : Card) : Tx Unit := .ensure card.archivedAt.isNone .archived

/-- Optimistic lock: a stale expected version conflicts, with the current card. -/
def ensureVersion (card : Card) (expectedVersion : ℕ) : Tx Unit :=
  .ensure (card.version == expectedVersion) (.conflict "stale expectedVersion" (some card))

/-- Turns a policy-engine decision into its typed error. -/
def decidePolicy : PolicyDecision → Tx Unit
  | .allow => pure ()
  | .illegalTransition fromLane toLane => .throw (.illegalTransition fromLane toLane)
  | .denied rule => .throw (.policyDenied rule)

/-- The initial board remains the global role authority, including after archival. -/
def globalPolicy : Tx PolicyDocument := do
  let board ← requireFound (← BoardRepository.getDefault) "default board"
  return (← requireFound (← PolicyRepository.getActive board.id) "policy").config

/-- The board's newest document under the global roles. -/
def activePolicy (boardId : Uuid) : Tx PolicyDocument := do
  let own ← requireFound (← PolicyRepository.getActive boardId) "policy"
  return { own.config with roles := (← globalPolicy).roles }

def laneByKey (boardId : Uuid) (key : LaneKey) : Tx Lane := do
  requireFound (← LaneRepository.findByKey boardId key) ("lane " ++ key)

/-- The board's entry lane: the first column by position. -/
def firstLane (boardId : Uuid) : Tx Lane := do
  requireFound (← LaneRepository.listByBoard boardId).head? "lane"

def laneOfCard (card : Card) : Tx Lane := do
  requireFound ((← LaneRepository.listByBoard card.boardId).find? fun l => l.id == card.laneId) "lane"

/-- The event envelope; `agent` actors leave their client's name on it. -/
def envelope (actor : Actor) (cardId : ℕ) (body : CardEventBody) (id : Uuid) (createdAt : Instant) :
    CardEvent where
  id := id
  cardId := cardId
  actorId := if actor.kind = .system then none else some actor.id
  actorKind := actor.kind
  actorLabel := if actor.kind = .agent then actor.client.map (·.name) else none
  createdAt := createdAt
  body := body

def makeEvent (actor : Actor) (cardId : ℕ) (body : CardEventBody) : Tx CardEvent := do
  let id ← newId
  let createdAt ← clockNow
  return envelope actor cardId body id createdAt

section tags

variable [Platform]

/-- Names already resolved under one fold, with their tags. -/
structure ResolvedTags where
  resolved : List Tag := []
  seen : List String := []

def resolveTag (acc : ResolvedTags) (name : String) : Tx ResolvedTags :=
  let ci := Platform.toLowerCase name
  if acc.seen.contains ci then pure acc
  else do
    match ← TagRepository.findByNameCi name with
    | some existing => return ⟨acc.resolved ++ [existing], ci :: acc.seen⟩
    | none =>
        let tag : Tag := ⟨← newId, name⟩
        TagRepository.insert tag
        return ⟨acc.resolved ++ [tag], ci :: acc.seen⟩

/-- Tag rows for names: existing ones by case-insensitive match, unknown ones created. -/
def resolveTags (names : List String) : Tx (List Tag) := do
  return (← Program.foldM resolveTag {} names).resolved

def normalizeTagNames (names : List String) : List String :=
  ascendingBy id (names.map Platform.toLowerCase).dedup

/-- Case-insensitive set equality for tag names. -/
def sameTagSet (a b : List String) : Bool := normalizeTagNames a == normalizeTagNames b

end tags

/-- The units of work an operation may go through: the next one runs when the position
backstop fires. -/
structure Attempts (α : Type) where
  first : Tx α
  rest : List (Tx α) := []

def isDuplicatePosition : DomainError → Bool
  | .duplicatePosition => true
  | _ => false

/-- Runs the body, once more when the position backstop fires; a second violation
surfaces as a conflict carrying the current card, read in a fresh unit of work. -/
def runWithPositionRetry {α : Type} (body : Tx α) (currentCard : Tx (Option Card)) : Attempts α where
  first := body
  rest := [body, do
    let current ← currentCard
    .throw (.conflict "position conflict persisted after retry" current)]

/-- Run an operation with no other in between. -/
def Attempts.perform {α : Type} (attempts : Attempts α) (w : World Store Tick) :
    Except DomainError α × World Store Tick :=
  attempt isDuplicatePosition attempts.first attempts.rest w

/-- The worlds after each unit of work the operation goes through. -/
def Attempts.units {α : Type} (attempts : Attempts α) (w : World Store Tick) :
    List (World Store Tick) :=
  attemptUnits isDuplicatePosition attempts.first attempts.rest w

end AiKanban.Services
