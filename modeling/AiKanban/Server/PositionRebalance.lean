import AiKanban.Services.CardLifecycle

/-!
# The daily position rebalance

Lanes whose longest active key has outgrown the bound get fresh short keys, one
unit of work per lane.
-/
namespace AiKanban.Server

open Domain Db Services Transactions

def rebalanceMaxKeyLength : ℕ := 100

/-- Give each card its key, in lane order. -/
def rekey : List Card → List String → Tx Unit
  | [], _ => pure ()
  | _ :: _, [] => .throw (.failure "generateNKeysBetween returned too few keys")
  | card :: cards, position :: positions => do
      CardRepository.update card { card with position }
      rekey cards positions

variable [Platform]

/-- The unit of work for one lane: true when its keys were rewritten. -/
def rebalanceLane (lane : Lane) : Tx Bool := do
  let cards ← CardRepository.listByLane lane.id true
  if !cards.any fun card => decide (rebalanceMaxKeyLength < utf16Length card.position) then
    return false
  else do
    let last ← CardRepository.edgeOfLane lane.id .last
    let keys ← .ofExcept
      ((Platform.generateNKeysBetween (last.map (·.position)) none cards.length).mapError .failure)
    rekey cards keys
    return true

def rebalanceEach : List Lane → ℕ → World Store Tick → Except DomainError ℕ × World Store Tick
  | [], rebalancedLanes, w => (.ok rebalancedLanes, w)
  | lane :: lanes, rebalancedLanes, w =>
      match transact (rebalanceLane lane) w with
      | (.error e, w') => (.error e, w')
      | (.ok rebalanced, w') =>
          rebalanceEach lanes (if rebalanced then rebalancedLanes + 1 else rebalancedLanes) w'

/-- The lanes are listed in a read of their own. -/
def runPositionRebalance (boardId : Uuid) (w : World Store Tick) :
    Except DomainError ℕ × World Store Tick :=
  match transact (LaneRepository.listByBoard boardId) w with
  | (.error e, w') => (.error e, w')
  | (.ok lanes, w') => rebalanceEach lanes 0 w'

end AiKanban.Server
