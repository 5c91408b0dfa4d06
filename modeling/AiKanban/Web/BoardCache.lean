import Mathlib.Data.Option.Basic
import AiKanban.Domain.Commands
import AiKanban.Domain.Envelopes

/-!
# Moves on the cached board

A move names its place by the cards next to it. The web client makes such intents from drops and
from menus, applies them to the board it has at once, and keeps the inverse of each.
-/
namespace AiKanban.Web

open Domain

abbrev BoardResponse := BoardSnapshot

/-- The move command without the version, which goes into a header. -/
structure MoveIntent where
  toLane : LaneKey
  prevCardId : Option ℕ
  nextCardId : Option ℕ
  waitingReason : Option WaitingReason := none
  expectedResumeAt : Option Day := none
deriving DecidableEq

/-- The command the server gets, of the version the header names. -/
def MoveIntent.ifMatch (intent : MoveIntent) (version : ℕ) : MoveCardInput where
  toLane := intent.toLane
  prevCardId := intent.prevCardId
  nextCardId := intent.nextCardId
  waitingReason := intent.waitingReason
  expectedResumeAt := intent.expectedResumeAt
  expectedVersion := version

def isWaitingLane (key : LaneKey) : Bool := key = "waiting_parts_vendor"

/-- `cards[index]?.id ?? null` -/
def idAt (cards : List BoardCard) (index : ℕ) : Option ℕ := cards[index]?.map (·.id)

/-- `cards[index - 1]?.id ?? null` -/
def idBefore (cards : List BoardCard) : ℕ → Option ℕ
  | 0 => none
  | index + 1 => idAt cards index

def insertBetweenNeighbors (cards : List BoardCard) (card : BoardCard)
    (prevCardId nextCardId : Option ℕ) : List BoardCard :=
  match prevCardId.bind fun id => cards.findIdx? (·.id = id) with
  | some at' => cards.take (at' + 1) ++ card :: cards.drop (at' + 1)
  | none =>
    match nextCardId.bind fun id => cards.findIdx? (·.id = id) with
    | some at' => cards.take at' ++ card :: cards.drop at'
    | none => if prevCardId = none ∧ nextCardId ≠ none then card :: cards else cards ++ [card]

/-- The cards of a lane once another card has gone, with that card when it goes there. -/
def cardsAfter (snapshot : LaneSnapshot) (movedCard : BoardCard) (cardId : ℕ)
    (intent : MoveIntent) : List BoardCard :=
  let withoutCard := snapshot.cards.filter (·.id ≠ cardId)
  if snapshot.lane.key = intent.toLane then
    insertBetweenNeighbors withoutCard movedCard intent.prevCardId intent.nextCardId
  else withoutCard

/-- The moved card, with waiting fields only in the waiting lane. -/
def movedTo (moving : BoardCard) (targetLane : Lane) (intent : MoveIntent) : BoardCard :=
  { moving with
    laneId := targetLane.id
    waitingReason := if isWaitingLane intent.toLane then intent.waitingReason else none
    expectedResumeAt := if isWaitingLane intent.toLane then intent.expectedResumeAt else none }

def applyMoveToBoard (board : BoardResponse) (cardId : ℕ) (intent : MoveIntent) : BoardResponse :=
  match (board.lanes.flatMap (·.cards)).find? (·.id = cardId),
      board.lanes.find? (·.lane.key = intent.toLane) with
  | some moving, some targetLane =>
    let movedCard := movedTo moving targetLane.lane intent
    { lanes := board.lanes.map fun snapshot =>
        let cards := cardsAfter snapshot movedCard cardId intent
        { snapshot with
          cards
          wipLimitExceeded := snapshot.lane.wipLimit.any fun limit => decide (limit < cards.length) } }
  | _, _ => board

def laneKeyOfCard (board : BoardResponse) (card : BoardCard) : Option LaneKey :=
  (board.lanes.find? (·.lane.id = card.laneId)).map (·.lane.key)

/-- The intent that takes the card back to its place on the board; a card that waits brings its
waiting fields with it. -/
def restoreIntentForCard (board : BoardResponse) (cardId : ℕ) : Option MoveIntent := do
  let lane ← board.lanes.find? fun snapshot => snapshot.cards.any (·.id = cardId)
  let index ← lane.cards.findIdx? (·.id = cardId)
  let card ← lane.cards[index]?
  let waits := isWaitingLane lane.lane.key && card.waitingReason.isSome
  return {
    toLane := lane.lane.key
    prevCardId := idBefore lane.cards index
    nextCardId := idAt lane.cards (index + 1)
    waitingReason := if waits then card.waitingReason else none
    expectedResumeAt := if waits then card.expectedResumeAt else none }

structure PositionChoice where
  value : String
  label : String
  prevCardId : Option ℕ
  nextCardId : Option ℕ

structure PositionLabels where
  first : String
  last : String

/-- The two ends of a lane. -/
def positionChoices (laneCards : List BoardCard) (movingCardId : ℕ) (labels : PositionLabels) :
    List PositionChoice :=
  let others := laneCards.filter (·.id ≠ movingCardId)
  [{ value := "first", label := labels.first, prevCardId := none, nextCardId := idAt others 0 },
    { value := "last", label := labels.last, prevCardId := idBefore others others.length,
      nextCardId := none }]

inductive Edge where
  | top | right | bottom | left
deriving DecidableEq

/-- Where a card is dropped: on a lane, or over a card of it and near an edge of that card. -/
structure DropTarget where
  laneKey : LaneKey
  overCardId : Option ℕ := none
  edge : Option Edge := none

/-- The place among the other cards of the lane that a drop means; the end when it is over none. -/
def dropIndex (others : List BoardCard) (target : DropTarget) : ℕ :=
  match target.overCardId.bind fun id => others.findIdx? (·.id = id) with
  | some at' => if target.edge = some .top then at' else at' + 1
  | none => others.length

/-- The intent leaves the card between its present neighbors. -/
def isSamePosition (board : BoardResponse) (cardId : ℕ) (intent : MoveIntent) : Bool :=
  match board.lanes.find? (·.lane.key = intent.toLane) with
  | none => false
  | some lane =>
    match lane.cards.findIdx? (·.id = cardId) with
    | none => false
    | some current => intent.prevCardId = idBefore lane.cards current &&
        intent.nextCardId = idAt lane.cards (current + 1)

/-- A drop that changes nothing makes no intent. -/
def moveIntentFromDrop (board : BoardResponse) (cardId : ℕ) (target : DropTarget) :
    Option MoveIntent := do
  guard (target.overCardId ≠ some cardId)
  let lane ← board.lanes.find? (·.lane.key = target.laneKey)
  let others := lane.cards.filter (·.id ≠ cardId)
  let index := dropIndex others target
  let intent : MoveIntent := {
    toLane := target.laneKey
    prevCardId := idBefore others index
    nextCardId := idAt others index }
  guard !isSamePosition board cardId intent
  return intent

/-- What an intent names as neighbors are those of a place among the cards. -/
structure NamesPlace (cards : List BoardCard) (index : ℕ) (prevCardId nextCardId : Option ℕ) :
    Prop where
  bound : index ≤ cards.length
  prev : prevCardId = idBefore cards index
  next : nextCardId = idAt cards index

section places

variable {cards : List BoardCard} {card : BoardCard} {index : ℕ} {prevCardId nextCardId : Option ℕ}

theorem findIdx?_id (hids : (cards.map (·.id)).Nodup) (h : index < cards.length) :
    cards.findIdx? (·.id = cards[index].id) = some index := by
  refine List.findIdx?_eq_some_iff_getElem.mpr ⟨h, by simp, ?_⟩
  intro j hj
  have hj' : j < (cards.map (·.id)).length := by rw [List.length_map]; omega
  have hi' : index < (cards.map (·.id)).length := by rwa [List.length_map]
  have hne : (cards.map (·.id))[j] ≠ (cards.map (·.id))[index] := by
    rw [Ne, hids.getElem_inj_iff]
    omega
  simpa using hne

/-- The card is inserted at the place its neighbors name. -/
theorem insertBetweenNeighbors_eq (hids : (cards.map (·.id)).Nodup)
    (h : NamesPlace cards index prevCardId nextCardId) :
    insertBetweenNeighbors cards card prevCardId nextCardId =
      cards.take index ++ card :: cards.drop index := by
  obtain ⟨hbound, rfl, rfl⟩ := h
  cases index with
  | zero =>
    cases cards with
    | nil => rfl
    | cons first rest => simp [insertBetweenNeighbors, idBefore, idAt, List.findIdx?_cons]
  | succ index =>
    have hlt : index < cards.length := by omega
    have hprev : idBefore cards (index + 1) = some cards[index].id := by simp [idBefore, idAt, hlt]
    simp only [insertBetweenNeighbors, hprev, Option.bind_some, findIdx?_id hids hlt]

/-- Either end of a lane is a place. -/
theorem namesPlace_of_choice {movingCardId : ℕ} {labels : PositionLabels} {choice : PositionChoice}
    (h : choice ∈ positionChoices cards movingCardId labels) :
    ∃ index, NamesPlace (cards.filter (·.id ≠ movingCardId)) index choice.prevCardId
      choice.nextCardId := by
  rcases List.mem_cons.mp h with rfl | h
  · exact ⟨0, Nat.zero_le _, rfl, rfl⟩
  · rw [List.mem_singleton.mp h]
    exact ⟨_, le_rfl, rfl, by simp [idAt]⟩

theorem dropIndex_le {target : DropTarget} : dropIndex cards target ≤ cards.length := by
  unfold dropIndex
  split
  · rename_i at' hat
    obtain ⟨id, -, hfound⟩ := Option.bind_eq_some_iff.mp hat
    obtain ⟨hlt, -⟩ := List.findIdx?_eq_some_iff_getElem.mp hfound
    split_ifs <;> omega
  · exact le_rfl

end places

/-- A drop names a place of the lane it is on. -/
theorem namesPlace_of_drop {board : BoardResponse} {cardId : ℕ} {target : DropTarget}
    {intent : MoveIntent} (h : moveIntentFromDrop board cardId target = some intent) :
    ∃ lane ∈ board.lanes, lane.lane.key = intent.toLane ∧
      ∃ index, NamesPlace (lane.cards.filter (·.id ≠ cardId)) index intent.prevCardId
        intent.nextCardId := by
  simp only [moveIntentFromDrop, Option.bind_eq_bind, Option.bind_eq_some_iff, Option.pure_def,
    Option.some.injEq] at h
  obtain ⟨_, -, lane, hlane, _, -, rfl⟩ := h
  exact ⟨lane, List.mem_of_find?_eq_some hlane, by simpa using List.find?_some hlane, _, dropIndex_le,
    rfl, rfl⟩

end AiKanban.Web
