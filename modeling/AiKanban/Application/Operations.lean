import AiKanban.Services.CardService
import AiKanban.Services.CardCollaboration
import AiKanban.Services.BoardService
import AiKanban.Server.AdminServices

/-!
# Operations and runs

Every operation of the services, one after the other on a world. A run is a list
of operations; an operation that is rejected leaves the store as it was.
-/
namespace AiKanban.Application

open Domain Db Services Server Transactions

inductive CardOperation where
  | create (deps : CardServiceDeps) (actor : Actor) (raw : CreateCardInput)
      (options : CreateCardOptions)
  | update (deps : CardServiceDeps) (actor : Actor) (cardId : ℕ) (raw : UpdateCardInput)
  | move (actor : Actor) (cardId : ℕ) (raw : MoveCardInput)
  | cancel (actor : Actor) (cardId : ℕ) (raw : CancelCardInput)
  | reopen (actor : Actor) (cardId : ℕ) (raw : VersionInput)
  | archive (actor : Actor) (cardId : ℕ) (raw : VersionInput)
  | block (actor : Actor) (cardId : ℕ) (raw : BlockCardInput)
  | unblock (actor : Actor) (cardId : ℕ) (raw : VersionInput)
  | delete (actor : Actor) (cardId expectedVersion : ℕ)
  | archiveExpired (actor : Actor)
  | claimOverdueWaitingAlerts (deps : CardServiceDeps)

inductive CollaborationOperation where
  | addComment (actor : Actor) (cardId : ℕ) (raw : AddCommentInput) (author : Option Uuid)
  | editComment (actor : Actor) (commentId : Uuid) (raw : EditCommentInput)
  | softDeleteComment (actor : Actor) (commentId : Uuid)
  | listComments (actor : Actor) (cardId : ℕ)
  | addAttachment (actor : Actor) (cardId : ℕ) (raw : AddAttachmentInput)
  | getAttachment (actor : Actor) (attachmentId : Uuid)
  | removeAttachment (actor : Actor) (attachmentId : Uuid)
  | createRelation (actor : Actor) (cardId : ℕ) (raw : CreateCardRelationInput)
  | deleteRelation (actor : Actor) (cardId : ℕ) (relationId : Uuid)
  | listRelations (actor : Actor) (cardId : ℕ)

inductive AdministrationOperation where
  | getPolicy (boardId : Uuid)
  | applyPolicy (boardId : Uuid) (actor : Actor) (document : PolicyDocument)
  | createBoard (actor : Actor) (raw : BoardInput)
  | updateBoard (actor : Actor) (boardId : Uuid) (raw : BoardInput)
  | removeBoard (actor : Actor) (boardId : Uuid)
  | setPreference (actor : Actor) (boardId : Option Uuid)
  | saveGroup (actor : Actor) (groupId : Option Uuid) (raw : GroupInput)
  | removeGroup (actor : Actor) (groupId : Uuid)
  | createLane (boardId : Uuid) (actor : Actor) (raw : CreateLaneInput)
  | updateLane (boardId : Uuid) (actor : Actor) (laneId : Uuid) (raw : UpdateLaneInput)
  | removeLane (boardId : Uuid) (actor : Actor) (laneId : Uuid)
  | reorderLanes (boardId : Uuid) (actor : Actor) (raw : ReorderLanesInput)
  | createLocation (boardId : Uuid) (actor : Actor) (raw : CreateLocationInput)
  | updateLocation (boardId : Uuid) (actor : Actor) (locationId : Uuid) (raw : UpdateLocationInput)
  | deleteLocation (boardId : Uuid) (actor : Actor) (locationId : Uuid)
  | createUser (deps : UserAdminServiceDeps) (actor : Actor) (raw : CreateUserInput)
      (temp : TempPassword)
  | updateUser (deps : UserAdminServiceDeps) (actor : Actor) (userId : Uuid)
      (raw : UpdateUserInput) (temp : TempPassword)

inductive Operation where
  | card (op : CardOperation)
  | collaboration (op : CollaborationOperation)
  | administration (op : AdministrationOperation)

/-- What a caller gets back, as far as the card service's callers go on with it. -/
inductive Result where
  | card (card : Card)
  | done
  deriving DecidableEq

/-- Run an operation to its result. -/
def respond {α : Type} (result : α → Result)
    (outcome : Except DomainError α × World Store Tick) :
    Except DomainError Result × World Store Tick :=
  (outcome.1.map result, outcome.2)

section

variable [Platform]

def CollaborationOperation.body : CollaborationOperation → Tx Unit
  | .addComment actor cardId raw author => discard (CommentService.add actor cardId raw author)
  | .editComment actor commentId raw => discard (CommentService.edit actor commentId raw)
  | .softDeleteComment actor commentId => discard (CommentService.softDelete actor commentId)
  | .listComments actor cardId => discard (CommentService.listForCard actor cardId)
  | .addAttachment actor cardId raw => discard (AttachmentService.add actor cardId raw)
  | .getAttachment actor attachmentId => discard (AttachmentService.getActive actor attachmentId)
  | .removeAttachment actor attachmentId => discard (AttachmentService.remove actor attachmentId)
  | .createRelation actor cardId raw => discard (CardRelationService.create actor cardId raw)
  | .deleteRelation actor cardId relationId => CardRelationService.delete actor cardId relationId
  | .listRelations actor cardId => discard (CardRelationService.list actor cardId)

def AdministrationOperation.body : AdministrationOperation → Tx Unit
  | .getPolicy boardId => discard (PolicyService.getActive boardId)
  | .applyPolicy boardId actor document => discard (PolicyService.apply boardId actor document)
  | .createBoard actor raw => discard (BoardService.create actor raw)
  | .updateBoard actor boardId raw => discard (BoardService.update actor boardId raw)
  | .removeBoard actor boardId => BoardService.remove actor boardId
  | .setPreference actor boardId => BoardService.setPreference actor boardId
  | .saveGroup actor groupId raw => discard (BoardService.saveGroup actor groupId raw)
  | .removeGroup actor groupId => BoardService.removeGroup actor groupId
  | .createLane boardId actor raw => discard (LaneAdminService.create boardId actor raw)
  | .updateLane boardId actor laneId raw => discard (LaneAdminService.update boardId actor laneId raw)
  | .removeLane boardId actor laneId => LaneAdminService.remove boardId actor laneId
  | .reorderLanes boardId actor raw => discard (LaneAdminService.reorder boardId actor raw)
  | .createLocation boardId actor raw => discard (LocationAdminService.create boardId actor raw)
  | .updateLocation boardId actor locationId raw =>
      discard (LocationAdminService.update boardId actor locationId raw)
  | .deleteLocation boardId actor locationId => LocationAdminService.delete boardId actor locationId
  | .createUser deps actor raw temp => discard (UserAdminService.create deps actor raw temp)
  | .updateUser deps actor userId raw temp =>
      discard (UserAdminService.update deps actor userId raw temp)

def CardOperation.perform (w : World Store Tick) :
    CardOperation → Except DomainError Result × World Store Tick
  | .create deps actor raw options =>
      respond .card ((CardService.create deps actor raw options).perform w)
  | .update deps actor cardId raw =>
      respond .card ((CardService.update deps actor cardId raw).perform w)
  | .move actor cardId raw => respond .card ((CardService.move actor cardId raw).perform w)
  | .cancel actor cardId raw => respond .card ((CardService.cancel actor cardId raw).perform w)
  | .reopen actor cardId raw => respond .card ((CardService.reopen actor cardId raw).perform w)
  | .archive actor cardId raw => respond .card ((CardService.archive actor cardId raw).perform w)
  | .block actor cardId raw => respond .card ((CardService.block actor cardId raw).perform w)
  | .unblock actor cardId raw => respond .card ((CardService.unblock actor cardId raw).perform w)
  | .delete actor cardId expectedVersion =>
      respond (fun _ => .done) ((CardService.delete actor cardId expectedVersion).perform w)
  | .archiveExpired actor => respond (fun _ => .done) (CardService.archiveExpired actor w)
  | .claimOverdueWaitingAlerts deps =>
      respond (fun _ => .done) ((CardService.claimOverdueWaitingAlerts deps).perform w)

def Operation.perform (w : World Store Tick) :
    Operation → Except DomainError Result × World Store Tick
  | .card op => op.perform w
  | .collaboration op => respond (fun _ => .done) (transact op.body w)
  | .administration op => respond (fun _ => .done) (transact op.body w)

/-- The worlds after each unit of work of the sweep. -/
def archiveEachUnits (actor : Actor) (cutoffIso : Instant) :
    List Card → World Store Tick → List (World Store Tick)
  | [], _ => []
  | candidate :: candidates, w =>
      match transact (CardService.archiveExpiredBody actor cutoffIso candidate) w with
      | (.error _, w') => [w']
      | (.ok _, w') => w' :: archiveEachUnits actor cutoffIso candidates w'

def archiveExpiredUnits (actor : Actor) (w : World Store Tick) : List (World Store Tick) :=
  match transact CardService.expiredCandidates w with
  | (.error _, w') => [w']
  | (.ok (now, candidates), w') =>
      w' :: archiveEachUnits actor (now - CardService.doneArchivalDays * CardService.dayMs)
        candidates w'

def CardOperation.units (w : World Store Tick) : CardOperation → List (World Store Tick)
  | .create deps actor raw options => (CardService.create deps actor raw options).units w
  | .update deps actor cardId raw => (CardService.update deps actor cardId raw).units w
  | .move actor cardId raw => (CardService.move actor cardId raw).units w
  | .cancel actor cardId raw => (CardService.cancel actor cardId raw).units w
  | .reopen actor cardId raw => (CardService.reopen actor cardId raw).units w
  | .archive actor cardId raw => (CardService.archive actor cardId raw).units w
  | .block actor cardId raw => (CardService.block actor cardId raw).units w
  | .unblock actor cardId raw => (CardService.unblock actor cardId raw).units w
  | .delete actor cardId expectedVersion =>
      (CardService.delete actor cardId expectedVersion).units w
  | .archiveExpired actor => archiveExpiredUnits actor w
  | .claimOverdueWaitingAlerts deps => (CardService.claimOverdueWaitingAlerts deps).units w

/-- The worlds after each unit of work an operation goes through. -/
def Operation.units (w : World Store Tick) : Operation → List (World Store Tick)
  | .card op => op.units w
  | .collaboration op => [(transact op.body w).2]
  | .administration op => [(transact op.body w).2]

/-- The world after one operation. -/
def step (w : World Store Tick) (op : Operation) : World Store Tick := (op.perform w).2

/-- The world after a run. -/
def run (w : World Store Tick) (ops : List Operation) : World Store Tick := ops.foldl step w

@[simp] theorem run_nil (w : World Store Tick) : run w [] = w := rfl

@[simp] theorem run_cons (w : World Store Tick) (op : Operation) (ops : List Operation) :
    run w (op :: ops) = run (step w op) ops := rfl

theorem run_append (w : World Store Tick) (ops ops' : List Operation) :
    run w (ops ++ ops') = run (run w ops) ops' :=
  List.foldl_append

/-- Every operation of the run starts in a world that satisfies `P`. -/
def RunsUnder (P : World Store Tick → Operation → Prop) : World Store Tick → List Operation → Prop
  | _, [] => True
  | w, op :: ops => P w op ∧ RunsUnder P (step w op) ops

theorem runsUnder_true {w : World Store Tick} :
    ∀ ops : List Operation, RunsUnder (fun _ _ => True) w ops
  | [] => trivial
  | _ :: ops => ⟨trivial, runsUnder_true ops⟩

theorem runsUnder_of_forall {P : Operation → Prop} {w : World Store Tick} {ops : List Operation}
    (h : ∀ op ∈ ops, P op) : RunsUnder (fun _ op => P op) w ops := by
  induction ops generalizing w with
  | nil => trivial
  | cons op ops ih => exact ⟨h op (by simp), ih fun op' hop' => h op' (by simp [hop'])⟩

theorem runsUnder_append {P : World Store Tick → Operation → Prop} {w : World Store Tick}
    {ops ops' : List Operation} :
    RunsUnder P w (ops ++ ops') ↔ RunsUnder P w ops ∧ RunsUnder P (run w ops) ops' := by
  induction ops generalizing w with
  | nil => simp [RunsUnder]
  | cons op ops ih => simp [RunsUnder, ih, and_assoc]

instance instDecidableRunsUnder {P : World Store Tick → Operation → Prop}
    [∀ w op, Decidable (P w op)] :
    ∀ w ops, Decidable (RunsUnder P w ops)
  | _, [] => inferInstanceAs (Decidable True)
  | w, op :: ops =>
      have := instDecidableRunsUnder (P := P) (step w op) ops
      inferInstanceAs (Decidable (P w op ∧ RunsUnder P (step w op) ops))

/-- An invariant that every admitted operation keeps holds after every admitted run. -/
theorem run_induction {I : World Store Tick → Prop} {P : World Store Tick → Operation → Prop}
    (hstep : ∀ w op, I w → P w op → I (step w op)) :
    ∀ (ops : List Operation) (w : World Store Tick), I w → RunsUnder P w ops → I (run w ops)
  | [], _, hw, _ => hw
  | op :: ops, w, hw, h => run_induction hstep ops (step w op) (hstep w op hw h.1) h.2

end
end AiKanban.Application
