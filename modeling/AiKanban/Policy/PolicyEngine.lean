import AiKanban.Domain.Policy

/-!
# The policy engine

Always-on identity rules first, then the role's grants, then the workflow graph
when enforcement is on.
-/
namespace AiKanban.Policy

open Domain

/-- A mutating action plus the context the rules need. -/
inductive PolicyAction where
  | cardCreate
  | cardUpdate
  | cardMove (fromLane toLane : LaneKey)
  | cardReorder (lane : LaneKey)
  | cardCancel
  | cardReopen
  | cardArchive
  | cardDelete (reporterId : Uuid)
  | cardBlock
  | cardUnblock
  | commentAdd
  | commentEdit (authorId : Uuid)
  | commentDelete (authorId : Uuid)
  | attachmentAdd
  | attachmentRemove (uploaderId : Uuid)
  | manageUsers
  | manageRoles
  | manageLocations
  | manageLanes
  | managePolicy
  | manageTokens
  deriving DecidableEq

inductive PolicyDecision where
  | allow
  | denied (rule : String)
  | illegalTransition (fromLane toLane : LaneKey)
  deriving DecidableEq

def readScopeRule : String := "token-scope-read"
def commentAuthorRule : String := "comment-author-only"

/-- Does the actor's role, matched by key, grant the permission? -/
def grant (actor : Actor) (perm : Permission) (policy : PolicyDocument) : PolicyDecision :=
  match policy.roles.find? fun candidate => candidate.key == actor.role with
  | some role =>
      if role.permissions.contains perm then .allow else .denied ("permission:" ++ perm.name)
  | none => .denied ("permission:" ++ perm.name)

/-- Read-capability predicate; unlike the write path it admits read-scope tokens. -/
def hasPermission (actor : Actor) (perm : Permission) (policy : PolicyDocument) : Bool :=
  actor.kind == .system || grant actor perm policy == .allow

/-- Guard for a manage surface. -/
def ensurePermission (actor : Actor) (perm : Permission) (policy : PolicyDocument) :
    Except DomainError Unit :=
  if actor.kind = .system then .ok ()
  else if actor.scope = some .read then .error (.policyDenied readScopeRule)
  else match grant actor perm policy with
    | .denied rule => .error (.policyDenied rule)
    | _ => .ok ()

/-- Topology-only check when enforcement is on. -/
def checkTransition (policy : PolicyDocument) (fromLane toLane : LaneKey) : PolicyDecision :=
  if !policy.transitionEnforcement then .allow
  else if policy.transitions.any fun edge => edge.fromLane == fromLane && edge.toLane == toLane then
    .allow
  else .illegalTransition fromLane toLane

/-- May the actor perform the action under the policy? -/
def evaluatePolicy (actor : Actor) (action : PolicyAction) (policy : PolicyDocument) :
    PolicyDecision :=
  if actor.kind = .system then .allow
  else if actor.scope = some .read then .denied readScopeRule
  else match action with
    | .commentEdit authorId => if actor.id = authorId then .allow else .denied commentAuthorRule
    | .commentDelete authorId =>
        if actor.id = authorId then .allow else grant actor .commentDeleteOthers policy
    | .attachmentRemove uploaderId =>
        if actor.id = uploaderId then .allow else grant actor .attachmentDeleteOthers policy
    | .cardDelete reporterId =>
        if actor.id = reporterId then .allow else .denied "card-owner-only"
    | .cardCancel => grant actor .cardCancel policy
    | .cardReopen => grant actor .cardReopen policy
    | .cardArchive => grant actor .cardArchive policy
    | .cardReorder _ => grant actor .cardMove policy
    | .cardMove fromLane toLane =>
        match grant actor .cardMove policy with
        | .allow => checkTransition policy fromLane toLane
        | decision => decision
    | .cardCreate => grant actor .cardCreate policy
    | .cardUpdate => grant actor .cardUpdate policy
    | .cardBlock => grant actor .cardBlock policy
    | .cardUnblock => grant actor .cardUnblock policy
    | .commentAdd => grant actor .commentAdd policy
    | .attachmentAdd => grant actor .attachmentAdd policy
    | .manageUsers => grant actor .manageUsers policy
    | .manageRoles => grant actor .manageRoles policy
    | .manageLocations => grant actor .manageLocations policy
    | .manageLanes => grant actor .manageLanes policy
    | .managePolicy => grant actor .managePolicy policy
    | .manageTokens => grant actor .manageTokens policy

end AiKanban.Policy
