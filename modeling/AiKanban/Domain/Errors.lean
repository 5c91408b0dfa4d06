import AiKanban.Domain.Entities

/-!
# Domain errors

The typed errors of the services and of the repositories below them.
-/
namespace AiKanban.Domain

inductive DomainError where
  | policyDenied (rule : String)
  | illegalTransition (fromLane toLane : LaneKey)
  | conflict (message : String) (current : Option Card)
  | archived
  | notFound (resource : String)
  | limitExceeded (message : String) (limit : ℕ)
  /-- The `UNIQUE(lane_id, position)` backstop fired. -/
  | duplicatePosition
  | lastActiveAdmin
  /-- A semantic rejection beyond the schema's shape. -/
  | requestValidation (path message : String)
  /-- A schema rejected the input at this field. -/
  | invalidInput (path : List String)
  /-- Some other database constraint stands against a write. -/
  | constraint (constraint : String)
  /-- A plain `Error`. -/
  | failure (message : String)
  deriving DecidableEq

end AiKanban.Domain
