import AiKanban.Effects.Guards

/-!
# Board access as a function of the store

What the access check answers under a given global policy.
-/
namespace AiKanban.Effects

open Domain Db Policy Relational Services Transactions Program

/-- A group of the list has the user as a member. -/
def memberIn (s : Store) (userId : Uuid) (ids : List Uuid) : Bool :=
  ids.any fun id => (s.groups.find? id).any (·.userIds.contains userId)

/-- The actor may see the board when `policy` is the global one. -/
def accessibleUnder (policy : PolicyDocument) (s : Store) (actor : Actor) (board : Board) : Bool :=
  board.archivedAt.isNone && (hasPermission actor .managePolicy policy ||
    board.accessMode == .all || board.allowedRoleKeys.contains actor.role ||
    (actor.kind != .mcp && (board.allowedUserIds.contains actor.id ||
      memberIn s actor.id board.allowedGroupIds)))

variable {w : World Store Tick} {policy : PolicyDocument}

theorem runs_memberOfAny (w : World Store Tick) (userId : Uuid) (ids : List Uuid) :
    Runs (memberOfAny userId ids) w (memberIn w.store userId ids) w := by
  induction ids with
  | nil => exact runs_pure_iff.mpr ⟨rfl, rfl⟩
  | cons id ids ih =>
    refine runs_bind_iff.mpr ⟨w.store.groups.find? id, w, runs_selectKey_iff.mpr ⟨rfl, rfl⟩, ?_⟩
    by_cases hmember : (w.store.groups.find? id).any (·.userIds.contains userId)
    · rw [if_pos hmember]
      exact runs_pure_iff.mpr ⟨by simp only [memberIn, List.any_cons, hmember, Bool.true_or], rfl⟩
    · rw [if_neg hmember]
      have hrest : memberIn w.store userId (id :: ids) = memberIn w.store userId ids := by
        simp only [memberIn, List.any_cons, Bool.eq_false_of_not_eq_true hmember, Bool.false_or]
      rw [hrest]
      exact ih

theorem runs_canAccessBoard (h : Runs globalPolicy w policy w) (actor : Actor) (board : Board) :
    Runs (canAccessBoard actor board) w (accessibleUnder policy w.store actor board) w := by
  unfold canAccessBoard
  by_cases harchived : board.archivedAt.isSome
  · rw [if_pos harchived]
    have hnone : board.archivedAt.isNone = false := by simpa using harchived
    exact runs_pure_iff.mpr ⟨by simp only [accessibleUnder, hnone, Bool.false_and], rfl⟩
  · rw [if_neg harchived]
    refine runs_bind_iff.mpr ⟨policy, w, h, ?_⟩
    have hactive : board.archivedAt.isNone = true := by simpa using harchived
    have hmember := runs_memberOfAny w actor.id board.allowedGroupIds
    rw [accessibleUnder, hactive, Bool.true_and, bne]
    -- Both sides are the same chain of tests once each test is a variable.
    generalize hasPermission actor .managePolicy policy = manages
    generalize (board.accessMode == AccessMode.all) = everyone
    generalize board.allowedRoleKeys.contains actor.role = byRole
    generalize (actor.kind == ActorKind.mcp) = token
    generalize board.allowedUserIds.contains actor.id = listed
    cases manages <;> cases everyone <;> cases byRole <;> cases token <;> cases listed <;>
      first | exact runs_pure_iff.mpr ⟨rfl, rfl⟩ | exact hmember

/-- The access check fails only as the reading of the global policy does. -/
theorem runs_canAccessBoard_iff (h : Runs globalPolicy w policy w) {actor : Actor} {board : Board}
    {answer : Bool} : Runs (canAccessBoard actor board) w answer w ↔
      answer = accessibleUnder policy w.store actor board := by
  constructor
  · intro hanswer
    have hrun := runs_canAccessBoard h actor board
    unfold Runs at hanswer hrun
    rw [hrun] at hanswer
    cases hanswer
    rfl
  · rintro rfl
    exact runs_canAccessBoard h actor board

end AiKanban.Effects
