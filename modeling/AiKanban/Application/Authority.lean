import AiKanban.Server.ServiceTokenService
import AiKanban.Transitions.Runs
import AiKanban.Db.Seed

/-!
# Operations on roles

The operations that define roles or hand them out, one after the other on a world.
-/
namespace AiKanban.Application

open Domain Db Services Server Transactions

inductive RoleOperation where
  | applyPolicy (boardId : Uuid) (actor : Actor) (document : PolicyDocument)
  | createUser (deps : UserAdminServiceDeps) (actor : Actor) (raw : CreateUserInput)
      (temp : TempPassword)
  | updateUser (deps : UserAdminServiceDeps) (actor : Actor) (userId : Uuid)
      (raw : UpdateUserInput) (temp : TempPassword)
  | createToken (boardId : Uuid) (actor : Actor) (raw : CreateServiceTokenInput)
      (minted : MintedToken)
  | rotateToken (boardId : Uuid) (actor : Actor) (tokenId : Uuid) (minted : MintedToken)
  | revokeToken (boardId : Uuid) (actor : Actor) (tokenId : Uuid)
  | createBoard (actor : Actor) (raw : BoardInput)
  | updateBoard (actor : Actor) (boardId : Uuid) (raw : BoardInput)
  | removeBoard (actor : Actor) (boardId : Uuid)

variable [Platform]

/-- The unit of work of an operation. -/
def RoleOperation.body : RoleOperation → Tx Unit
  | .applyPolicy boardId actor document =>
      (fun _ => ()) <$> PolicyService.apply boardId actor document
  | .createUser deps actor raw temp => (fun _ => ()) <$> UserAdminService.create deps actor raw temp
  | .updateUser deps actor userId raw temp =>
      (fun _ => ()) <$> UserAdminService.update deps actor userId raw temp
  | .createToken boardId actor raw minted =>
      (fun _ => ()) <$> ServiceTokenService.create boardId actor raw minted
  | .rotateToken boardId actor tokenId minted =>
      (fun _ => ()) <$> ServiceTokenService.rotate boardId actor tokenId minted
  | .revokeToken boardId actor tokenId => ServiceTokenService.revoke boardId actor tokenId
  | .createBoard actor raw => (fun _ => ()) <$> BoardService.create actor raw
  | .updateBoard actor boardId raw => (fun _ => ()) <$> BoardService.update actor boardId raw
  | .removeBoard actor boardId => BoardService.remove actor boardId

/-- The world after an operation; a rejected one leaves the store as it was. -/
def roleStep (w : World Store Tick) (op : RoleOperation) : World Store Tick :=
  (transact op.body w).2

end AiKanban.Application
