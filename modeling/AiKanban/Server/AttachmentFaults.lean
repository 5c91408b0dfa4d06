import AiKanban.Server.LocalBlobStore
import AiKanban.Transactions.Faults

/-!
# Attachment calls with one failing step

An upload puts its blob, commits its row and publishes a hint; a failure on the way drops the
blob again. A removal commits, publishes, and drops the blob last.
-/
namespace AiKanban.Server

open Domain Db Services Transactions

/-- The failing step of a call. -/
inductive Fault (β : Type) where
  /-- The write of the blob, and what it leaves under the key. -/
  | put (left : Option β)
  | unit (fault : UnitFault)
  /-- The hint, at the listener with this number. -/
  | hint (listener : ℕ)
  | delete

section calls

variable {β : Type}

namespace Fault

def unit? : Option (Fault β) → Option UnitFault
  | some (.unit fault) => some fault
  | _ => none

/-- The `wx` flag leaves a taken key alone. -/
def put? (fault : Option (Fault β)) (key : Uuid) (content : β) (blobs : LocalBlobStore β) :
    Except DomainError (LocalBlobStore β) × LocalBlobStore β :=
  match fault with
  | some (.put left) =>
      (.error (.failure "EIO"), if (blobs key).isSome then blobs else Function.update blobs key left)
  | _ => (blobs.put key content, blobs)

/-- Best-effort: a failure is swallowed. -/
def delete? (fault : Option (Fault β)) (key : Uuid) (blobs : LocalBlobStore β) : LocalBlobStore β :=
  match fault with
  | some .delete => blobs
  | _ => blobs.delete key

def listener? (fault : Option (Fault β)) (listener : ℕ) : Except DomainError Unit :=
  match fault with
  | some (.hint n) => if n = listener then .error (.failure "listener") else .ok ()
  | _ => .ok ()

/-- The listeners are called in turn; one that throws ends the round. -/
def publish (fault : Option (Fault β)) (listeners : ℕ) : Except DomainError Unit :=
  (List.range listeners).forM (listener? fault)

end Fault

open Fault

/-- The hint is published inside the `try` whose `catch` drops the blob. -/
def addAttachmentWith (listeners : ℕ) (fault : Option (Fault β)) (actor : Actor) (cardId : ℕ)
    (raw : AddAttachmentInput) (content : β) (s : Installation β) :
    Except DomainError Attachment × Installation β :=
  match raw.parse with
  | .error e => (.error e, s)
  | .ok input =>
      if AttachmentService.maxAttachmentBytes < input.byteLength then
        (.error (.limitExceeded "attachment exceeds the 25 MB limit"
          AttachmentService.maxAttachmentBytes), s)
      else
        let storageKey := s.world.peek.id
        match put? fault storageKey content s.blobs with
        | (.error e, blobs) => (.error e, ⟨s.world.tick, blobs⟩)
        | (.ok blobs, _) =>
            match transactWith (.failure "database") (unit? fault)
                (AttachmentService.add actor cardId raw) s.world with
            | (.error e, w) => (.error e, ⟨w, delete? fault storageKey blobs⟩)
            | (.ok attachment, w) =>
                match publish fault listeners with
                | .error e => (.error e, ⟨w, delete? fault storageKey blobs⟩)
                | .ok () => (.ok attachment, ⟨w, blobs⟩)

def removeAttachmentWith (listeners : ℕ) (fault : Option (Fault β)) (actor : Actor)
    (attachmentId : Uuid) (s : Installation β) : Except DomainError Attachment × Installation β :=
  match transactWith (.failure "database") (unit? fault)
      (AttachmentService.remove actor attachmentId) s.world with
  | (.error e, w) => (.error e, ⟨w, s.blobs⟩)
  | (.ok attachment, w) =>
      match publish fault listeners with
      | .error e => (.error e, ⟨w, s.blobs⟩)
      | .ok () => (.ok attachment, ⟨w, delete? fault attachment.storageKey s.blobs⟩)

end calls

inductive AttachmentCall (β : Type) where
  | add (actor : Actor) (cardId : ℕ) (raw : AddAttachmentInput) (content : β)
  | remove (actor : Actor) (attachmentId : Uuid)

/-- A call with the step of it that fails, if one does. -/
structure FaultyCall (β : Type) where
  call : AttachmentCall β
  fault : Option (Fault β) := none

namespace FaultyCall

variable {β : Type}

def perform (listeners : ℕ) (s : Installation β) :
    FaultyCall β → Except DomainError Attachment × Installation β
  | ⟨.add actor cardId raw content, fault⟩ =>
      addAttachmentWith listeners fault actor cardId raw content s
  | ⟨.remove actor attachmentId, fault⟩ => removeAttachmentWith listeners fault actor attachmentId s

def step (listeners : ℕ) (s : Installation β) (c : FaultyCall β) : Installation β :=
  (c.perform listeners s).2

end FaultyCall
end AiKanban.Server
