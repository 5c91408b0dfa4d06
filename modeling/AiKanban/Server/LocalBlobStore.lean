import AiKanban.Application.Operations

/-!
# Blobs beside the database

The local-disk blob store, and what the attachment and card services do with it around
their units of work: an upload puts its blob first and drops it when the metadata is
rejected; a removed attachment or a discarded card drops its blobs after the commit.
-/
namespace AiKanban.Server

open Domain Db Services Transactions

/-- The files under the blob directory, by their key. -/
abbrev LocalBlobStore (β : Type) := Uuid → Option β

namespace LocalBlobStore

variable {β : Type}

/-- A file is written with the `wx` flag: a key that is taken is an error. -/
def put (key : Uuid) (content : β) (blobs : LocalBlobStore β) :
    Except DomainError (LocalBlobStore β) :=
  if (blobs key).isSome then .error (.failure "EEXIST")
  else .ok (Function.update blobs key (some content))

/-- A missing file is no error. -/
def delete (key : Uuid) (blobs : LocalBlobStore β) : LocalBlobStore β :=
  Function.update blobs key none

end LocalBlobStore

/-- The database with its environment, and the blobs. -/
structure Installation (β : Type) where
  world : World Store Tick
  blobs : LocalBlobStore β

namespace Installation

variable {β : Type}

/-- A call that leaves the blobs alone. -/
def inDatabase (s : Installation β) {α : Type}
    (outcome : Except DomainError α × World Store Tick) : Except DomainError α × Installation β :=
  (outcome.1, ⟨outcome.2, s.blobs⟩)

/-- A call that drops blobs once its unit of work has committed. -/
def dropping (s : Installation β) {α : Type} (keys : α → List Uuid)
    (outcome : Except DomainError α × World Store Tick) : Except DomainError α × Installation β :=
  match outcome with
  | (.ok a, w) => (.ok a, ⟨w, (keys a).foldl (fun blobs key => blobs.delete key) s.blobs⟩)
  | (.error e, w) => (.error e, ⟨w, s.blobs⟩)

end Installation

section calls

variable {β : Type}

/-- The key is the first identifier the unit of work sees; a put that fails ends the call
before it. -/
def addAttachment (actor : Actor) (cardId : ℕ) (raw : AddAttachmentInput) (content : β)
    (s : Installation β) : Except DomainError Attachment × Installation β :=
  match raw.parse with
  | .error e => (.error e, s)
  | .ok input =>
      if AttachmentService.maxAttachmentBytes < input.byteLength then
        (.error (.limitExceeded "attachment exceeds the 25 MB limit"
          AttachmentService.maxAttachmentBytes), s)
      else
        let storageKey := s.world.peek.id
        match s.blobs.put storageKey content with
        | .error e => (.error e, ⟨s.world.tick, s.blobs⟩)
        | .ok blobs =>
            match transact (AttachmentService.add actor cardId raw) s.world with
            | (.ok attachment, w) => (.ok attachment, ⟨w, blobs⟩)
            | (.error e, w) => (.error e, ⟨w, blobs.delete storageKey⟩)

def removeAttachment (actor : Actor) (attachmentId : Uuid) (s : Installation β) :
    Except DomainError Attachment × Installation β :=
  s.dropping (fun attachment => [attachment.storageKey])
    (transact (AttachmentService.remove actor attachmentId) s.world)

variable [Platform]

def deleteCard (actor : Actor) (cardId expectedVersion : ℕ) (s : Installation β) :
    Except DomainError (List Uuid) × Installation β :=
  s.dropping id ((CardService.delete actor cardId expectedVersion).perform s.world)

end calls
end AiKanban.Server

namespace AiKanban.Application

open Domain Db Services Server Transactions

variable {β : Type} [Platform]

/-- An operation on the database and the blobs; `content` is what an upload carries. -/
def Operation.call (s : Installation β) (content : β) :
    Operation → Except DomainError Result × Installation β
  | .collaboration (.addAttachment actor cardId raw) =>
      let outcome := addAttachment actor cardId raw content s
      (outcome.1.map fun _ => .done, outcome.2)
  | .collaboration (.removeAttachment actor attachmentId) =>
      let outcome := removeAttachment actor attachmentId s
      (outcome.1.map fun _ => .done, outcome.2)
  | .card (.delete actor cardId expectedVersion) =>
      let outcome := deleteCard actor cardId expectedVersion s
      (outcome.1.map fun _ => .done, outcome.2)
  | op => s.inDatabase (op.perform s.world)

end AiKanban.Application
