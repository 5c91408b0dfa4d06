import AiKanban.Server.LocalBlobStore
import AiKanban.Transitions.Runs
import Mathlib.Algebra.BigOperators.Group.List.Basic

/-!
# The byte totals of the blob store

One process keeps a running total and the bytes its uploads have reserved. A put writes its file
and counts it in a later step; a delete looks up the size, removes the file and subtracts.
-/
namespace AiKanban.Server

open Domain Transitions

/-- A stored file. -/
structure Blob where
  key : Uuid
  bytes : ℕ
  deriving DecidableEq

/-- Where a call stands between two of its asynchronous steps. -/
inductive BlobCall where
  /-- An upload holds a reservation and has not begun its put. -/
  | holding (bytes : ℕ)
  | writing (key : Uuid) (bytes : ℕ) (held : Bool)
  /-- The file is written; its bytes are not counted yet. -/
  | written (bytes : ℕ) (held : Bool)
  /-- The put has settled, and its reservation is still held. -/
  | settled (bytes : ℕ)
  | deleting (key : Uuid)
  /-- `stat` has found the file. -/
  | removing (key : Uuid) (bytes : ℕ)
  /-- The file is removed; its bytes are not subtracted yet. -/
  | removed (bytes : ℕ)
  deriving DecidableEq

structure BlobDirectory where
  files : List Blob
  total : ℤ
  reserved : ℕ := 0
  calls : List BlobCall := []

namespace BlobDirectory

def storedBytes (files : List Blob) : ℕ := (files.map (·.bytes)).sum

/-- The scan at construction. -/
def scanned (files : List Blob) : BlobDirectory := ⟨files, storedBytes files, 0, []⟩

def stat (files : List Blob) (key : Uuid) : Option ℕ :=
  (files.find? (·.key == key)).map (·.bytes)

/-- `rm` with `force`: a missing file is no error. -/
def rm (files : List Blob) (key : Uuid) : List Blob := files.filter (·.key != key)

/-- Checks and holds in one synchronous call. -/
def reserve (bytes highWaterBytes : ℕ) (s : BlobDirectory) : Bool × BlobDirectory :=
  if (highWaterBytes : ℤ) < s.total + s.reserved + bytes then (false, s)
  else (true, { s with reserved := s.reserved + bytes })

/-- Clamped at zero. -/
def release (bytes : ℕ) (s : BlobDirectory) : BlobDirectory :=
  { s with reserved := s.reserved - bytes }

/-- The reservation outlives the put that was made under it. -/
def settle (bytes : ℕ) (held : Bool) (s : BlobDirectory) : BlobDirectory :=
  { s with calls := (if held then [.settled bytes] else []) ++ s.calls }

/-- The next step of a call, in a state that has taken the call out. -/
def advance (s : BlobDirectory) : BlobCall → BlobDirectory
  | .holding bytes => s.release bytes
  | .writing key bytes held =>
      match stat s.files key with
      -- the `wx` flag: the put is rejected
      | some _ => s.settle bytes held
      | none => { s with files := s.files ++ [⟨key, bytes⟩], calls := .written bytes held :: s.calls }
  | .written bytes held => { s with total := s.total + bytes }.settle bytes held
  | .settled bytes => s.release bytes
  | .deleting key =>
      match stat s.files key with
      | none => s
      | some bytes => { s with calls := .removing key bytes :: s.calls }
  | .removing key bytes => { s with files := rm s.files key, calls := .removed bytes :: s.calls }
  | .removed bytes => { s with total := s.total - bytes }

end BlobDirectory

inductive BlobStep where
  | reserve (bytes : ℕ)
  | put (key : Uuid) (bytes : ℕ) (held : Bool)
  | delete (key : Uuid)
  | advance (call : BlobCall)
  deriving DecidableEq

namespace BlobDirectory

def step (highWaterBytes : ℕ) (s : BlobDirectory) : BlobStep → BlobDirectory
  | .reserve bytes =>
      match s.reserve bytes highWaterBytes with
      | (true, s') => { s' with calls := .holding bytes :: s'.calls }
      | (false, s') => s'
  | .put key bytes true =>
      { s with calls := .writing key bytes true :: s.calls.erase (.holding bytes) }
  | .put key bytes false => { s with calls := .writing key bytes false :: s.calls }
  | .delete key => { s with calls := .deleting key :: s.calls }
  | .advance call => { s with calls := s.calls.erase call }.advance call

/-- A call that takes a step is there, and so is the reservation a put is made under. -/
def Admissible (s : BlobDirectory) : BlobStep → Prop
  | .put _ bytes true => .holding bytes ∈ s.calls
  | .advance call => call ∈ s.calls
  | _ => True

/-- A put is made under a reservation. -/
def reserves : BlobStep → Bool
  | .put _ _ held => held
  | _ => true

end BlobDirectory

namespace BlobCall

/-- A put or a delete is under way. -/
def inFlight : BlobCall → Bool
  | .holding _ | .settled _ => false
  | _ => true

end BlobCall
end AiKanban.Server
