import AiKanban.Collections.InsertionMap
import AiKanban.Domain.Sse

/-!
# The streams of the server

Every user has a list of open streams, bounded by dropping the oldest. Hints and keepalives
recheck the session and the access of a stream while other things happen.
-/
namespace AiKanban.Server

open Collections Domain

/-- What is written to a stream. -/
inductive Frame where
  | connected
  | keepalive
  | hint (hint : SseHint)
deriving DecidableEq

/-- A frame, and whether the stream had been closed when it was written. -/
structure Written where
  frame : Frame
  late : Bool
deriving DecidableEq

/-- A registered stream, with the number of times that the effects of closing it ran. -/
structure Stream where
  userId : Uuid
  boardId : Uuid
  closed : Bool := false
  closings : ℕ := 0
  keepalive : Bool := true
  headersSent : Bool := false
  ended : Bool := false
  written : List Written := []
deriving DecidableEq

/-- Where a suspended check of a stream stands. -/
inductive CheckPhase where
  | authenticating
  | checkingAccess
deriving DecidableEq

/-- A hint on its way to a stream. -/
structure Delivery where
  stream : ℕ
  hint : SseHint
  phase : CheckPhase
deriving DecidableEq

/-- The check that follows a keepalive. -/
structure Revalidation where
  stream : ℕ
  phase : CheckPhase
deriving DecidableEq

structure StreamServer where
  streams : List Stream
  streamsByUser : InsertionMap Uuid (List ℕ)
  deliveries : List Delivery
  revalidations : List Revalidation
  subscribed : Bool
  openStreams : ℤ
deriving DecidableEq

/-- How the check of a session or of an access ends. -/
inductive Answer where
  | granted
  | refused
  | failed
deriving DecidableEq

inductive StreamRequest where
  /-- A request whose access was granted opens its stream; its client may be gone by now. -/
  | opened (userId boardId : Uuid) (destroyed : Bool)
  | disconnected (stream : ℕ)
  | dispatched (hint : SseHint)
  | tick (stream : ℕ)
  /-- The session check of a delivery, or of a revalidation, comes back. -/
  | deliveryAuthenticated (delivery : ℕ) (answer : Answer)
  | deliveryChecked (delivery : ℕ) (answer : Answer)
  | tickAuthenticated (revalidation : ℕ) (answer : Answer)
  | tickChecked (revalidation : ℕ) (answer : Answer)
  | shutdown
deriving DecidableEq

namespace StreamServer

def start : StreamServer :=
  { streams := [], streamsByUser := .empty, deliveries := [], revalidations := []
    subscribed := true, openStreams := 0 }

def handlesOf (x : StreamServer) (userId : Uuid) : List ℕ :=
  (x.streamsByUser.get userId).getD []

def isClosed (x : StreamServer) (s : ℕ) : Bool := (x.streams[s]?).any (·.closed)

/-- `reply.sse` -/
def write (x : StreamServer) (s : ℕ) (frame : Frame) : StreamServer :=
  { x with streams := x.streams.modify s fun stream =>
      { stream with headersSent := true, written := stream.written ++ [⟨frame, stream.closed⟩] } }

/-- The effects of closing run only once. -/
def close (x : StreamServer) (s : ℕ) : StreamServer :=
  match x.streams[s]? with
  | none => x
  | some stream =>
      if stream.closed then x
      else
        let remaining := (x.handlesOf stream.userId).filter (· ≠ s)
        { x with
          streams := x.streams.modify s fun stream =>
            { stream with
              closed := true
              closings := stream.closings + 1
              keepalive := false
              ended := stream.headersSent }
          openStreams := x.openStreams - 1
          streamsByUser :=
            if remaining = [] then x.streamsByUser.delete stream.userId
            else x.streamsByUser.set stream.userId remaining }

/-- Close the oldest stream of the user while there are too many; each round takes one away. -/
def dropOldest (maxStreamsPerUser : ℕ) (userId : Uuid) : ℕ → StreamServer → StreamServer
  | 0, x => x
  | rounds + 1, x =>
      if maxStreamsPerUser < (x.handlesOf userId).length then
        match x.handlesOf userId with
        | [] => x
        | oldest :: _ => dropOldest maxStreamsPerUser userId rounds (x.close oldest)
      else x

def register (x : StreamServer) (userId boardId : Uuid) : StreamServer :=
  { x with
    streams := x.streams ++ [{ userId, boardId }]
    streamsByUser := x.streamsByUser.set userId (x.handlesOf userId ++ [x.streams.length])
    openStreams := x.openStreams + 1 }

def opened (maxStreamsPerUser : ℕ) (x : StreamServer) (userId boardId : Uuid) (destroyed : Bool) :
    StreamServer :=
  let registered := x.register userId boardId
  let bounded :=
    registered.dropOldest maxStreamsPerUser userId (registered.handlesOf userId).length
  if destroyed then bounded.close x.streams.length
  else bounded.write x.streams.length .connected

/-- Each handle that is not closed starts to check its session. -/
def dispatched (x : StreamServer) (hint : SseHint) : StreamServer :=
  if x.subscribed then
    { x with deliveries := x.deliveries ++
        ((x.streamsByUser.values.flatten.filter fun s => !x.isClosed s).map fun s =>
          ⟨s, hint, .authenticating⟩) }
  else x

/-- The catalog hint needs no access, and is written before the access is checked. -/
def deliveryAuthenticated (x : StreamServer) (d : ℕ) (delivery : Delivery) (answer : Answer) :
    StreamServer :=
  match answer with
  | .granted =>
      let checking :=
        { x with deliveries := x.deliveries.set d { delivery with phase := .checkingAccess } }
      if delivery.hint = .board .boardUpdated then
        checking.write delivery.stream (.hint delivery.hint)
      else checking
  | _ => { x with deliveries := x.deliveries.eraseIdx d }.close delivery.stream

/-- A disconnect can have closed the stream while the access was checked. -/
def deliveryChecked (x : StreamServer) (d : ℕ) (delivery : Delivery) (answer : Answer) :
    StreamServer :=
  let done := { x with deliveries := x.deliveries.eraseIdx d }
  match answer with
  | .granted =>
      if !x.isClosed delivery.stream && decide (delivery.hint ≠ .board .boardUpdated) then
        done.write delivery.stream (.hint delivery.hint)
      else done
  | .refused => done
  | .failed => done.close delivery.stream

def tick (x : StreamServer) (s : ℕ) : StreamServer :=
  match x.streams[s]? with
  | none => x
  | some stream =>
      if stream.keepalive && !stream.closed then
        { x.write s .keepalive with
          revalidations := x.revalidations ++ [⟨s, .authenticating⟩] }
      else x

def tickAuthenticated (x : StreamServer) (r : ℕ) (check : Revalidation) (answer : Answer) :
    StreamServer :=
  match answer with
  | .granted =>
      { x with revalidations := x.revalidations.set r { check with phase := .checkingAccess } }
  | _ => { x with revalidations := x.revalidations.eraseIdx r }.close check.stream

def tickChecked (x : StreamServer) (r : ℕ) (check : Revalidation) (answer : Answer) :
    StreamServer :=
  let done := { x with revalidations := x.revalidations.eraseIdx r }
  match answer with
  | .granted => done
  | _ => done.close check.stream

def shutdown (x : StreamServer) : StreamServer :=
  x.streamsByUser.values.flatten.foldl close { x with subscribed := false }

def step (maxStreamsPerUser : ℕ) (x : StreamServer) : StreamRequest → StreamServer
  | .opened userId boardId destroyed => opened maxStreamsPerUser x userId boardId destroyed
  | .disconnected s => x.close s
  | .dispatched hint => x.dispatched hint
  | .tick s => x.tick s
  | .deliveryAuthenticated d answer =>
      match x.deliveries[d]? with
      | some ⟨s, hint, .authenticating⟩ =>
          x.deliveryAuthenticated d ⟨s, hint, .authenticating⟩ answer
      | _ => x
  | .deliveryChecked d answer =>
      match x.deliveries[d]? with
      | some ⟨s, hint, .checkingAccess⟩ => x.deliveryChecked d ⟨s, hint, .checkingAccess⟩ answer
      | _ => x
  | .tickAuthenticated r answer =>
      match x.revalidations[r]? with
      | some ⟨s, .authenticating⟩ => x.tickAuthenticated r ⟨s, .authenticating⟩ answer
      | _ => x
  | .tickChecked r answer =>
      match x.revalidations[r]? with
      | some ⟨s, .checkingAccess⟩ => x.tickChecked r ⟨s, .checkingAccess⟩ answer
      | _ => x
  | .shutdown => x.shutdown

end StreamServer

end AiKanban.Server
