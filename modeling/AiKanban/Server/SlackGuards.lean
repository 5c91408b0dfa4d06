import AiKanban.Collections.InsertionMap
import AiKanban.Collections.InsertionSet

/-!
# Guards of the Slack adapter

HTTP rate limiting never sees the events of a socket, so the adapter keeps budgets of its own; and
it remembers the latest deliveries, because an event that is not acknowledged is delivered again.
-/
namespace AiKanban.Server

open Collections

/-- One call of a limiter: its key, and what the clock says. -/
structure Acquire where
  key : String
  now : ℤ
deriving DecidableEq

structure SlidingWindowLimiter where
  limit : ℕ
  windowMs : ℤ
  hits : InsertionMap String (List ℤ)

namespace SlidingWindowLimiter

def create (limit : ℕ) (windowMs : ℤ) : SlidingWindowLimiter := ⟨limit, windowMs, .empty⟩

/-- Drops the keys whose every hit has expired. -/
def prune (hits : InsertionMap String (List ℤ)) (cutoff : ℤ) : InsertionMap String (List ℤ) :=
  hits.deleteWhere fun _ timestamps => timestamps.all fun timestamp => decide (timestamp ≤ cutoff)

/-- Consumes one slot for the key when it is under the limit. -/
def acquire (l : SlidingWindowLimiter) (hits : InsertionMap String (List ℤ)) (call : Acquire) :
    Bool × SlidingWindowLimiter :=
  let cutoff := call.now - l.windowMs
  let kept := ((hits.get call.key).getD []).filter fun timestamp => decide (cutoff < timestamp)
  if l.limit ≤ kept.length then (false, { l with hits := hits.set call.key kept })
  else (true, { l with hits := hits.set call.key (kept ++ [call.now]) })

def tryAcquire (l : SlidingWindowLimiter) (call : Acquire) : Bool × SlidingWindowLimiter :=
  l.acquire (if 1000 < l.hits.size then prune l.hits (call.now - l.windowMs) else l.hits) call

/-- The same without pruning. -/
def tryAcquireUnpruned (l : SlidingWindowLimiter) (call : Acquire) : Bool × SlidingWindowLimiter :=
  l.acquire l.hits call

end SlidingWindowLimiter

/-- Keys in the order in which they were last seen, never more than the capacity. -/
structure BoundedLruSet where
  capacity : ℕ
  entries : InsertionSet String

namespace BoundedLruSet

def create (capacity : ℕ) : Except String BoundedLruSet :=
  if capacity < 1 then .error "BoundedLruSet capacity must be at least 1"
  else .ok ⟨capacity, .empty⟩

/-- True when the key is new, and now remembered. -/
def addIfAbsent (s : BoundedLruSet) (key : String) : Bool × BoundedLruSet :=
  if s.entries.has key then
    -- A refreshed key is not evicted before those that were seen earlier.
    (false, { s with entries := (s.entries.delete key).add key })
  else
    let entries := s.entries.add key
    if s.capacity < entries.size then
      match entries.first with
      | some oldest => (true, { s with entries := entries.delete oldest })
      | none => (true, { s with entries })
    else (true, { s with entries })

end BoundedLruSet

end AiKanban.Server
