import SourceChunks.Chunk.Dedupe

/-!
# One filter for several lists

The hashes that were met are known to all lists that are sifted with one filter, one after
another.  Several callers may share a filter, each with a list of its own.  A filter has a
lock: a caller takes it before its first chunk, if nobody else has it, and gives it back
behind its last one.  Which of the callers that wait comes next is left open.
-/

namespace SourceChunks

/-- Some lists, sifted one after another. -/
def siftEach (seen : Seen) : List (List Chunk) → List Sifted
  | [] => []
  | batch :: rest => sift seen batch :: siftEach (sift seen batch).seen rest

/-- The hashes that are known behind some lists. -/
def seenBehind (seen : Seen) (batches : List (List Chunk)) : Seen :=
  batches.foldl (fun seen batch => (sift seen batch).seen) seen

/-- What a caller of a filter does. -/
inductive Caller where
  /-- It waits for the lock. -/
  | waiting (batch : List Chunk)
  /-- It has the lock, and goes through its list. -/
  | sifting (rest kept dropped : List Chunk)
  /-- It has given the lock back. -/
  | finished (kept dropped : List Chunk)
  deriving Repr, DecidableEq

/-- Whether a caller has given the lock back. -/
def Caller.isFinished : Caller → Bool
  | finished _ _ => true
  | _ => false

/-- A filter and its callers. -/
structure SharedFilter where
  /-- The hashes that were met so far. -/
  seen : Seen
  /-- Who has the lock. -/
  holder : Option Nat
  callers : List Caller

/-- What may happen next. -/
inductive FilterEvent where
  | enter (caller : Nat)
  /-- A caller that has the lock deals with its next chunk. -/
  | advance (caller : Nat)
  | leave (caller : Nat)
  deriving Repr, DecidableEq

namespace SharedFilter

/-- A filter that knows some hashes, before any of its callers has the lock. -/
def start (seen : Seen) (batches : List (List Chunk)) : SharedFilter where
  seen := seen
  holder := none
  callers := batches.map .waiting

/-- A filter behind an event; none if the event cannot happen. -/
def step (filter : SharedFilter) : FilterEvent → Option SharedFilter
  | .enter i =>
      match filter.holder, filter.callers[i]? with
      | none, some (.waiting batch) =>
          some { filter with
            holder := some i
            callers := filter.callers.set i (.sifting batch [] []) }
      | _, _ => none
  | .advance i =>
      match filter.callers[i]? with
      | some (.sifting (chunk :: rest) kept dropped) =>
          if filter.seen.contains chunk.contentHash then
            some { filter with
              callers := filter.callers.set i (.sifting rest kept (dropped ++ [chunk])) }
          else
            some { filter with
              seen := filter.seen.insert chunk.contentHash
              callers := filter.callers.set i (.sifting rest (kept ++ [chunk]) dropped) }
      | _ => none
  | .leave i =>
      match filter.callers[i]? with
      | some (.sifting [] kept dropped) =>
          some { filter with
            holder := none
            callers := filter.callers.set i (.finished kept dropped) }
      | _ => none

/-- A filter behind some events. -/
def run (filter : SharedFilter) : List FilterEvent → Option SharedFilter
  | [] => some filter
  | event :: events => (filter.step event).bind fun next => next.run events

/-- Whether all callers are finished. -/
def isDone (filter : SharedFilter) : Bool :=
  filter.callers.all Caller.isFinished

end SharedFilter

end SourceChunks
