import SourceChunks.Chunk.Stream

/-!
# Several files at a time

The files are submitted in their order, and each gets a slot for its chunks.  A worker
takes a file that waits, chunks it, reports the file and puts the chunks in its slot.
When all files are submitted, the slots are collected from the first one on, each as
soon as it is filled.  Which of the possible steps comes next is left open, and so is
which of the files that wait a worker takes.

A single worker, or a single file, needs no pool.
-/

namespace SourceChunks

/-- What a worker does. -/
inductive Worker where
  | idle
  /-- It chunks a file that has a slot. -/
  | chunking (slot : Nat) (source : SourceFile)
  /-- It has reported a file, and is about to fill its slot. -/
  | returning (slot : Nat) (chunks : List Chunk)
  deriving Repr, DecidableEq

/-- Files that some workers chunk. -/
structure Pool where
  /-- The files that are still to be submitted. -/
  pending : List SourceFile
  /-- The files that wait for a worker, with their slots. -/
  waiting : List (Nat × SourceFile)
  /-- What each of the workers does. -/
  workers : List Worker
  /-- The chunks of every file that was submitted, once they are there. -/
  slots : List (Option (List Chunk))
  /-- The files that were reported, in the order of the reports. -/
  reported : List SourceFile
  /-- The chunks that were collected, file by file. -/
  collected : List (List Chunk)
  deriving Repr, DecidableEq

/-- What may happen next. -/
inductive PoolEvent where
  | submit
  /-- A worker takes the file at some place among those that wait. -/
  | take (worker place : Nat)
  /-- A worker has chunked its file, and reports it. -/
  | report (worker : Nat)
  /-- A worker fills the slot of its file. -/
  | finish (worker : Nat)
  | collect
  deriving Repr, DecidableEq

namespace Pool

/-- Some idle workers, before any file is submitted. -/
def start (workers : Nat) (files : List SourceFile) : Pool where
  pending := files
  waiting := []
  workers := List.replicate workers .idle
  slots := []
  reported := []
  collected := []

/-- A pool behind an event; none if the event cannot happen. -/
def step (chunker : Chunker) (pool : Pool) : PoolEvent → Option Pool
  | .submit =>
      match pool.pending with
      | [] => none
      | source :: pending =>
          some { pool with
            pending := pending
            waiting := pool.waiting ++ [(pool.slots.length, source)]
            slots := pool.slots ++ [none] }
  | .take worker place =>
      match pool.workers[worker]?, pool.waiting[place]? with
      | some .idle, some (slot, source) =>
          some { pool with
            waiting := pool.waiting.eraseIdx place
            workers := pool.workers.set worker (.chunking slot source) }
      | _, _ => none
  | .report worker =>
      match pool.workers[worker]? with
      | some (.chunking slot source) =>
          some { pool with
            workers := pool.workers.set worker (.returning slot (chunker.chunkFile source))
            reported := pool.reported ++ [source] }
      | _ => none
  | .finish worker =>
      match pool.workers[worker]? with
      | some (.returning slot chunks) =>
          some { pool with
            workers := pool.workers.set worker .idle
            slots := pool.slots.set slot (some chunks) }
      | _ => none
  | .collect =>
      match pool.pending, pool.slots[pool.collected.length]? with
      | [], some (some chunks) => some { pool with collected := pool.collected ++ [chunks] }
      | _, _ => none

/-- A pool behind some events. -/
def run (chunker : Chunker) (pool : Pool) : List PoolEvent → Option Pool
  | [] => some pool
  | event :: events => (pool.step chunker event).bind fun next => next.run chunker events

/-- Whether all slots were collected. -/
def isDone (pool : Pool) : Bool :=
  pool.pending.isEmpty && pool.collected.length == pool.slots.length

end Pool

namespace Chunker

/-- Whether some files are chunked by a pool. -/
def usesPool (chunker : Chunker) (files : List SourceFile) : Bool :=
  1 < chunker.workers && 1 < files.length

/-- What chunking some files may come to: the files in the order in which they were
reported, and the chunks. -/
inductive Gives (chunker : Chunker) (files : List SourceFile) : List SourceFile → List Chunk → Prop
  | plain (h : chunker.usesPool files = false) :
      Gives chunker files files (files.map chunker.chunkFile).flatten
  | pooled (h : chunker.usesPool files = true) {events : List PoolEvent} {pool : Pool}
      (hrun : (Pool.start chunker.workers files).run chunker events = some pool)
      (hdone : pool.isDone = true) :
      Gives chunker files pool.reported pool.collected.flatten

end Chunker

end SourceChunks
