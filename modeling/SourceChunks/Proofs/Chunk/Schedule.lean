import Mathlib
import SourceChunks.Chunk.Pool

/-!
# Every schedule gives the same chunks

Whatever the order in which the workers of a pool take files and finish them, the chunks are
collected in the order of the files.  What ties a result to its file is the slot: a file that
waits or is worked on has one that is empty, and no two have the same one, so every slot is
filled once, with the chunks of its file.

* `Pool.Moves`: what one event can do; `moves_of_step`, `exists_step_of_moves`, and
  `run_keeps` for all events of a run.
* `Pool.Consistent`: what holds of a pool throughout; `Consistent.moves`, `Consistent.run`, and
  `Consistent.of_isDone` for the end of a run.
* `Pool.left`: how many events are left; `left_of_moves`, `left_of_run`.
* `Consistent.progress`, `Consistent.completes`: a pool does not get stuck.
* `chunkFiles_of_schedule`: what chunking several files comes to.
-/

namespace SourceChunks

/-- A list around its item at some place. -/
theorem exists_append_of_getElem? {α : Type} {items : List α} {i : Nat} {x : α}
    (h : items[i]? = some x) : ∃ front rest, items = front ++ x :: rest ∧ front.length = i := by
  obtain ⟨hlt, rfl⟩ := List.getElem?_eq_some_iff.mp h
  refine ⟨items.take i, items.drop (i + 1), ?_, List.length_take_of_le hlt.le⟩
  rw [List.cons_getElem_drop_succ, List.take_append_drop]

namespace Pool

variable {chunker : Chunker} {files : List SourceFile} {pool pool' : Pool}

/-! ## One event -/

/-- What one event can do to a pool. -/
inductive Moves (chunker : Chunker) : Pool → Pool → Prop
  | submit {source : SourceFile} {pending : List SourceFile} {waiting : List (Nat × SourceFile)}
      {workers : List Worker} {slots : List (Option (List Chunk))} {reported : List SourceFile}
      {collected : List (List Chunk)} :
      Moves chunker ⟨source :: pending, waiting, workers, slots, reported, collected⟩
        ⟨pending, waiting ++ [(slots.length, source)], workers, slots ++ [none], reported,
          collected⟩
  | take {slot : Nat} {source : SourceFile} {pending : List SourceFile}
      {before behind : List (Nat × SourceFile)} {front rest : List Worker}
      {slots : List (Option (List Chunk))} {reported : List SourceFile}
      {collected : List (List Chunk)} :
      Moves chunker
        ⟨pending, before ++ (slot, source) :: behind, front ++ .idle :: rest, slots, reported,
          collected⟩
        ⟨pending, before ++ behind, front ++ .chunking slot source :: rest, slots, reported,
          collected⟩
  | report {slot : Nat} {source : SourceFile} {pending : List SourceFile}
      {waiting : List (Nat × SourceFile)} {front rest : List Worker}
      {slots : List (Option (List Chunk))} {reported : List SourceFile}
      {collected : List (List Chunk)} :
      Moves chunker
        ⟨pending, waiting, front ++ .chunking slot source :: rest, slots, reported, collected⟩
        ⟨pending, waiting, front ++ .returning slot (chunker.chunkFile source) :: rest, slots,
          reported ++ [source], collected⟩
  | finish {slot : Nat} {chunks : List Chunk} {pending : List SourceFile}
      {waiting : List (Nat × SourceFile)} {front rest : List Worker}
      {slots : List (Option (List Chunk))} {reported : List SourceFile}
      {collected : List (List Chunk)} :
      Moves chunker
        ⟨pending, waiting, front ++ .returning slot chunks :: rest, slots, reported, collected⟩
        ⟨pending, waiting, front ++ .idle :: rest, slots.set slot (some chunks), reported,
          collected⟩
  | collect {chunks : List Chunk} {waiting : List (Nat × SourceFile)} {workers : List Worker}
      {slots : List (Option (List Chunk))} {reported : List SourceFile}
      {collected : List (List Chunk)} (h : slots[collected.length]? = some (some chunks)) :
      Moves chunker ⟨[], waiting, workers, slots, reported, collected⟩
        ⟨[], waiting, workers, slots, reported, collected ++ [chunks]⟩

theorem set_append_cons {α : Type} (front rest : List α) (x y : α) :
    (front ++ x :: rest).set front.length y = front ++ y :: rest := by
  rw [List.set_append_right _ _ le_rfl, Nat.sub_self, List.set_cons_zero]

@[simp] theorem eraseIdx_append_cons {α : Type} (front rest : List α) (x : α) :
    (front ++ x :: rest).eraseIdx front.length = front ++ rest := by
  rw [List.eraseIdx_append_of_length_le le_rfl, Nat.sub_self, List.eraseIdx_cons_zero]

theorem moves_of_step {event : PoolEvent} (h : pool.step chunker event = some pool') :
    Moves chunker pool pool' := by
  obtain ⟨pending, waiting, workers, slots, reported, collected⟩ := pool
  cases event with
  | submit =>
      cases pending with
      | nil => contradiction
      | cons source pending =>
          obtain rfl := Option.some.inj h
          exact .submit
  | take worker place =>
      simp only [step] at h
      split at h
      · rename_i slot source hworker hplace
        obtain ⟨front, rest, rfl, rfl⟩ := exists_append_of_getElem? hworker
        obtain ⟨before, behind, rfl, rfl⟩ := exists_append_of_getElem? hplace
        rw [set_append_cons, eraseIdx_append_cons] at h
        obtain rfl := Option.some.inj h
        exact .take
      · contradiction
  | report worker =>
      simp only [step] at h
      split at h
      · rename_i slot source hworker
        obtain ⟨front, rest, rfl, rfl⟩ := exists_append_of_getElem? hworker
        rw [set_append_cons] at h
        obtain rfl := Option.some.inj h
        exact .report
      · contradiction
  | finish worker =>
      simp only [step] at h
      split at h
      · rename_i slot chunks hworker
        obtain ⟨front, rest, rfl, rfl⟩ := exists_append_of_getElem? hworker
        rw [set_append_cons] at h
        obtain rfl := Option.some.inj h
        exact .finish
      · contradiction
  | collect =>
      simp only [step] at h
      split at h
      · rename_i chunks hslot
        obtain rfl := Option.some.inj h
        exact .collect hslot
      · contradiction

theorem exists_step_of_moves (h : Moves chunker pool pool') :
    ∃ event, pool.step chunker event = some pool' := by
  cases h with
  | submit => exact ⟨.submit, rfl⟩
  | @take _ _ _ before _ front =>
      refine ⟨.take front.length before.length, ?_⟩
      simp [step, eraseIdx_append_cons]
  | @report _ _ _ _ front =>
      refine ⟨.report front.length, ?_⟩
      simp [step]
  | @finish _ _ _ _ front =>
      refine ⟨.finish front.length, ?_⟩
      simp [step]
  | collect hslot =>
      refine ⟨.collect, ?_⟩
      simp [step, hslot]

/-- What every event keeps holds behind all events. -/
theorem run_keeps {P : Pool → Prop} {events : List PoolEvent}
    (hkeeps : ∀ pool pool', Moves chunker pool pool' → P pool → P pool')
    (hrun : pool.run chunker events = some pool') (h : P pool) : P pool' := by
  induction events generalizing pool with
  | nil =>
      obtain rfl := Option.some.inj hrun
      exact h
  | cons event events ih =>
      obtain ⟨next, hstep, hrest⟩ := Option.bind_eq_some_iff.mp hrun
      exact ih hrest (hkeeps _ _ (moves_of_step hstep) h)

end Pool

/-! ## What holds throughout -/

namespace Worker

/-- The slot that a worker is to fill. -/
def slot? : Worker → Option Nat
  | idle => none
  | chunking slot _ => some slot
  | returning slot _ => some slot

/-- The file that a worker is to report. -/
def source? : Worker → Option SourceFile
  | chunking _ source => some source
  | _ => none

theorem source?_eq_none {worker : Worker} (h : worker.slot? = none) : worker.source? = none := by
  cases worker with
  | idle | returning => rfl
  | chunking => simp [slot?] at h

/-- A worker has the file of its slot, or the chunks of that file. -/
def Serves (chunker : Chunker) (files : List SourceFile) : Worker → Prop
  | idle => True
  | chunking slot source => files[slot]? = some source
  | returning slot chunks => files[slot]?.map chunker.chunkFile = some chunks

/-- How many events it takes until a worker is idle. -/
def left : Worker → Nat
  | idle => 0
  | chunking _ _ => 2
  | returning _ _ => 1

@[simp] theorem slot?_idle : idle.slot? = none := rfl

@[simp] theorem slot?_chunking (slot : Nat) (source : SourceFile) :
    (chunking slot source).slot? = some slot := rfl

@[simp] theorem slot?_returning (slot : Nat) (chunks : List Chunk) :
    (returning slot chunks).slot? = some slot := rfl

@[simp] theorem source?_idle : idle.source? = none := rfl

@[simp] theorem source?_chunking (slot : Nat) (source : SourceFile) :
    (chunking slot source).source? = some source := rfl

@[simp] theorem source?_returning (slot : Nat) (chunks : List Chunk) :
    (returning slot chunks).source? = none := rfl

@[simp] theorem left_idle : idle.left = 0 := rfl

@[simp] theorem left_chunking (slot : Nat) (source : SourceFile) :
    (chunking slot source).left = 2 := rfl

@[simp] theorem left_returning (slot : Nat) (chunks : List Chunk) :
    (returning slot chunks).left = 1 := rfl

end Worker

namespace Pool

variable {chunker : Chunker} {files : List SourceFile} {pool pool' : Pool}

/-- The slots that are to be filled by a worker, or wait for one. -/
def openSlots (pool : Pool) : List Nat :=
  pool.waiting.map Prod.fst ++ pool.workers.filterMap Worker.slot?

/-- The files that are still to be reported. -/
def unreported (pool : Pool) : List SourceFile :=
  pool.workers.filterMap Worker.source? ++ (pool.waiting.map Prod.snd ++ pool.pending)

/-- What holds of a pool that was given some files. -/
structure Consistent (chunker : Chunker) (files : List SourceFile) (pool : Pool) : Prop where
  submitted : pool.slots.length ≤ files.length ∧ pool.pending = files.drop pool.slots.length
  /-- An empty slot has one task that is to fill it, and a slot that is filled has none. -/
  tasks : ∀ i, pool.openSlots.count i = if pool.slots[i]? = some none then 1 else 0
  waits : ∀ task ∈ pool.waiting, files[task.1]? = some task.2
  serves : ∀ worker ∈ pool.workers, worker.Serves chunker files
  /-- A slot that is filled has the chunks of its file. -/
  filled : ∀ (i : Nat) (chunks : List Chunk), pool.slots[i]? = some (some chunks) →
    files[i]?.map chunker.chunkFile = some chunks
  collected : ∀ (i : Nat) (chunks : List Chunk), pool.collected[i]? = some chunks →
    pool.slots[i]? = some (some chunks)
  /-- Every file was reported once, or will be. -/
  reported : (pool.reported ++ pool.unreported).Perm files

theorem Consistent.start (chunker : Chunker) (files : List SourceFile) (workers : Nat) :
    Consistent chunker files (start workers files) where
  submitted := by simp [Pool.start]
  tasks := by simp [Pool.start, openSlots, List.filterMap_replicate]
  waits := by simp [Pool.start]
  serves := by
    intro worker hworker
    obtain rfl := List.eq_of_mem_replicate hworker
    trivial
  filled := by simp [Pool.start]
  collected := by simp [Pool.start]
  reported := by simp [Pool.start, unreported, List.filterMap_replicate]

/-- A file is not reported twice, and none is forgotten. -/
theorem reported_of_moves (h : Moves chunker pool pool') :
    (pool'.reported ++ pool'.unreported).Perm (pool.reported ++ pool.unreported) := by
  rw [List.perm_iff_count]
  intro file
  cases h with
  | submit | take | report =>
      simp only [unreported, List.map_append, List.map_cons, List.map_nil, List.filterMap_append,
        List.filterMap_cons, Worker.source?_idle, Worker.source?_chunking,
        Worker.source?_returning, List.count_append, List.count_cons, List.count_nil]
      omega
  | finish =>
      simp only [unreported, List.filterMap_append, List.filterMap_cons, Worker.source?_idle,
        Worker.source?_returning]
  | collect => rfl

/-- A slot that a file gets is empty and has the task of that file, until the task fills it. -/
theorem tasks_of_moves
    (htasks : ∀ i, pool.openSlots.count i = if pool.slots[i]? = some none then 1 else 0)
    (h : Moves chunker pool pool') (i : Nat) :
    pool'.openSlots.count i = if pool'.slots[i]? = some none then 1 else 0 := by
  have hi := htasks i
  cases h with
  | @submit _ _ _ _ slots =>
      simp only [openSlots, List.map_append, List.map_cons, List.map_nil, List.count_append,
        List.count_singleton, beq_iff_eq] at hi ⊢
      rcases lt_trichotomy i slots.length with hlt | rfl | hgt
      · rw [if_neg hlt.ne', List.getElem?_append_left hlt]
        omega
      · rw [List.getElem?_concat_length, if_pos rfl, if_pos rfl]
        rw [List.getElem?_eq_none le_rfl, if_neg (by simp)] at hi
        omega
      · rw [if_neg hgt.ne, List.getElem?_eq_none (by simpa using hgt), if_neg (by simp)]
        rw [List.getElem?_eq_none hgt.le, if_neg (by simp)] at hi
        omega
  | take | report =>
      simp only [openSlots, List.map_append, List.map_cons, List.filterMap_append,
        List.filterMap_cons, Worker.slot?_idle, Worker.slot?_chunking, Worker.slot?_returning,
        List.count_append, List.count_cons] at hi ⊢
      omega
  | @finish slot chunks _ _ _ _ slots =>
      simp only [openSlots, List.filterMap_append, List.filterMap_cons, Worker.slot?_idle,
        Worker.slot?_returning, List.count_append, List.count_cons, beq_iff_eq] at hi ⊢
      rcases eq_or_ne i slot with rfl | hne
      · rw [if_pos rfl] at hi
        split at hi
        · rw [if_neg (by simp [List.getElem?_set])]
          omega
        · omega
      · rw [if_neg hne.symm] at hi
        rw [List.getElem?_set_ne hne.symm]
        omega
  | collect => exact hi

namespace Consistent

theorem collected_le (h : Consistent chunker files pool) :
    pool.collected.length ≤ pool.slots.length := by
  by_contra! hlt
  have hslot := h.collected pool.slots.length _ (List.getElem?_eq_getElem hlt)
  rw [List.getElem?_eq_none le_rfl] at hslot
  contradiction

/-- The file that is submitted next is that of the next slot. -/
theorem next_source {source : SourceFile} {pending : List SourceFile}
    (h : Consistent chunker files pool) (hpending : pool.pending = source :: pending) :
    files[pool.slots.length]? = some source ∧ pending = files.drop (pool.slots.length + 1) := by
  obtain ⟨-, hdrop⟩ := h.submitted
  rw [hpending] at hdrop
  constructor
  · rw [← List.head?_drop, ← hdrop, List.head?_cons]
  · rw [← List.drop_drop, ← hdrop, List.drop_one, List.tail_cons]

theorem mem_openSlots (h : Consistent chunker files pool) {i : Nat} :
    i ∈ pool.openSlots ↔ pool.slots[i]? = some none := by
  rw [← List.count_pos_iff, h.tasks i]
  split <;> simp_all

/-- The slot that a worker has is empty. -/
theorem slot_eq_none {worker : Worker} {slot : Nat} (h : Consistent chunker files pool)
    (hworker : worker ∈ pool.workers) (hslot : worker.slot? = some slot) :
    pool.slots[slot]? = some none :=
  h.mem_openSlots.mp (List.mem_append_right _ (List.mem_filterMap.mpr ⟨worker, hworker, hslot⟩))

theorem submitted_of_moves (h : Consistent chunker files pool) (hmoves : Moves chunker pool pool') :
    pool'.slots.length ≤ files.length ∧ pool'.pending = files.drop pool'.slots.length := by
  cases hmoves with
  | submit =>
      obtain ⟨hsource, hdrop⟩ := h.next_source rfl
      have hlt := (List.getElem?_eq_some_iff.mp hsource).1
      simpa using ⟨hlt, hdrop⟩
  | take | report | collect => exact h.submitted
  | finish => simpa using h.submitted

theorem waits_of_moves (h : Consistent chunker files pool) (hmoves : Moves chunker pool pool') :
    ∀ task ∈ pool'.waiting, files[task.1]? = some task.2 := by
  cases hmoves with
  | submit =>
      intro task htask
      rcases List.mem_append.mp htask with htask | htask
      · exact h.waits task htask
      · obtain rfl := List.mem_singleton.mp htask
        exact (h.next_source rfl).1
  | take =>
      intro task htask
      apply h.waits task
      simp only [List.mem_append, List.mem_cons] at htask ⊢
      tauto
  | report | finish | collect => exact h.waits

theorem serves_of_moves (h : Consistent chunker files pool) (hmoves : Moves chunker pool pool') :
    ∀ worker ∈ pool'.workers, worker.Serves chunker files := by
  -- All workers but one are as they were.
  have hothers {front rest : List Worker} {before behind : Worker}
      (hworkers : pool.workers = front ++ before :: rest) (hbehind : behind.Serves chunker files) :
      ∀ worker ∈ front ++ behind :: rest, worker.Serves chunker files := by
    have hserves := h.serves
    rw [hworkers, List.forall_mem_append, List.forall_mem_cons] at hserves
    rw [List.forall_mem_append, List.forall_mem_cons]
    exact ⟨hserves.1, hbehind, hserves.2.2⟩
  cases hmoves with
  | submit | collect => exact h.serves
  | take => exact hothers rfl (h.waits _ List.mem_append_cons_self)
  | @report slot source =>
      have hsource : files[slot]? = some source := h.serves _ List.mem_append_cons_self
      exact hothers rfl (by rw [Worker.Serves, hsource, Option.map_some])
  | finish => exact hothers rfl trivial

theorem filled_of_moves (h : Consistent chunker files pool) (hmoves : Moves chunker pool pool')
    (i : Nat) (chunks : List Chunk) (hi : pool'.slots[i]? = some (some chunks)) :
    files[i]?.map chunker.chunkFile = some chunks := by
  cases hmoves with
  | @submit _ _ _ _ slots =>
      rcases Nat.lt_or_ge i slots.length with hslot | hslot
      · exact h.filled i chunks (by rwa [List.getElem?_append_left hslot] at hi)
      · rw [List.getElem?_append_right hslot, List.getElem?_singleton] at hi
        split at hi <;> simp at hi
  | @finish slot found =>
      rcases eq_or_ne slot i with rfl | hne
      · obtain ⟨-, rfl⟩ : _ ∧ found = chunks := by simpa [List.getElem?_set] using hi
        exact h.serves _ List.mem_append_cons_self
      · exact h.filled i chunks (by rwa [List.getElem?_set_ne hne] at hi)
  | take | report | collect => exact h.filled i chunks hi

theorem collected_of_moves (h : Consistent chunker files pool) (hmoves : Moves chunker pool pool')
    (i : Nat) (chunks : List Chunk) (hi : pool'.collected[i]? = some chunks) :
    pool'.slots[i]? = some (some chunks) := by
  cases hmoves with
  | submit =>
      have hslot := h.collected i chunks hi
      have hlt := (List.getElem?_eq_some_iff.mp hslot).1
      exact (List.getElem?_append_left hlt).trans hslot
  | @finish slot found =>
      -- A slot that was collected is filled, and no worker has it.
      have hslot := h.collected i chunks hi
      have hempty := h.slot_eq_none List.mem_append_cons_self rfl
      have hne : slot ≠ i := by
        rintro rfl
        simp [hempty] at hslot
      exact (List.getElem?_set_ne hne).trans hslot
  | @collect found _ _ _ _ collected hslot =>
      rcases Nat.lt_or_ge i collected.length with hlt | hge
      · exact h.collected i chunks (by rwa [List.getElem?_append_left hlt] at hi)
      · rw [List.getElem?_append_right hge, List.getElem?_singleton] at hi
        split at hi
        · obtain rfl := Option.some.inj hi
          obtain rfl : i = collected.length := by omega
          exact hslot
        · contradiction
  | take | report => exact h.collected i chunks hi

/-- An event keeps what holds of a pool. -/
theorem moves (h : Consistent chunker files pool) (hmoves : Moves chunker pool pool') :
    Consistent chunker files pool' where
  submitted := h.submitted_of_moves hmoves
  tasks := tasks_of_moves h.tasks hmoves
  waits := h.waits_of_moves hmoves
  serves := h.serves_of_moves hmoves
  filled := h.filled_of_moves hmoves
  collected := h.collected_of_moves hmoves
  reported := (reported_of_moves hmoves).trans h.reported

theorem run {events : List PoolEvent} (h : Consistent chunker files pool)
    (hrun : pool.run chunker events = some pool') : Consistent chunker files pool' :=
  run_keeps (fun _ _ hmoves h => h.moves hmoves) hrun h

/-- A pool that is done has the chunks of all files, in the order of the files, and has
reported each of them. -/
theorem of_isDone (h : Consistent chunker files pool) (hdone : pool.isDone = true) :
    pool.collected = files.map chunker.chunkFile ∧ pool.reported.Perm files := by
  rw [isDone, Bool.and_eq_true, List.isEmpty_iff, beq_iff_eq] at hdone
  obtain ⟨hpending, hlength⟩ := hdone
  obtain ⟨hle, hdrop⟩ := h.submitted
  rw [hpending, eq_comm, List.drop_eq_nil_iff] at hdrop
  constructor
  · apply List.ext_getElem?
    intro i
    rw [List.getElem?_map]
    cases hi : pool.collected[i]? with
    | some chunks => exact (h.filled i chunks (h.collected i chunks hi)).symm
    | none =>
        have hge := List.getElem?_eq_none_iff.mp hi
        rw [List.getElem?_eq_none (by omega), Option.map_none]
  · have hopen : pool.openSlots = [] := by
      rw [List.eq_nil_iff_forall_not_mem]
      intro i hmem
      have hslot := h.mem_openSlots.mp hmem
      have hlt := (List.getElem?_eq_some_iff.mp hslot).1
      rw [h.collected i _ (List.getElem?_eq_getElem (by omega))] at hslot
      simp at hslot
    obtain ⟨hwaiting, hworkers⟩ := List.append_eq_nil_iff.mp hopen
    have hsources : pool.workers.filterMap Worker.source? = [] := by
      rw [List.filterMap_eq_nil_iff] at hworkers ⊢
      intro worker hworker
      exact Worker.source?_eq_none (hworkers worker hworker)
    have hunreported : pool.unreported = [] := by
      rw [unreported, hsources, List.map_eq_nil_iff.mp hwaiting, hpending, List.map_nil,
        List.append_nil, List.append_nil]
    simpa [hunreported] using h.reported

end Consistent

/-! ## The way to the end -/

/-- How many events it takes until a pool is done. -/
def left (pool : Pool) : Nat :=
  5 * pool.pending.length + 3 * pool.waiting.length + (pool.workers.map Worker.left).sum +
    (pool.slots.length - pool.collected.length)

@[simp] theorem left_start (workers : Nat) (files : List SourceFile) :
    (start workers files).left = 5 * files.length := by
  simp [left, start]

theorem left_of_moves (h : Consistent chunker files pool) (hmoves : Moves chunker pool pool') :
    pool.left = pool'.left + 1 := by
  have hle := h.collected_le
  cases hmoves with
  | submit | take | report | finish =>
      simp only [left, List.map_append, List.map_cons, List.length_append, List.length_cons,
        List.length_nil, List.length_set, List.sum_append, List.sum_cons, Worker.left_idle,
        Worker.left_chunking, Worker.left_returning] at hle ⊢
      omega
  | collect hslot =>
      have hlt := (List.getElem?_eq_some_iff.mp hslot).1
      simp only [left, List.length_append, List.length_singleton]
      omega

theorem left_of_run {events : List PoolEvent} (h : Consistent chunker files pool)
    (hrun : pool.run chunker events = some pool') : pool.left = pool'.left + events.length := by
  induction events generalizing pool with
  | nil =>
      obtain rfl := Option.some.inj hrun
      rfl
  | cons event events ih =>
      obtain ⟨next, hstep, hrest⟩ := Option.bind_eq_some_iff.mp hrun
      have hmoves := moves_of_step hstep
      rw [left_of_moves h hmoves, ih (h.moves hmoves) hrest, List.length_cons]
      omega

theorem workers_ne_nil_of_moves (hmoves : Moves chunker pool pool') (h : pool.workers ≠ []) :
    pool'.workers ≠ [] := by
  cases hmoves with
  | submit | collect => exact h
  | take | report | finish => simp

/-- There is always something that can happen next, until the pool is done. -/
theorem Consistent.progress (h : Consistent chunker files pool) (hworkers : pool.workers ≠ [])
    (hdone : pool.isDone = false) : ∃ pool', Moves chunker pool pool' := by
  obtain ⟨pending, waiting, workers, slots, reported, collected⟩ := pool
  cases pending with
  | cons source pending => exact ⟨_, .submit⟩
  | nil =>
      have hlt : collected.length < slots.length := by
        refine lt_of_le_of_ne h.collected_le fun heq => ?_
        simp [isDone, heq] at hdone
      obtain ⟨slot, hslot⟩ : ∃ slot, slots[collected.length]? = some slot :=
        ⟨_, List.getElem?_eq_getElem hlt⟩
      cases slot with
      | some chunks => exact ⟨_, .collect hslot⟩
      | none =>
          -- The next slot is empty, so its task waits or is with a worker.
          have hopen := h.mem_openSlots.mpr hslot
          by_cases hbusy : ∃ worker ∈ workers, worker ≠ .idle
          · obtain ⟨worker, hmem, hne⟩ := hbusy
            obtain ⟨front, rest, rfl⟩ := List.append_of_mem hmem
            cases worker with
            | idle => contradiction
            | chunking slot source => exact ⟨_, .report⟩
            | returning slot chunks => exact ⟨_, .finish⟩
          · push Not at hbusy
            rcases List.mem_append.mp hopen with hwaits | hworks
            · obtain ⟨⟨slot, source⟩, hmem, -⟩ := List.mem_map.mp hwaits
              obtain ⟨before, behind, rfl⟩ := List.append_of_mem hmem
              obtain ⟨worker, hidle⟩ := List.exists_mem_of_ne_nil _ hworkers
              obtain rfl := hbusy worker hidle
              obtain ⟨front, rest, rfl⟩ := List.append_of_mem hidle
              exact ⟨_, .take⟩
            · obtain ⟨worker, hmem, hslot⟩ := List.mem_filterMap.mp hworks
              rw [hbusy worker hmem] at hslot
              contradiction

/-- A pool can always be brought to its end. -/
theorem Consistent.completes (h : Consistent chunker files pool) (hworkers : pool.workers ≠ []) :
    ∃ events pool', pool.run chunker events = some pool' ∧ pool'.isDone = true := by
  induction hn : pool.left using Nat.strong_induction_on generalizing pool with
  | _ n ih =>
      cases hdone : pool.isDone with
      | true => exact ⟨[], pool, rfl, hdone⟩
      | false =>
          obtain ⟨next, hmoves⟩ := h.progress hworkers hdone
          obtain ⟨event, hstep⟩ := exists_step_of_moves hmoves
          have hleft := left_of_moves h hmoves
          obtain ⟨events, pool', hrun, hdone⟩ := ih next.left (by omega) (h.moves hmoves)
            (workers_ne_nil_of_moves hmoves hworkers) rfl
          exact ⟨event :: events, pool', by rw [Pool.run, hstep, Option.bind_some, hrun], hdone⟩

end Pool

/-! ## Chunking several files -/

namespace Chunker

variable {chunker : Chunker} {files reported : List SourceFile} {chunks : List Chunk}

@[simp] theorem chunkFiles_append (chunker : Chunker) (files more : List SourceFile) :
    chunker.chunkFiles (files ++ more) = chunker.chunkFiles files ++ chunker.chunkFiles more :=
  List.flatMap_append

theorem Gives.eq (h : chunker.Gives files reported chunks) :
    chunks = chunker.chunkFiles files ∧ reported.Perm files := by
  cases h with
  | plain => exact ⟨rfl, .refl _⟩
  | pooled huses hrun hdone =>
      obtain ⟨hcollected, hreported⟩ :=
        ((Pool.Consistent.start chunker files chunker.workers).run hrun).of_isDone hdone
      exact ⟨by rw [hcollected]; rfl, hreported⟩

theorem workers_start_ne_nil (h : chunker.usesPool files = true) :
    (Pool.start chunker.workers files).workers ≠ [] := by
  rw [usesPool, Bool.and_eq_true, decide_eq_true_iff] at h
  rw [Pool.start, ← List.length_pos_iff, List.length_replicate]
  omega

/-- A pool that some files are given to needs five events for each of them, and can be brought
to its end from wherever it is. -/
theorem run_of_usesPool {events : List PoolEvent} {pool : Pool} (h : chunker.usesPool files = true)
    (hrun : (Pool.start chunker.workers files).run chunker events = some pool) :
    events.length ≤ 5 * files.length ∧
      ∃ more done, pool.run chunker more = some done ∧ done.isDone = true := by
  have hstart := Pool.Consistent.start chunker files chunker.workers
  have hleft := Pool.left_of_run hstart hrun
  rw [Pool.left_start] at hleft
  refine ⟨by omega, (hstart.run hrun).completes ?_⟩
  exact Pool.run_keeps (fun _ _ => Pool.workers_ne_nil_of_moves) hrun (workers_start_ne_nil h)

theorem exists_gives (chunker : Chunker) (files : List SourceFile) :
    ∃ reported chunks, chunker.Gives files reported chunks := by
  cases huses : chunker.usesPool files with
  | false => exact ⟨_, _, .plain huses⟩
  | true =>
      obtain ⟨events, pool, hrun, hdone⟩ :=
        (Pool.Consistent.start chunker files chunker.workers).completes (workers_start_ne_nil huses)
      exact ⟨_, _, .pooled huses hrun hdone⟩

end Chunker

/-- However the workers of a pool take the files and finish them, chunking several files comes
to the chunks of each of them, in the order of the files, and every file is reported once.  It
always comes to something: no pool runs forever, and each can be brought to its end from
wherever it is.  So the chunks of two lists of files one behind the other are the chunks of the
one behind those of the other. -/
theorem chunkFiles_of_schedule (chunker : Chunker) (files : List SourceFile) :
    (∃ reported chunks, chunker.Gives files reported chunks) ∧
    (∀ reported chunks, chunker.Gives files reported chunks →
      chunks = files.flatMap (fun file => chunkText chunker.limit file.path file.text) ∧
      chunks = chunker.chunkFiles files ∧ reported.Perm files) ∧
    (∀ more reported reported' reported'' chunks chunks' chunks'',
      chunker.Gives files reported chunks → chunker.Gives more reported' chunks' →
      chunker.Gives (files ++ more) reported'' chunks'' → chunks'' = chunks ++ chunks') ∧
    (chunker.usesPool files = true → ∀ events pool,
      (Pool.start chunker.workers files).run chunker events = some pool →
      events.length ≤ 5 * files.length ∧
      ∃ more done, pool.run chunker more = some done ∧ done.isDone = true) := by
  refine ⟨chunker.exists_gives files, ?_, ?_, ?_⟩
  · intro reported chunks h
    exact ⟨h.eq.1, h.eq⟩
  · intro more reported reported' reported'' chunks chunks' chunks'' h h' h''
    rw [h.eq.1, h'.eq.1, h''.eq.1, chunker.chunkFiles_append]
  · intro huses events pool hrun
    exact Chunker.run_of_usesPool huses hrun

/-- Two files. -/
def twoFiles : List SourceFile :=
  [⟨"a.bal", "int x = 1;"⟩, ⟨"b.bal", "int y = 2;"⟩]

/-- Two workers take one file each, and the second one is faster. -/
def laterFirst : List PoolEvent :=
  [.submit, .submit, .take 0 0, .take 1 0, .report 1, .finish 1, .report 0, .finish 0, .collect,
    .collect]

theorem chunkFiles_of_schedule_laterFirst :
    ∃ pool, (Pool.start 2 twoFiles).run ⟨.standard, 2⟩ laterFirst = some pool ∧
      pool.isDone = true ∧ pool.reported = twoFiles.reverse ∧
      pool.collected.flatten =
        twoFiles.flatMap (fun file => chunkText .standard file.path file.text) ∧
      laterFirst.length ≤ 5 * twoFiles.length := by
  obtain ⟨-, hgives, -, hends⟩ := chunkFiles_of_schedule ⟨.standard, 2⟩ twoFiles
  have huses : Chunker.usesPool ⟨.standard, 2⟩ twoFiles = true := by decide
  obtain ⟨pool, hrun, hdone, hreported⟩ :
      ∃ pool, (Pool.start 2 twoFiles).run ⟨.standard, 2⟩ laterFirst = some pool ∧
        pool.isDone = true ∧ pool.reported = twoFiles.reverse :=
    ⟨_, rfl, rfl, rfl⟩
  exact ⟨pool, hrun, hdone, hreported, (hgives _ _ (.pooled huses hrun hdone)).1,
    (hends huses _ _ hrun).1⟩

end SourceChunks
