import TeleClassic.Framework.Run
import TeleClassic.Framework.Ring
import Mathlib.Algebra.Group.Nat.Defs

/-!
# The thread pool (`thread_pool.c`)

Four ring buffers of tasks, one for each priority, shared by `num_threads`
workers. Everything the pool does to its state it does with `pool->lock`
held, so one critical section is one step: a `System` is the pool between two
critical sections, with what each worker is doing. `System.accepted`,
`System.executed` and the number of calls in `Worker.running` are ghosts: the
tasks whose enqueue succeeded, the tasks that have returned, and how often a
running task has called `tc_thread_schedule_next` or `tc_thread_schedule_next2`.

A worker that waits on `not_empty` is `waiting`; a signal, a broadcast or a
spurious wake-up makes it `ready` to take the lock again. A failed `TC_ASSERT`
halts the process: `assertFailed` is set and nothing happens any more.
-/

namespace TC.Impl.ThreadPool

/-- `tc_thread_pool_task_priority_t` (less `INVALID`): the buffer of a task. -/
inductive Priority where
  | high
  | medium
  | blocking
  | low
deriving DecidableEq, Repr

/-- The buffers, in the order of `task_prio_buffer`. -/
def Priority.all : List Priority := [.high, .medium, .blocking, .low]

/-- The buffer at an index of `task_prio_buffer`. -/
def Priority.ofIndex : Nat → Priority
  | 0 => .high
  | 1 => .medium
  | 2 => .blocking
  | _ => .low

/-- `tc_thread_pool_context_t`: a task, with `NULL` as `none`. -/
structure Context (F A : Type) where
  priority : Priority
  func : Option F
  arg : Option A
  sessionGeneration : Int
deriving DecidableEq, Repr

/-- What a dequeue returns when there is nothing to dequeue. -/
def Context.invalid {F A : Type} : Context F A :=
  { priority := .low, func := none, arg := none, sessionGeneration := 0 }

/-- `round_robin_pattern`: a string of the letters `A` to `D`. -/
structure Pattern where
  letters : List Char
  nonempty : letters ≠ []
  valid : ∀ c ∈ letters, c ∈ ['A', 'B', 'C', 'D']

/-- The pattern `tc_server_init` passes. -/
def serverPattern : Pattern where
  letters := ['A', 'A', 'B', 'C', 'A', 'A', 'B', 'C', 'D']
  nonempty := by simp
  valid := by simp

/-- `tc_thread_pool_t`. -/
structure Pool (F A : Type) where
  taskPrioBuffer : Priority → Ring (Context F A)
  roundRobinPattern : Pattern
  numThreads : Nat
  roundRobinIndex : Nat
  activeThreads : Int
  blockingActive : Nat
  maxBlockingThreads : Nat
  shutdown : Bool

/-- What a worker thread is doing between two critical sections. -/
inductive Worker (F A : Type) where
  | ready
  | waiting
  | running (task : Context F A) (calls : Nat)
  | returned

structure System (F A : Type) where
  pool : Pool F A
  workers : List (Worker F A)
  accepted : List (Context F A)
  executed : List (Context F A)
  assertFailed : Bool

variable {F A : Type}

def Pool.setBuffer (pool : Pool F A) (p : Priority) (b : Ring (Context F A)) : Pool F A :=
  { pool with taskPrioBuffer := Function.update pool.taskPrioBuffer p b }

/-! ## Buffers -/

def taskBufferRemainingCapacity (taskBuf : Ring (Context F A)) : Nat := (taskBuf.cap - 1) - taskBuf.used

/-- `task_buffer_remaining_capacity` as it is computed, on values of type `psize`. -/
def psizeRemainingCapacity (headIndex tailIndex capacity : UInt64) : UInt64 :=
  let used := (headIndex + capacity - tailIndex) % capacity
  let remaining := (capacity - 1) - used
  remaining

/-- `sizeof(tc_thread_pool_context_t)`. -/
def contextSize : Nat := 32

def taskBufferIsEmpty (taskBuf : Ring (Context F A)) : Bool := taskBuf.head == taskBuf.tail

def bufferEligible (pool : Pool F A) (p : Priority) : Bool :=
  if taskBufferIsEmpty (pool.taskPrioBuffer p) then false
  else if p = .blocking ∧ pool.blockingActive ≥ pool.maxBlockingThreads then false
  else true

def threadPoolHasTasks (pool : Pool F A) : Bool := Priority.all.any (bufferEligible pool)

/-- The buffer after the enqueue, or `none` where the code returns `FALSE`. -/
def taskBufferEnqueue (pool : Pool F A) (taskBuf : Ring (Context F A)) (task : Context F A)
    (isYield isBlocking : Bool) : Option (Ring (Context F A)) :=
  let remainingCapacity := taskBufferRemainingCapacity taskBuf
  let reservedCapacity := if isBlocking then pool.maxBlockingThreads else pool.numThreads
  if !isYield ∧ remainingCapacity ≤ reservedCapacity then none
  else if (taskBuf.head + 1) % taskBuf.cap = taskBuf.tail then none
  else some (taskBuf.push task)

def taskBufferDequeue (taskBuf : Ring (Context F A)) : Context F A × Ring (Context F A) :=
  if taskBuf.head = taskBuf.tail then (.invalid, taskBuf)
  else (taskBuf.slots taskBuf.tail, taskBuf.pop)

/-- The loop of `task_pool_dequeue`: `n` buffers from the one at `index` on. -/
def dequeueFrom (pool : Pool F A) : Nat → Nat → Context F A × Pool F A
  | 0, _ => (.invalid, pool)
  | n + 1, index =>
    let p := Priority.ofIndex index
    if bufferEligible pool p then
      let (task, taskBuf) := taskBufferDequeue (pool.taskPrioBuffer p)
      (task, pool.setBuffer p taskBuf)
    else dequeueFrom pool n ((index + 1) % 4)

/-- The letter at an index of the pattern, and its index: at the end of the
string both start over. -/
def Pattern.letterAt (pattern : Pattern) (index : Nat) : Nat × Char :=
  match pattern.letters[index]? with
  | some c => (index, c)
  | none => (0, pattern.letters.head pattern.nonempty)

def taskPoolDequeue (pool : Pool F A) : Context F A × Pool F A :=
  let (index, currentBuffer) := pool.roundRobinPattern.letterAt pool.roundRobinIndex
  dequeueFrom { pool with roundRobinIndex := index + 1 } 4 (currentBuffer.toNat - 'A'.toNat)

/-! ## The condition variable -/

/-- A waiting worker is made ready; any other is left as it is. -/
def Worker.wake : Worker F A → Worker F A
  | .waiting => .ready
  | w => w

def wakeFirst : List (Worker F A) → List (Worker F A)
  | [] => []
  | .waiting :: ws => .ready :: ws
  | w :: ws => w :: wakeFirst ws

/-- `p_cond_variable_signal`: one waiting worker, if there is one, is made
ready; `pick` if it waits, the first that waits otherwise. -/
def signal (pick : Nat) (ws : List (Worker F A)) : List (Worker F A) :=
  match ws[pick]? with
  | some .waiting => ws.set pick .ready
  | _ => wakeFirst ws

/-- `p_cond_variable_broadcast`. -/
def broadcast (ws : List (Worker F A)) : List (Worker F A) := ws.map Worker.wake

/-! ## Workers -/

/-- `blocking_active--`, on a `psize`. -/
def psizePred (n : Nat) : Nat := if n = 0 then 2 ^ 64 - 1 else n - 1

/-- A worker at the top of its loop, with the lock held, until it releases it. -/
def workerLoop (s : System F A) (worker : Nat) : System F A :=
  if threadPoolHasTasks s.pool then
    let (task, pool) := taskPoolDequeue s.pool
    { s with
      pool := { pool with
        activeThreads := pool.activeThreads + 1
        blockingActive :=
          if task.priority = .blocking then pool.blockingActive + 1 else pool.blockingActive }
      workers := s.workers.set worker (.running task 0) }
  else if s.pool.shutdown ∧ s.pool.activeThreads = 0 then
    { s with workers := (broadcast s.workers).set worker .returned }
  else
    { s with workers := s.workers.set worker .waiting }

/-- What a worker does with the lock held once its task has returned, before
it is at the top of its loop again. -/
def taskReturned (s : System F A) (worker : Nat) (task : Context F A) (pick : Nat) : System F A :=
  let isBlocking : Bool := task.priority = .blocking
  let pool : Pool F A := { s.pool with
    activeThreads := s.pool.activeThreads - 1
    blockingActive := if isBlocking then psizePred s.pool.blockingActive else s.pool.blockingActive }
  let workers := s.workers.set worker .ready
  let workers := if isBlocking then signal pick workers else workers
  let workers :=
    if pool.shutdown ∧ pool.activeThreads = 0 ∧ threadPoolHasTasks pool = false then broadcast workers
    else workers
  { s with pool := pool, workers := workers, executed := s.executed ++ [task] }

/-! ## Scheduling -/

/-- A task enqueued in the buffer of its priority. -/
def System.enqueue (s : System F A) (task : Context F A) (isYield : Bool) : Option (System F A) :=
  (taskBufferEnqueue s.pool (s.pool.taskPrioBuffer task.priority) task isYield
    (task.priority = .blocking)).map fun taskBuf =>
      { s with pool := s.pool.setBuffer task.priority taskBuf, accepted := s.accepted ++ [task] }

def System.signalled (s : System F A) (pick : Nat) : System F A :=
  { s with workers := signal pick s.workers }

def tcThreadPoolStop (s : System F A) : System F A :=
  { s with pool := { s.pool with shutdown := true }, workers := broadcast s.workers }

def tcThreadScheduleNew (s : System F A) (task : Context F A) (pick : Nat) : Bool × System F A :=
  if s.pool.shutdown then (false, s)
  else
    match s.enqueue task false with
    | none => (false, s)
    | some s' => (true, s'.signalled pick)

/-- The end of `tc_thread_schedule_next` and `tc_thread_schedule_next2`: the
enqueue of a continuation is asserted to succeed. -/
def scheduleYield (s : System F A) (task : Context F A) (pick : Nat) : System F A :=
  match s.enqueue task true with
  | none => { s with assertFailed := true }
  | some s' => s'.signalled pick

def tcThreadScheduleNext (s : System F A) (nextTask shutdownTask : Option F) (arg : Option A)
    (currentPriority : Priority) (currentSessionGeneration : Int) (pick : Nat) : System F A :=
  let task : Context F A :=
    { func := if s.pool.shutdown then shutdownTask else nextTask
      arg := arg
      priority := currentPriority
      sessionGeneration := currentSessionGeneration }
  if task.func.isNone then s else scheduleYield s task pick

def tcThreadScheduleNext2 (s : System F A) (nextTask : Option F) (arg : Option A)
    (currentPriority : Priority) (currentSessionGeneration : Int) (pick : Nat) : Bool × System F A :=
  if s.pool.shutdown then (false, s)
  else
    let task : Context F A :=
      { func := nextTask
        arg := arg
        priority := currentPriority
        sessionGeneration := currentSessionGeneration }
    if task.func.isNone then (false, s) else (true, scheduleYield s task pick)

/-! ## The system -/

/-- What can happen next: a call from any thread, a call from a running task,
a worker's critical section, or a spurious wake-up. -/
inductive Event (F A : Type) where
  | scheduleNew (task : Context F A) (pick : Nat)
  | scheduleNext (worker : Nat) (nextTask shutdownTask : Option F) (arg : Option A)
      (priority : Priority) (sessionGeneration : Int) (pick : Nat)
  | scheduleNext2 (worker : Nat) (nextTask : Option F) (arg : Option A)
      (priority : Priority) (sessionGeneration : Int) (pick : Nat)
  | stop
  | loop (worker : Nat)
  | taskReturns (worker : Nat) (pick : Nat)
  | wakeUp (worker : Nat)

/-- The task a worker is running, with the calls it has made. A task without
a function does nothing: the worker crashes on it. -/
def System.running? (s : System F A) (worker : Nat) : Option (Context F A × Nat) :=
  match s.workers[worker]? with
  | some (.running task calls) => if task.func.isSome then some (task, calls) else none
  | _ => none

/-- One more call of the running task. -/
def System.called (s : System F A) (worker : Nat) (task : Context F A) (calls : Nat) : System F A :=
  { s with workers := s.workers.set worker (.running task (calls + 1)) }

def step (s : System F A) (e : Event F A) : Option (System F A) :=
  if s.assertFailed then none
  else
    match e with
    | .scheduleNew task pick => some (tcThreadScheduleNew s task pick).2
    | .scheduleNext worker nextTask shutdownTask arg priority gen pick =>
      (s.running? worker).map fun (task, calls) =>
        tcThreadScheduleNext (s.called worker task calls) nextTask shutdownTask arg priority gen pick
    | .scheduleNext2 worker nextTask arg priority gen pick =>
      (s.running? worker).map fun (task, calls) =>
        (tcThreadScheduleNext2 (s.called worker task calls) nextTask arg priority gen pick).2
    | .stop => some (tcThreadPoolStop s)
    | .loop worker =>
      match s.workers[worker]? with
      | some .ready => some (workerLoop s worker)
      | _ => none
    | .taskReturns worker pick =>
      (s.running? worker).map fun (task, _) => workerLoop (taskReturned s worker task pick) worker
    | .wakeUp worker =>
      match s.workers[worker]? with
      | some .waiting => some { s with workers := s.workers.set worker .ready }
      | _ => none

/-- `init_task_buffer`, on memory with any contents. -/
def initTaskBuffer (buffer : Nat → Context F A) (capacity : Nat) (h : 0 < capacity) :
    Ring (Context F A) :=
  { slots := buffer, head := 0, tail := 0, cap := capacity, head_lt := h, tail_lt := h }

/-- `TC_THREADS_STD_BUFFER_SIZE`. -/
def stdBufferSize : Nat := 128

/-- `TC_THREADS_MAX_THREADS`. -/
def maxThreads : Nat := 16

/-- The capacities `tc_thread_pool_init` gives the buffers. -/
def capacity : Priority → Nat
  | .high => stdBufferSize / 2
  | .medium => stdBufferSize
  | .blocking => stdBufferSize
  | .low => 2 * stdBufferSize

theorem capacity_pos (p : Priority) : 0 < capacity p := by cases p <;> decide

/-- A new pool with `numThreads` workers, in memory with any contents. -/
def newPool (pattern : Pattern) (numThreads maxBlockingThreads : Nat)
    (memory : Priority → Nat → Context F A) : System F A :=
  { pool :=
      { taskPrioBuffer := fun p => initTaskBuffer (memory p) (capacity p) (capacity_pos p)
        roundRobinPattern := pattern
        numThreads := numThreads
        roundRobinIndex := 0
        activeThreads := 0
        blockingActive := 0
        maxBlockingThreads := maxBlockingThreads
        shutdown := false }
    workers := List.replicate numThreads .ready
    accepted := []
    executed := []
    assertFailed := false }

/-- `tc_thread_pool_init` on a machine with `idealCount` threads, when its
allocations succeed. -/
def tcThreadPoolInit (pattern : Pattern) (idealCount reservedThreads maxBlockingThreads : Nat)
    (memory : Priority → Nat → Context F A) : Option (System F A) :=
  if reservedThreads ≥ idealCount then none
  else some (newPool pattern (min (idealCount - reservedThreads) maxThreads) maxBlockingThreads memory)

end TC.Impl.ThreadPool
