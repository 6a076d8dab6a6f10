import TeleClassic.Impl.TaskBacklog

/-!
# The blocks of a backlog (`task_backlog.c`)

`tc_task_backlog_push` and `tc_task_schedule_backlog` on the blocks themselves, with
the calls that the second makes (`Event`). Pointers are numbers. A new block is
memory with any contents, of which the first `count` entries have been written.
-/

namespace TC.Impl.BacklogBlocks

open TC.Impl.ThreadPool (Priority)
open TC.Impl.TaskBacklog (bufferSize Dispatch)

/-- `tc_task_backlog_entry_t`. -/
structure Entry where
  successHandler : Nat
  failureHandler : Nat
  context : Nat
  priority : Priority
  sessionGeneration : Int
deriving DecidableEq, Repr

/-- The `entries` of a block. -/
abbrev Slots := Vector Entry bufferSize

/-- `tc_task_backlog_block_t`. -/
structure Block where
  entries : Slots
  count : Nat
  count_le : count ≤ bufferSize

/-- `tc_task_backlog_t`: the blocks from `head_block` on, the last of which is
`tail_block`. -/
abbrev Backlog := List Block

/-! ## Pushing -/

def Block.put (block : Block) (entry : Entry) (h : block.count < bufferSize) : Block where
  entries := block.entries.set block.count entry h
  count := block.count + 1
  count_le := h

theorem bufferSize_pos : 0 < bufferSize := by decide

/-- `tc_task_backlog_block_new`, and the first entry. -/
def Block.first (memory : Slots) (entry : Entry) : Block :=
  Block.put ⟨memory, 0, Nat.zero_le bufferSize⟩ entry bufferSize_pos

/-- `tc_task_backlog_push`; `memory` is what `p_malloc` gives, if it is called. -/
def tcTaskBacklogPush (entry : Entry) (memory : Option Slots) : Backlog → Option Backlog
  | [] => memory.map fun memory => [Block.first memory entry]
  | [tail] =>
    if h : tail.count < bufferSize then some [tail.put entry h]
    else memory.map fun memory => [tail, Block.first memory entry]
  | block :: next :: blocks => (tcTaskBacklogPush entry memory (next :: blocks)).map (block :: ·)

/-! ## Scheduling -/

/-- A task in the pool: a success handler, and its arguments. -/
structure Scheduled where
  successHandler : Nat
  result : Nat
  context : Nat
  priority : Priority
  sessionGeneration : Int
deriving DecidableEq, Repr

/-- A call that returns, or a task that the pool accepts. -/
inductive Event where
  | aquire (result : Nat)
  | release (result : Nat)
  | failure (failureHandler context : Nat) (sessionGeneration : Int)
  | scheduleNext2 (task : Scheduled)
  | scheduleNew (task : Scheduled)
deriving DecidableEq, Repr

/-- The arguments of `tc_task_schedule_backlog`, and how `p_malloc` and the pool
answer for each entry. -/
structure Call where
  aquireHandler : Bool
  releaseHandler : Bool
  result : Option Nat
  currentPriority : Priority
  outcomes : Nat → Dispatch

/-- The local variable, what has been called, and the entries gone through. -/
structure State where
  taskChainContinued : Bool
  trace : List Event
  visited : Nat

def Entry.fail (entry : Entry) : Event := .failure entry.failureHandler entry.context entry.sessionGeneration

/-- `if (handler) { handler(result); }` -/
def ifGiven (handler : Bool) (event : Event) : List Event := if handler then [event] else []

/-- The task for an entry. -/
def Entry.task (entry : Entry) (result : Nat) (priority : Priority) : Scheduled :=
  ⟨entry.successHandler, result, entry.context, priority, entry.sessionGeneration⟩

def State.after (s : State) (taskChainContinued : Bool) (events : List Event) : State :=
  ⟨taskChainContinued, s.trace ++ events, s.visited + 1⟩

/-- What follows when the pool does not accept the task of an entry. -/
def Call.refused (call : Call) (entry : Entry) (result : Nat) : List Event :=
  ifGiven call.aquireHandler (.aquire result) ++ [entry.fail] ++ ifGiven call.releaseHandler (.release result)

/-- The body of the loops. -/
def visit (call : Call) (entry : Entry) (s : State) : State :=
  match call.result with
  | none => s.after s.taskChainContinued [entry.fail]
  | some result =>
    let aquired := ifGiven call.aquireHandler (.aquire result)
    if call.outcomes s.visited = .noArgs then s.after s.taskChainContinued [entry.fail]
    else if entry.priority = call.currentPriority ∧ !s.taskChainContinued then
      if call.outcomes s.visited = .refused then s.after s.taskChainContinued (call.refused entry result)
      else s.after true (aquired ++ [.scheduleNext2 (entry.task result call.currentPriority)])
    else
      if call.outcomes s.visited = .refused then s.after s.taskChainContinued (call.refused entry result)
      else s.after s.taskChainContinued (aquired ++ [.scheduleNew (entry.task result entry.priority)])

/-- The inner loop, from `i` on. -/
def visitBlock (call : Call) (block : Block) (i : Nat) (s : State) : State :=
  if h : i < block.count then
    visitBlock call block (i + 1) (visit call (block.entries.get ⟨i, Nat.lt_of_lt_of_le h block.count_le⟩) s)
  else s
termination_by block.count - i

/-- The outer loop. -/
def visitBlocks (call : Call) : Backlog → State → State
  | [], s => s
  | block :: blocks, s => visitBlocks call blocks (visitBlock call block 0 s)

def tcTaskScheduleBacklog (call : Call) (backlog : Backlog) : List Event :=
  (visitBlocks call backlog ⟨false, [], 0⟩).trace

end TC.Impl.BacklogBlocks
