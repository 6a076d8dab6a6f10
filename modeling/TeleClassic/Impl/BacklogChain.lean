import TeleClassic.Framework.Chain
import TeleClassic.Impl.BacklogBlocks

/-!
# The blocks of a backlog in memory (`task_backlog.c`)

`tc_task_backlog_push` on the blocks as they are in memory, linked by
`next_block`. The address of a block is the number of blocks allocated before it.
A failed `TC_ASSERT`, an access through `NULL` and a write beyond `entries` have
no result.
-/

namespace TC.Impl.BacklogChain

open TC.SinglyLinked (Links)
open TC.Impl.TaskBacklog (bufferSize)
open TC.Impl.BacklogBlocks (Entry Slots Block)

/-- `tc_task_backlog_t`, and the blocks in memory: `next` is `next_block`. -/
structure Backlog where
  headBlock : Option Nat
  tailBlock : Option Nat
  blocks : Links Nat Block
  made : Nat

def tcTaskBacklogInitialize : Backlog :=
  { headBlock := none, tailBlock := none, blocks := fun _ => none, made := 0 }

/-- `count = 0`, in memory with any contents. -/
def emptyBlock (entries : Slots) : Block := ⟨entries, 0, Nat.zero_le bufferSize⟩

/-- `memory` is what `p_malloc` gives. -/
def tcTaskBacklogBlockNew (backlog : Backlog) : (memory : Option Slots) → Option Nat × Backlog
  | none => (none, backlog)
  | some entries =>
    (some backlog.made,
      { backlog with
        blocks := Function.update backlog.blocks backlog.made (some ⟨emptyBlock entries, none⟩)
        made := backlog.made + 1 })

/-- `block->next_block = next`. -/
def Backlog.setNextBlock (backlog : Backlog) (block next : Nat) : Backlog :=
  { backlog with
    blocks := Function.update backlog.blocks block
      ((backlog.blocks block).map fun link => { link with next := some next }) }

/-- The first `if` of `tc_task_backlog_push`; `false` is its `return FALSE`. -/
def firstBlock (backlog : Backlog) (memory : Option Slots) : Option (Bool × Backlog) :=
  if backlog.headBlock.isNone then
    if backlog.tailBlock.isSome then none
    else
      match tcTaskBacklogBlockNew backlog memory with
      | (none, backlog) => some (false, backlog)
      | (some newBlock, backlog) =>
        some (true, { backlog with headBlock := some newBlock, tailBlock := some newBlock })
  else some (true, backlog)

/-- The second `if`. -/
def nextBlock (backlog : Backlog) (memory : Option Slots) : Option (Bool × Backlog) :=
  backlog.tailBlock.bind fun tail => (backlog.blocks tail).bind fun link =>
    if link.value.count = bufferSize then
      match tcTaskBacklogBlockNew backlog memory with
      | (none, backlog) => some (false, backlog)
      | (some newBlock, backlog) =>
        some (true, { backlog.setNextBlock tail newBlock with tailBlock := some newBlock })
    else some (true, backlog)

/-- The write to the tail block. -/
def putEntry (backlog : Backlog) (entry : Entry) : Option Backlog :=
  backlog.tailBlock.bind fun tail => (backlog.blocks tail).bind fun link =>
    if h : link.value.count < bufferSize then
      some { backlog with
        blocks := Function.update backlog.blocks tail (some { link with value := link.value.put entry h }) }
    else none

/-- `memory` and `memory'` are what `p_malloc` gives in the first and in the second
`if`, where it is called. -/
def tcTaskBacklogPush (backlog : Backlog) (entry : Entry) (memory memory' : Option Slots) :
    Option (Bool × Backlog) :=
  (firstBlock backlog memory).bind fun first =>
    if !first.1 then some (false, first.2)
    else
      (nextBlock first.2 memory').bind fun next =>
        if !next.1 then some (false, next.2)
        else (putEntry next.2 entry).map fun backlog => (true, backlog)

end TC.Impl.BacklogChain
