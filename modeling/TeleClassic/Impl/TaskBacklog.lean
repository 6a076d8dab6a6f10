import TeleClassic.Impl.ThreadPool

/-!
# The task backlog (`task_backlog.c`)

Requests that wait for a result. Once there is one, the success handler of each
is scheduled with it, or its failure handler is called. The blocks of a backlog
hold 32 requests each, and a push only allocates when the last block is full.

What the handlers do is a parameter: an action on the state of whoever uses the
backlog. Whether the allocation of the handler's arguments and the scheduling
succeed is given.
-/

namespace TC.Impl.TaskBacklog

open TC.Impl.ThreadPool (Priority)

/-- `tc_task_backlog_entry_t`: a request, with the priority of its success
handler. The number stands for its handlers and their context. -/
structure Request where
  id : Nat
  priority : Priority
deriving DecidableEq, Repr

def bufferSize : Nat := 32

/-- `tc_task_backlog_push`; `alloc` says whether a block can be allocated. -/
def tcTaskBacklogPush (backlog : List Request) (r : Request) (alloc : Bool) : Option (List Request) :=
  if backlog.length % bufferSize = 0 ∧ !alloc then none else some (backlog ++ [r])

/-- How the scheduling of a success handler goes: its arguments cannot be
allocated, the pool does not accept it, or it does. -/
inductive Dispatch where
  | noArgs
  | refused
  | accepted
deriving DecidableEq, Repr

/-- The handlers that a request meets; `success r continued` is its success
handler in the pool, as the next task of the current chain if `continued`. -/
structure Handlers (S : Type) where
  success : Request → Bool → S → S
  failure : Request → S → S
  aquire : S → S
  release : S → S

variable {S : Type}

/-- A request whose result is there. -/
def dispatch (h : Handlers S) (r : Request) (continued : Bool) : Dispatch → S → S
  | .noArgs, s => h.failure r s
  | .refused, s => h.release (h.failure r (h.aquire s))
  | .accepted, s => h.success r continued (h.aquire s)

/-- `tc_task_backlog_invoke_handler`, with `none` as the invalid priority. -/
def tcTaskBacklogInvokeHandler (h : Handlers S) (r : Request) (result : Bool) (current : Option Priority)
    (o : Dispatch) (s : S) : S :=
  if !result then h.failure r s else dispatch h r (current = some r.priority) o s

/-- `tc_task_schedule_backlog`: the requests from number `i` on, with
`task_chain_continued` as `continued`. -/
def tcTaskScheduleBacklog (h : Handlers S) (result : Bool) (current : Priority) (outcomes : Nat → Dispatch) :
    Nat → Bool → List Request → S → S
  | _, _, [], s => s
  | i, continued, r :: rs, s =>
    if !result then tcTaskScheduleBacklog h result current outcomes (i + 1) continued rs (h.failure r s)
    else
      let next := r.priority = current && !continued
      tcTaskScheduleBacklog h result current outcomes (i + 1)
        (continued || next && outcomes i = .accepted) rs (dispatch h r next (outcomes i) s)

end TC.Impl.TaskBacklog
