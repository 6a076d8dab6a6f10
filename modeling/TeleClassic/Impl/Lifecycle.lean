import TeleClassic.Framework.Run
import TeleClassic.Impl.Heartbeat

/-!
# The life of a server (`server.c`, `heartbeat.c`, `thread_pool.c`)

The thread that calls `tc_server_init`, `tc_server_start`, `tc_server_stop` and
`tc_server_finalize` goes through operations (`Op`), each of which sets or reads
flags that the other threads look at; which ones it goes through depends on what
fails and on `server->started`, which no other thread writes. A critical section
of `manager->lock` is one step, of this thread, of `heartbeat_worker` or of a task
that validates a client; the wait for `start_condition` may end without a signal.

`tc_server_init` does not set `server->started`: it is what was in the memory
before. Tasks of clients run once the listener task is scheduled, as long as the
workers of the pool have not returned.
-/

namespace TC.Impl.Lifecycle

open TC.Impl.Heartbeat (Manager HexDigest Call heartbeatCycle tcHeartbeatManagerValidate)

/-- What the calling thread does. -/
inductive Op where
  /-- `tc_thread_pool_init` creates the workers. -/
  | initPool
  | tcThreadPoolStop
  /-- The loop of `tc_thread_pool_finalize`. -/
  | joinWorkers
  /-- `heartbeat_manager_init` sets its fields. -/
  | initManager
  | createHeartbeatThread
  | tcHeartbeatManagerStart
  | tcHeartbeatManagerStop
  | joinHeartbeatThread
  /-- The listener task is scheduled. -/
  | scheduleListener
  | setStarted
deriving DecidableEq, Repr

/-! ## The calls -/

/-- Which calls inside of `tc_server_init` succeed. -/
structure InitEnv where
  address : Bool
  listenerSocket : Bool
  bind : Bool
  threadPool : Bool
  managerLock : Bool
  startCondition : Bool
  authTree : Bool
  heartbeatThread : Bool
  mapCache : Bool
  joinRouter : Bool
  lock : Bool
  /-- `action_lock` of every session. -/
  actionLocks : Bool

/-- The operations of a call, and whether it returns `TRUE`. -/
structure Returned where
  ops : List Op
  success : Bool

def tcThreadPoolFinalize : List Op := [.joinWorkers]

def tcHeartbeatManagerFinalize : List Op := [.joinHeartbeatThread]

def heartbeatManagerInit (env : InitEnv) : Returned :=
  if !env.managerLock then ⟨[.initManager], false⟩
  else if !env.startCondition then ⟨[.initManager], false⟩
  else if !env.authTree then ⟨[.initManager], false⟩
  else if !env.heartbeatThread then ⟨[.initManager], false⟩
  else ⟨[.initManager, .createHeartbeatThread], true⟩

/-- The exits of `tc_server_init` once both managers are there. -/
def giveUp : List Op := [.tcThreadPoolStop] ++ tcThreadPoolFinalize ++ tcHeartbeatManagerFinalize

def tcServerInit (env : InitEnv) : Returned :=
  if !env.address then ⟨[], false⟩
  else if !env.listenerSocket then ⟨[], false⟩
  else if !env.bind then ⟨[], false⟩
  else if !env.threadPool then ⟨[], false⟩
  else
    let manager := heartbeatManagerInit env
    let ops := [.initPool] ++ manager.ops
    if !manager.success then ⟨ops ++ [.tcThreadPoolStop] ++ tcThreadPoolFinalize, false⟩
    else if !env.mapCache then ⟨ops ++ giveUp, false⟩
    else if !env.joinRouter then ⟨ops ++ giveUp, false⟩
    else if !env.lock then ⟨ops ++ giveUp, false⟩
    else if !env.actionLocks then ⟨ops ++ giveUp, false⟩
    else ⟨ops, true⟩

structure StartEnv where
  listen : Bool
  schedule : Bool

def tcServerStart (env : StartEnv) (started : Bool) : Returned :=
  if started then ⟨[], false⟩
  else if !env.listen then ⟨[], false⟩
  else if !env.schedule then ⟨[], false⟩
  else ⟨[.scheduleListener, .tcHeartbeatManagerStart, .setStarted], true⟩

def tcServerStop (started : Bool) : List Op :=
  if !started then [] else [.tcHeartbeatManagerStop, .tcThreadPoolStop]

def tcServerFinalize (started : Bool) : List Op :=
  (if started then tcServerStop started else []) ++ tcThreadPoolFinalize ++ tcHeartbeatManagerFinalize

/-- A life: the memory of `server->started`, and the calls that are made. -/
structure Life where
  started : Bool
  init : InitEnv
  start : Option StartEnv
  stop : Bool

/-- What `tc_server_start` does in a life that comes to it. -/
def Life.startReturned (life : Life) : Returned :=
  life.start.elim ⟨[], false⟩ (tcServerStart · life.started)

/-- A server whose `tc_server_init` has failed is not used. -/
def Life.ops (life : Life) : List Op :=
  let init := tcServerInit life.init
  let started := life.started || life.startReturned.success
  if !init.success then init.ops
  else init.ops ++ life.startReturned.ops ++ (if life.stop then tcServerStop started else []) ++ tcServerFinalize started

/-! ## The threads -/

/-- What the flags are when a thread is joined. -/
inductive Join where
  | workers (shutdown : Bool)
  | heartbeatThread (created started shutdown : Bool)
deriving DecidableEq, Repr

/-- The flags that the calling thread sets. -/
structure Flags where
  started : Bool
  poolShutdown : Bool
  listening : Bool
  threadCreated : Bool
  managerStarted : Bool
  managerShutdown : Bool
  /-- The joins so far. -/
  joins : List Join

def Op.apply (op : Op) (f : Flags) : Flags :=
  match op with
  | .initPool => { f with poolShutdown := false }
  | .tcThreadPoolStop => { f with poolShutdown := true }
  | .joinWorkers => { f with joins := f.joins ++ [.workers f.poolShutdown] }
  | .initManager => { f with managerShutdown := false, managerStarted := false }
  | .createHeartbeatThread => { f with threadCreated := true }
  | .tcHeartbeatManagerStart => { f with managerStarted := true }
  | .tcHeartbeatManagerStop => { f with managerShutdown := true }
  | .joinHeartbeatThread =>
    { f with joins := f.joins ++ [.heartbeatThread f.threadCreated f.managerStarted f.managerShutdown] }
  | .scheduleListener => { f with listening := true }
  | .setStarted => { f with started := true }

/-- Where `heartbeat_worker` is. -/
inductive Worker where
  | notCreated
  /-- In the loop that waits for `started`. -/
  | waiting
  /-- In `p_uthread_sleep`. -/
  | sleeping
  | returned
deriving DecidableEq, Repr

/-- A service that was returned for a key, and whether its salt was generated in
this life. -/
structure Acceptance where
  service : Nat
  salted : Bool
deriving DecidableEq, Repr

structure State where
  flags : Flags
  /-- What is left of the calling thread. -/
  todo : List Op
  /-- The calling thread is inside of a join. -/
  joining : Bool
  /-- All workers of the pool have returned. -/
  poolReturned : Bool
  worker : Worker
  /-- The cycles of `heartbeat_worker` so far. -/
  cycles : Nat
  manager : Manager
  /-- The services for which `heartbeat_generate_salt` was called. -/
  salted : List Nat
  /-- The services returned, but for dummies. -/
  accepted : List Acceptance

/-- The calling thread, before `tc_server_init`; `current_salt` is what was in the
memory. -/
def State.start (life : Life) (manager : Manager) : State where
  flags := {
    started := life.started
    poolShutdown := false
    listening := false
    threadCreated := false
    managerStarted := false
    managerShutdown := false
    joins := [] }
  todo := life.ops
  joining := false
  poolReturned := false
  worker := .notCreated
  cycles := 0
  manager := manager
  salted := []
  accepted := []

/-- A thread to be joined, if the operation is a join, has returned. -/
def State.hasReturned (s : State) : Op → Bool
  | .joinWorkers => s.poolReturned
  | .joinHeartbeatThread => s.worker = .returned
  | _ => true

def Op.isJoin : Op → Bool
  | .joinWorkers | .joinHeartbeatThread => true
  | _ => false

/-- The next operation of the calling thread; a join begins, and ends when the
thread has returned. -/
def mainStep (s : State) : Option State :=
  match s.todo with
  | [] => none
  | op :: todo =>
    if s.joining then
      if s.hasReturned op then some { s with todo := todo, joining := false } else none
    else if op.isJoin then some { s with flags := op.apply s.flags, joining := true }
    else some { s with
      flags := op.apply s.flags
      todo := todo
      worker := if op = .createHeartbeatThread then .waiting else s.worker }

/-- The check of `shutdown` in `heartbeat_worker`, and the cycle after it. -/
def workerLoop (rand : Nat → Nat → Nat) (s : State) : State :=
  if s.flags.managerShutdown then { s with worker := .returned }
  else
    { s with
      manager := heartbeatCycle s.manager rand
      salted := List.range s.manager.services.length
      cycles := s.cycles + 1
      worker := .sleeping }

def workerStep (rand : Nat → Nat → Nat) (s : State) : Option State :=
  match s.worker with
  | .waiting => some (if s.flags.managerStarted then workerLoop rand s else s)
  | .sleeping => some (workerLoop rand s)
  | _ => none

/-- A client that identifies itself. -/
def clientStep (md5 : List Byte → HexDigest) (call : Call) (s : State) : Option State :=
  if !s.flags.listening ∨ s.poolReturned then none
  else
    let (result, manager) := tcHeartbeatManagerValidate md5 call.env s.manager call.username call.key
    let new (i : Nat) : List Acceptance :=
      if s.manager.services[i]?.any (!·.dummyService) then [⟨i, i ∈ s.salted⟩] else []
    some { s with manager, accepted := s.accepted ++ result.elim [] new }

inductive Label where
  | main
  | worker (rand : Nat → Nat → Nat)
  | validate (call : Call)
  /-- The workers of a pool that is stopped have returned. -/
  | poolReturns

def step (md5 : List Byte → HexDigest) (s : State) : Label → Option State
  | .main => mainStep s
  | .worker rand => workerStep rand s
  | .validate call => clientStep md5 call s
  | .poolReturns => if s.flags.poolShutdown then some { s with poolReturned := true } else none

end TC.Impl.Lifecycle
