import TeleClassic.Framework.Prog
import TeleClassic.Impl.ThreadPool
import TeleClassic.Impl.Protocol

/-!
# Sessions of the server (`server.c`, `joinable.c`)

128 session slots, the stack of their free ids, and the thread pool on which
everything runs. A task is a program on the `World`; what it gets from outside
while it runs (received bytes, allocations, the answers of the heartbeat manager
and of joinables) is its `Env`. A task takes the action lock of its session at
its start and releases it at its end, and what it shares with other tasks it changes
in single critical sections, so tasks are run one at a time. A handshake that has
succeeded releases the lock a second time, and then two tasks can be inside at once;
this is not seen here, but in `Impl.Tasks`, where tasks are interleaved lock by lock.

`p_mutex_lock` on a lock that is held does not return: the task stops and its
worker is stuck for good. A failed `TC_ASSERT` and an access to memory that is
not there halt the process. `World.trace` is a ghost: what has happened to each
session, with its generation, which is an integer without bound. A `pint` holds it
as long as its slot was disconnected fewer than `2 ^ 31` times.

A joinable is known by its index in the router. `attempt_join` admits a session
only if it schedules a task for it, and such a task may do what the interface
allows; what joinables send to clients is left out.
-/

namespace TC.Impl.Server

open TC.Impl.ThreadPool TC.Impl.Protocol

/-! ## Sessions -/

/-- `TC_SERVER_MAX_SESSIONS`. -/
def maxSessions : Nat := 128

theorem maxSessions_pos : 0 < maxSessions := by decide

theorem freeId_lt (i : Int) : i.toNat % maxSessions < maxSessions :=
  Nat.mod_lt _ maxSessions_pos

/-- An index of `session_buffer`, which is also the id of the session. -/
abbrev Slot := Fin maxSessions

/-- The functions that are scheduled. -/
inductive Func where
  | listenerWorkerTask
  | tcServerClientListenTask
  | tcServerShutdownClientTask
  | handleBeginCpeNegotiation
  | handleCpeExtinfo
  | handleCpeExtentry
  | handleCpeCustomBlockSupportLevel
  | handlePlayerIdentification
  | handlePlayerSetBlock
  | handlePlayerPositionAndOrientationUpdate
  | joinableTask
deriving DecidableEq, Repr

inductive Arg where
  | server
  | session (slot : Slot)
deriving DecidableEq, Repr

/-- `tc_session_t`; the ping profiler is part of the environment. -/
structure Session where
  username : List Byte
  extCpeVersions : Vector Byte ((maxSupported + 3) / 4)
  clientSocket : Stream
  actionLock : Bool
  authenticatedService : Option Nat
  currentJoinable : Option Nat
  pendingPacketBuffer : Option (List Byte)
  pendingPacketBufferSize : Nat
  pendingPacketOpcode : Int
  supportsCpe : Bool
  currentGeneration : Int
  remainingCpeExtPackets : BitVec 16
  customBlockSupportLevel : Byte

/-- What happens to the session in a slot in a generation. -/
inductive Event where
  | accepted (slot : Slot) (generation : Int)
  | dispatched (slot : Slot) (generation : Int) (handler : Func) (supportsCpe : Bool)
  | validated (slot : Slot) (generation : Int)
  | identified (slot : Slot) (generation : Int) (supportsCpe : Bool)
  | finalizing (slot : Slot) (generation : Int)
  | finished (slot : Slot) (generation : Int)
  | joining (slot : Slot) (generation : Int)
  | joined (slot : Slot) (generation : Int) (joinable : Nat)
  | left (slot : Slot) (generation : Int) (joinable : Nat)
  | handed (slot : Slot) (generation : Int)
  | disconnected (slot : Slot) (generation : Int)
deriving DecidableEq, Repr

/-- `tc_join_router_t`, with the names of its joinables. -/
structure JoinRouter where
  joinables : List String
  defaultJoinable : Option Nat
  stopped : Bool

structure Config where
  serverName : List Byte
  motd : List Byte
  joinRouter : JoinRouter

/-- Why the process halts: an assertion, an access to `pending_packet_buffer` outside
of it, or any other access to memory that is not there. -/
inductive Failure where
  | assertFailed
  | badAccess
  | outOfBuffer
deriving DecidableEq, Repr

/-- `tc_server_t`, with the workers that are stuck. -/
structure World where
  sessionBuffer : Slot → Session
  idBuffer : Int → Slot
  idBufferHead : Int
  threadPool : System Func Arg
  activePlayers : Int
  config : Config
  stuck : List Nat
  halted : Option Failure
  trace : List Event

/-! ## Tasks -/

/-- What `p_socket_receive` finds: bytes that are there, no bytes at the end of
the stream. -/
inductive Receive where
  | data (bytes : List Byte)
  | wouldBlock
  | failed

/-- What a joinable passes as the task to run when the pool has been stopped. -/
inductive OnShutdown where
  | nothing
  | kick
  | own

def OnShutdown.func : OnShutdown → Option Func
  | .nothing => none
  | .kick => some .tcServerShutdownClientTask
  | .own => some .joinableTask

/-- The answer of `attempt_join`, with how the next task was scheduled. -/
inductive Admission where
  | refuse
  | next (shutdown : OnShutdown)
  | new (priority : Priority)

/-- What a task of a joinable does for its session. -/
inductive JoinableAction where
  | listen
  | next (shutdown : OnShutdown)
  | new (priority : Priority)
  | kick (msg : Option String)
  | join (address : Option String)
  | nothing

/-- What a task gets from outside. -/
structure Env where
  pingDue : Bool
  receive : Receive
  packetBuffer : Bool
  memory : Nat → Byte
  accept : Option Stream
  pingProfiler : Bool
  validate : List Byte → List Byte → Option Nat
  attemptJoin : Nat → Admission
  handleSetBlock : (x y z : BitVec 16) → (mode : Byte) → (block : BitVec 16) → Bool
  handlePositionUpdate : (x y z : BitVec 16) → (heading pitch : Byte) → Bool
  joinable : JoinableAction
  pick : Nat

/-- The worker on which a task runs, and its environment. -/
structure Call where
  worker : Nat
  env : Env

abbrev TaskM := Prog Call World

open Prog (ask get modify stop)

def World.setSession (w : World) (slot : Slot) (session : Session) : World :=
  { w with sessionBuffer := Function.update w.sessionBuffer slot session }

def World.emit (w : World) (e : Event) : World := { w with trace := w.trace ++ [e] }

def session (slot : Slot) : TaskM Session := do return (← get).sessionBuffer slot

def modifySession (slot : Slot) (f : Session → Session) : TaskM Unit :=
  modify fun w => w.setSession slot (f (w.sessionBuffer slot))

def emit (e : Event) : TaskM Unit := modify (·.emit e)

/-- The process halts. -/
def halt {α : Type} (failure : Failure) : TaskM α := do
  modify ({ · with halted := some failure })
  stop

def tcAssert (condition : Bool) : TaskM Unit := if condition then return else halt .assertFailed

def pMutexLock (slot : Slot) : TaskM Unit := do
  if (← session slot).actionLock then
    let call ← ask
    modify fun w => { w with stuck := call.worker :: w.stuck }
    stop
  else modifySession slot ({ · with actionLock := true })

def pMutexUnlock (slot : Slot) : TaskM Unit := modifySession slot ({ · with actionLock := false })

/-- A packet sent to the client. -/
def send (slot : Slot) (packet : Packet) : TaskM Bool := do
  let (sent, socket) := packet.send (← session slot).clientSocket
  modifySession slot ({ · with clientSocket := socket })
  match sent with
  | some sent => return sent
  | none => halt .assertFailed

/-- `tc_thread_schedule_next`, called by the running task. -/
def tcThreadScheduleNext (nextTask shutdownTask : Option Func) (arg : Arg) (priority : Priority)
    (generation : Int) : TaskM Unit := do
  let call ← ask
  modify fun w =>
    { w with threadPool := (ThreadPool.step w.threadPool (.scheduleNext call.worker nextTask
        shutdownTask (some arg) priority generation call.env.pick)).getD w.threadPool }
  tcAssert !(← get).threadPool.assertFailed

def tcThreadScheduleNew (task : Func) (arg : Arg) (priority : Priority) (generation : Int) :
    TaskM Bool := do
  let context := { priority, func := some task, arg := some arg, sessionGeneration := generation }
  let (scheduled, pool) :=
    ThreadPool.tcThreadScheduleNew (← get).threadPool context (← ask).env.pick
  modify ({ · with threadPool := pool })
  return scheduled

/-! ## Sessions and their locks -/

def tcSessionAquireActionLock (slot : Slot) (expectedGeneration : Int) : TaskM Bool := do
  pMutexLock slot
  if (← session slot).currentGeneration ≠ expectedGeneration then
    pMutexUnlock slot
    return false
  return true

def tcSessionReleaseActionLock (slot : Slot) : TaskM Unit := pMutexUnlock slot

/-- `tc_session_get_extension_version`, of a supported extension. -/
def tcSessionGetExtensionVersion (session : Session) (extensionIndex : Fin maxSupported) : BitVec 32 :=
  let versions := session.extCpeVersions.get ⟨extensionIndex / 4, by
    have := extensionIndex.isLt
    simp only [maxSupported] at this ⊢
    omega⟩
  (versions.signExtend 32).sshiftRight (extensionIndex % 4 * 2) &&& 0x3

/-- `TC_CPE_CUSTOM_BLOCKS_EXTENSION_INDEX`. -/
def customBlocks : Fin maxSupported := ⟨0, by decide⟩

/-- `TC_CPE_MESSAGE_TYPES_EXTENSION_INDEX`. -/
def messageTypes : Fin maxSupported := ⟨4, by decide⟩

/-- An extension that was negotiated. -/
def supports (session : Session) (extensionIndex : Fin maxSupported) : Bool :=
  0 < (tcSessionGetExtensionVersion session extensionIndex).toInt

/-- The id of a session on top of the free ones; a player less if it was
authenticated. -/
def World.release (w : World) (slot : Slot) : World :=
  { w with
    activePlayers :=
      if (w.sessionBuffer slot).authenticatedService.isSome then w.activePlayers - 1 else w.activePlayers
    idBufferHead := w.idBufferHead - 1
    idBuffer := Function.update w.idBuffer (w.idBufferHead - 1) slot }

/-- `leave`, if the session has a joinable. -/
def leaveCurrent (slot : Slot) : TaskM Unit := do
  let s ← session slot
  match s.currentJoinable with
  | some joinable => emit (.left slot s.currentGeneration joinable)
  | none => return

def disconnectSession (slot : Slot) : TaskM Unit := do
  leaveCurrent slot
  modifySession slot ({ · with currentJoinable := none })
  modifySession slot ({ · with pendingPacketBuffer := none })
  modify fun w =>
    let s := w.sessionBuffer slot
    ((w.setSession slot { s with currentGeneration := s.currentGeneration + 1 }).release slot).emit
      (.disconnected slot s.currentGeneration)

def tcServerKickSession (slot : Slot) (msg : Option String) (expectedGeneration : Int)
    (aquireLock : Bool) : TaskM Unit := do
  if aquireLock then
    unless ← tcSessionAquireActionLock slot expectedGeneration do return
    kick
    tcSessionReleaseActionLock slot
  else kick
where
  kick : TaskM Unit := do
    match msg with
    | some msg =>
      let _ ← send slot (.tcProtocolKick (ascii msg))
      disconnectSession slot
    | none => disconnectSession slot

/-- The session is kicked by a task that holds its lock, and the lock is
released. -/
def kickAndRelease (slot : Slot) (msg : String) : TaskM Unit := do
  tcServerKickSession slot (some msg) (-1) false
  tcSessionReleaseActionLock slot

def tcServerProtocolHandlerCleanup (slot : Slot) (nextTask : Option Func) (priority : Priority)
    (generation : Int) : TaskM Unit := do
  modifySession slot ({ · with
    pendingPacketOpcode := -1
    pendingPacketBuffer := none
    pendingPacketBufferSize := 0 })
  if nextTask.isSome then
    tcThreadScheduleNext nextTask (some .tcServerShutdownClientTask) (.session slot) priority generation

def tcServerShutdownClientTask (slot : Slot) (generation : Int) : TaskM Unit :=
  tcServerKickSession slot (some "Server is Shutting Down: Please come back later!") generation true

/-! ## Joining -/

def tcFindJoinable (router : JoinRouter) (address : Option String) : Option Nat :=
  match address with
  | none => router.defaultJoinable
  | some address =>
    if address = "default" ∨ address = "" then router.defaultJoinable
    else if router.stopped then none
    else router.joinables.findIdx? (· = address)

def tcJoinRouterInit (joinables : List String) (defaultJoinableName : String) : JoinRouter :=
  let router : JoinRouter := { joinables, defaultJoinable := none, stopped := false }
  { router with defaultJoinable := tcFindJoinable router (some defaultJoinableName) }

/-- `attempt_join`, the `n`th of the task. -/
def attemptJoin (n : Nat) (slot : Slot) (priority : Priority) (generation : Int) : TaskM Bool := do
  match (← ask).env.attemptJoin n with
  | .refuse => return false
  | .next shutdown =>
    tcThreadScheduleNext (some .joinableTask) shutdown.func (.session slot) priority generation
    return true
  | .new newPriority => tcThreadScheduleNew .joinableTask (.session slot) newPriority generation

/-- `TC_MESSAGE_TYPE_CHAT`. -/
def messageTypeChat : Byte := 0

def tcApiSendMessage (slot : Slot) (messageType : Byte) (message : String) : TaskM Bool := do
  if supports (← session slot) messageTypes then
    return ← send slot (.tcProtocolSendMessage messageType (ascii message))
  send slot (.tcProtocolSendMessage 0 (ascii message))

/-- `session->current_joinable = joinable`. -/
def setJoinable (slot : Slot) (joinable : Nat) : TaskM Unit :=
  modify fun w => (w.setSession slot { w.sessionBuffer slot with currentJoinable := some joinable }).emit
    (.joined slot (w.sessionBuffer slot).currentGeneration joinable)

/-- The lock is released if the caller did not hold it. -/
def releaseIf (aquireLock : Bool) (slot : Slot) : TaskM Unit :=
  if aquireLock then tcSessionReleaseActionLock slot else return

/-- The rest of `tc_session_join` once `attempt_join` has refused. -/
def rerouteToDefault (slot : Slot) (priority : Priority) (generation : Int) (aquireLock : Bool) :
    TaskM Bool := do
  unless ← tcApiSendMessage slot messageTypeChat "Failed to join world." do
    tcServerKickSession slot
      (some "Failed to send message indicating that the player can't join the world.") (-1) false
    releaseIf aquireLock slot
    return false
  match (← get).config.joinRouter.defaultJoinable with
  | none => halt .badAccess
  | some defaultJoinable =>
    unless ← attemptJoin 1 slot priority generation do
      tcServerKickSession slot
        (some "Failed to reroute you to default/lobby after failing to join a world.") (-1) false
      releaseIf aquireLock slot
      return false
    setJoinable slot defaultJoinable
    releaseIf aquireLock slot
    return true

/-- `tc_session_join` with the session's lock held and a joinable found. -/
def joinFound (slot : Slot) (joinable : Nat) (priority : Priority) (generation : Int)
    (aquireLock : Bool) : TaskM Bool := do
  leaveCurrent slot
  unless ← attemptJoin 0 slot priority generation do
    return ← rerouteToDefault slot priority generation aquireLock
  setJoinable slot joinable
  releaseIf aquireLock slot
  return true

def tcSessionJoin (slot : Slot) (address : Option String) (priority : Priority) (generation : Int)
    (aquireLock : Bool) : TaskM Bool := do
  emit (.joining slot generation)
  match tcFindJoinable (← get).config.joinRouter address with
  | none => return true
  | some joinable =>
    if aquireLock then
      unless ← tcSessionAquireActionLock slot generation do return false
      joinFound slot joinable priority generation aquireLock
    else joinFound slot joinable priority generation aquireLock

/-- A task that a joinable has scheduled for a session. -/
def joinableTask (slot : Slot) (priority : Priority) (generation : Int) : TaskM Unit := do
  match (← ask).env.joinable with
  | .listen =>
    tcThreadScheduleNext (some .tcServerClientListenTask) (some .tcServerShutdownClientTask)
      (.session slot) priority generation
  | .next shutdown =>
    tcThreadScheduleNext (some .joinableTask) shutdown.func (.session slot) priority generation
  | .new newPriority =>
    let _ ← tcThreadScheduleNew .joinableTask (.session slot) newPriority generation
  | .kick msg => tcServerKickSession slot msg generation true
  | .join address => let _ ← tcSessionJoin slot address priority generation true
  | .nothing => return

end TC.Impl.Server
