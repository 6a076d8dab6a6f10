import TeleClassic.Framework.Proc
import TeleClassic.Impl.Server

/-!
# The tasks of sessions, lock by lock (`server.c`, `handler.c`, `joinable.c`, `api.c`)

Here the tasks of the server run at the same time, and another one may come
in between any two of their operations: a lock is taken or released, a
generation is read or advanced, an id is taken from or returned to `id_buffer`
(each with `server->lock`), a session is used, a task is scheduled. What the
operations of a task are is all of it that is kept: the contents of packets and
the fields they are checked against are left to the environment, which answers
a `Test` either way. An assertion that fails ends the process, and with it the
run.

`p_mutex_lock` waits for as long as the lock is held, also if the caller holds
it; `p_mutex_unlock` releases the lock, whoever holds it (a normal mutex of
POSIX threads, as `p_mutex_new` makes it, does not look). A task is scheduled by
starting a thread for it, whose first operation may come at any time: a task in
the queue is a thread that has not begun. A generation is an integer without
bound; a `pint` holds it in a run of fewer than `2 ^ 31` steps.

`Shared.live` and `Shared.trace` are ghosts: the ids that are handed out, and
what has happened.
-/

namespace TC.Impl.Tasks

open TC.Impl.Server (Slot maxSessions freeId_lt Func JoinRouter JoinableAction tcFindJoinable tcPacketHandlers)
open TC.Impl.Protocol (maxSupported)

/-! ## Operations -/

/-- What is sent to a client. -/
inductive Packet where
  | ping
  | extinfo
  | extentry
  | customBlockSupportLevel
  | serverIdentification
  | message
  | kick
  | mapData
deriving DecidableEq, Repr

/-- What a task looks at to decide how it goes on. -/
inductive Test where
  | pingIsDue
  | isGone
  | isComplete
  | hasSentExtinfo
  | hasSentExtentries
  | isUnknownExtension
  | isInvalidVersion
  | isLastExtentry
  | hasCustomBlocks
  | isIdentified
  | isOtherProtocol
  | isNotValidated
  | supportsCpe
  | hasPingProfiler
deriving DecidableEq, Repr

inductive Op where
  | pMutexLock (slot : Slot)
  | pMutexUnlock (slot : Slot)
  | currentGeneration (slot : Slot)
  | advanceGeneration (slot : Slot)
  | takeId
  | returnId (slot : Slot)
  | initialise (slot : Slot)
  | access (slot : Slot)
  | send (slot : Slot) (packet : Packet)
  | test (test : Test)
  | opcode
  | currentJoinable (slot : Slot)
  | setJoinable (slot : Slot) (joinable : Option Nat)
  | leave (slot : Slot) (joinable : Nat)
  | attemptJoin (slot : Slot) (joinable : Nat) (generation : Int)
  | handle (slot : Slot) (joinable : Nat)
  | joinable
  | tcThreadScheduleNext (task shutdownTask : Option Func) (slot : Slot) (generation : Int)
  | tcThreadScheduleNew (task : Func) (slot : Slot) (generation : Int)
  | crash
deriving DecidableEq

abbrev Ans : Op → Type
  | .currentGeneration _ => Int
  | .takeId => Option Slot
  | .send _ _ => Bool
  | .test _ => Bool
  | .opcode => { opcode : Int // (tcPacketHandlers opcode).isSome }
  | .currentJoinable _ => Option Nat
  | .attemptJoin _ _ _ => Option Nat
  | .handle _ _ => Bool
  | .joinable => JoinableAction
  | .tcThreadScheduleNew _ _ _ => Bool
  | .crash => Empty
  | _ => Unit

abbrev TaskM := Proc Op Ans

def op (o : Op) : TaskM (Ans o) := Proc.op o

def access (slot : Slot) : TaskM Unit := op (.access slot)

def send (slot : Slot) (packet : Packet) : TaskM Bool := op (.send slot packet)

def test (t : Test) : TaskM Bool := op (.test t)

def tcThreadScheduleNext (task shutdownTask : Option Func) (slot : Slot) (generation : Int) : TaskM Unit :=
  op (.tcThreadScheduleNext task shutdownTask slot generation)

def tcThreadScheduleNew (task : Func) (slot : Slot) (generation : Int) : TaskM Bool :=
  op (.tcThreadScheduleNew task slot generation)

/-! ## Sessions and their locks -/

def tcSessionAquireActionLock (slot : Slot) (expectedGeneration : Int) : TaskM Bool := do
  op (.pMutexLock slot)
  if (← op (.currentGeneration slot)) ≠ expectedGeneration then
    op (.pMutexUnlock slot)
    return false
  return true

def tcSessionReleaseActionLock (slot : Slot) : TaskM Unit := op (.pMutexUnlock slot)

/-- `leave`, if the session has a joinable; whether it had one. -/
def leaveCurrent (slot : Slot) : TaskM Bool := do
  match ← op (.currentJoinable slot) with
  | some joinable =>
    op (.leave slot joinable)
    return true
  | none => return false

/-- The joinable is left and forgotten. -/
def forgetJoinable (slot : Slot) : TaskM Unit := do
  if ← leaveCurrent slot then op (.setJoinable slot none) else return

def disconnectSession (slot : Slot) : TaskM Unit := do
  forgetJoinable slot
  -- the packet buffer, the socket and the ping profiler are freed; this is one access,
  -- so that a session which is disconnected twice shows as an access, not as a second free
  access slot
  op (.advanceGeneration slot)
  op (.returnId slot)

/-- The session is sent the message, if there is one, and disconnected. -/
def kick (slot : Slot) (hasMsg : Bool) : TaskM Unit := do
  if hasMsg then
    let _ ← send slot .kick
    disconnectSession slot
  else disconnectSession slot

def tcServerKickSession (slot : Slot) (hasMsg : Bool) (expectedGeneration : Int) (aquireLock : Bool) : TaskM Unit := do
  if aquireLock then
    unless ← tcSessionAquireActionLock slot expectedGeneration do return
    kick slot hasMsg
    tcSessionReleaseActionLock slot
  else kick slot hasMsg

/-- The session is kicked by a task that holds its lock, and the lock is
released. -/
def kickAndRelease (slot : Slot) : TaskM Unit := do
  tcServerKickSession slot true (-1) false
  tcSessionReleaseActionLock slot

def tcServerProtocolHandlerCleanup (slot : Slot) (nextTask : Option Func) (generation : Int) : TaskM Unit := do
  access slot
  if nextTask.isSome then
    tcThreadScheduleNext nextTask (some .tcServerShutdownClientTask) slot generation
  else return

/-- The end of a handler after which the client is listened to again. -/
def listenAndRelease (slot : Slot) (generation : Int) : TaskM Unit := do
  tcServerProtocolHandlerCleanup slot (some .tcServerClientListenTask) generation
  tcSessionReleaseActionLock slot

def tcServerShutdownClientTask (slot : Slot) (generation : Int) : TaskM Unit :=
  tcServerKickSession slot true generation true

/-! ## Joining -/

/-- The lock is released if the caller did not hold it. -/
def releaseIf (aquireLock : Bool) (slot : Slot) : TaskM Unit :=
  if aquireLock then tcSessionReleaseActionLock slot else return

/-- The session is kicked by `tc_session_join`. -/
def kickJoining (slot : Slot) (aquireLock : Bool) : TaskM Bool := do
  tcServerKickSession slot true (-1) false
  releaseIf aquireLock slot
  return false

/-- `session->current_joinable = joinable`, which `attempt_join` has let in. -/
def enter (slot : Slot) (joinable : Nat) (aquireLock : Bool) : TaskM Bool := do
  op (.setJoinable slot (some joinable))
  releaseIf aquireLock slot
  return true

/-- The rest of `tc_session_join` once `attempt_join` has refused. -/
def rerouteToDefault (router : JoinRouter) (slot : Slot) (generation : Int) (aquireLock : Bool) : TaskM Bool := do
  unless ← send slot .message do return ← kickJoining slot aquireLock
  match router.defaultJoinable with
  | none => .perform .crash Empty.elim
  | some defaultJoinable =>
    match ← op (.attemptJoin slot defaultJoinable generation) with
    | none => kickJoining slot aquireLock
    | some _ => enter slot defaultJoinable aquireLock

/-- `tc_session_join` with the session's lock held and a joinable found. What
`attempt_join` returns is only compared with `NULL`. -/
def joinFound (router : JoinRouter) (slot : Slot) (joinable : Nat) (generation : Int) (aquireLock : Bool) :
    TaskM Bool := do
  let _ ← leaveCurrent slot
  match ← op (.attemptJoin slot joinable generation) with
  | none => rerouteToDefault router slot generation aquireLock
  | some _ => enter slot joinable aquireLock

def tcSessionJoin (router : JoinRouter) (slot : Slot) (address : Option String) (generation : Int)
    (aquireLock : Bool) : TaskM Bool := do
  match tcFindJoinable router address with
  | none => return true
  | some joinable =>
    if aquireLock then
      unless ← tcSessionAquireActionLock slot generation do return false
      joinFound router slot joinable generation aquireLock
    else joinFound router slot joinable generation aquireLock

/-! ## Packet handlers -/

def finalizePlayerIdentification (router : JoinRouter) (slot : Slot) (generation : Int) : TaskM Unit := do
  unless ← send slot .serverIdentification do
    return ← tcServerKickSession slot true (-1) false
  tcServerProtocolHandlerCleanup slot none generation
  if ← tcSessionJoin router slot none generation false then
    tcSessionReleaseActionLock slot
  else
    tcServerKickSession slot true generation true
    tcSessionReleaseActionLock slot

/-- The end of a handler that ends the handshake. -/
def finalizeAndRelease (router : JoinRouter) (slot : Slot) (generation : Int) : TaskM Unit := do
  finalizePlayerIdentification router slot generation
  tcSessionReleaseActionLock slot

/-- The loop over `tc_supported_extensions`, until a packet cannot be sent. -/
def sendExtentries (slot : Slot) : Nat → TaskM Bool
  | 0 => return true
  | n + 1 => do
    unless ← send slot .extentry do return false
    sendExtentries slot n

def handleBeginCpeNegotiation (slot : Slot) (generation : Int) : TaskM Unit := do
  unless ← tcSessionAquireActionLock slot generation do return
  unless ← send slot .extinfo do return ← kickAndRelease slot
  unless ← sendExtentries slot maxSupported do return ← kickAndRelease slot
  listenAndRelease slot generation

def handleCpeExtinfo (slot : Slot) (generation : Int) : TaskM Unit := do
  unless ← tcSessionAquireActionLock slot generation do return
  if ← test .hasSentExtinfo then return ← kickAndRelease slot
  access slot
  listenAndRelease slot generation

/-- `handle_cpe_extentry` once the last declared entry has been counted. -/
def finishExtentries (router : JoinRouter) (slot : Slot) (generation : Int) : TaskM Unit := do
  if ← test .hasCustomBlocks then
    if ← send slot .customBlockSupportLevel then listenAndRelease slot generation
    else
      tcServerKickSession slot true (-1) false
      listenAndRelease slot generation
  else finalizeAndRelease router slot generation

def handleCpeExtentry (router : JoinRouter) (slot : Slot) (generation : Int) : TaskM Unit := do
  unless ← tcSessionAquireActionLock slot generation do return
  if ← test .hasSentExtentries then return ← kickAndRelease slot
  access slot
  if ← test .isUnknownExtension then return ← listenAndRelease slot generation
  if ← test .isInvalidVersion then return ← kickAndRelease slot
  if ← test .isLastExtentry then finishExtentries router slot generation
  else listenAndRelease slot generation

def handleCpeCustomBlockSupportLevel (router : JoinRouter) (slot : Slot) (generation : Int) : TaskM Unit := do
  unless ← tcSessionAquireActionLock slot generation do return
  access slot
  finalizeAndRelease router slot generation

def handlePlayerIdentification (router : JoinRouter) (slot : Slot) (generation : Int) : TaskM Unit := do
  unless ← tcSessionAquireActionLock slot generation do return
  if ← test .isIdentified then return ← kickAndRelease slot
  if ← test .isOtherProtocol then return ← kickAndRelease slot
  access slot
  if ← test .isNotValidated then return ← kickAndRelease slot
  access slot
  if ← test .supportsCpe then
    tcServerProtocolHandlerCleanup slot (some .handleBeginCpeNegotiation) generation
    tcSessionReleaseActionLock slot
  else finalizeAndRelease router slot generation

/-- `handle_player_set_block` and `handle_player_position_and_orientation_update`:
what the packet says is handed to the joinable. -/
def handToJoinable (slot : Slot) (generation : Int) : TaskM Unit := do
  unless ← tcSessionAquireActionLock slot generation do return
  access slot
  match ← op (.currentJoinable slot) with
  | none => kickAndRelease slot
  | some joinable =>
    if ← op (.handle slot joinable) then listenAndRelease slot generation
    else kickAndRelease slot

def handlePlayerSetBlock (slot : Slot) (generation : Int) : TaskM Unit := handToJoinable slot generation

def handlePlayerPositionAndOrientationUpdate (slot : Slot) (generation : Int) : TaskM Unit :=
  handToJoinable slot generation

/-! ## Listening -/

/-- `tc_server_client_listen_task` once the client was pinged if it was time to:
the client is gone or sent something invalid, its packet is complete, or
neither. -/
def receive (slot : Slot) (generation : Int) : TaskM Unit := do
  access slot
  if ← test .isGone then return ← kickAndRelease slot
  if ← test .isComplete then
    let opcode ← op .opcode
    tcThreadScheduleNext (tcPacketHandlers opcode.val) (some .tcServerShutdownClientTask) slot generation
    tcSessionReleaseActionLock slot
  else
    tcThreadScheduleNext (some .tcServerClientListenTask) (some .tcServerShutdownClientTask) slot generation
    tcSessionReleaseActionLock slot

def tcServerClientListenTask (slot : Slot) (generation : Int) : TaskM Unit := do
  unless ← tcSessionAquireActionLock slot generation do return
  if ← test .pingIsDue then
    if ← send slot .ping then receive slot generation
    else
      disconnectSession slot
      tcSessionReleaseActionLock slot
  else receive slot generation

/-- `handle_new_session` once the session is initialised. -/
def startListening (slot : Slot) (generation : Int) : TaskM Unit := do
  unless ← test .hasPingProfiler do return ← kickAndRelease slot
  if ← tcThreadScheduleNew .tcServerClientListenTask slot generation then
    tcSessionReleaseActionLock slot
  else
    tcServerKickSession slot true generation true
    tcSessionReleaseActionLock slot

def handleNewSession : TaskM Unit := do
  match ← op .takeId with
  -- the client is told that the server is busy
  | none => return
  | some slot =>
    let generation ← op (.currentGeneration slot)
    unless ← tcSessionAquireActionLock slot generation do return
    op (.initialise slot)
    startListening slot generation

/-! ## Joinables -/

/-- A task that a joinable has scheduled for a session. A joinable that kicks takes the
lock: a failure handler that kicks without it, as the one of the test rig in `main.c`
does, is not covered. -/
def joinableTask (router : JoinRouter) (slot : Slot) (generation : Int) : TaskM Unit := do
  match ← op .joinable with
  | .listen =>
    tcThreadScheduleNext (some .tcServerClientListenTask) (some .tcServerShutdownClientTask) slot generation
  | .next shutdown => tcThreadScheduleNext (some .joinableTask) shutdown.func slot generation
  | .new _ => let _ ← tcThreadScheduleNew .joinableTask slot generation
  | .kick msg => tcServerKickSession slot msg.isSome generation true
  | .join address => let _ ← tcSessionJoin router slot address generation true
  | .nothing => return

/-- The packets of a map, until one cannot be sent. -/
def sendMap (slot : Slot) : Nat → TaskM Bool
  | 0 => return true
  | n + 1 => do
    unless ← send slot .mapData do return false
    sendMap slot n

/-- `tc_send_map_task2` and the `tc_send_buffer_task`s after it, which keep the
lock: `numPackets` packets, then the handler of the joinable. -/
def tcSendMapTask2 (slot : Slot) (generation : Int) (numPackets : Nat) : TaskM Unit := do
  unless ← tcSessionAquireActionLock slot generation do return
  let _ ← sendMap slot numPackets
  tcSessionReleaseActionLock slot
  let _ ← tcThreadScheduleNew .joinableTask slot generation

/-! ## Threads -/

inductive Task where
  | handleNewSession
  | session (func : Func) (slot : Slot) (generation : Int)
  | tcSendMapTask2 (slot : Slot) (generation : Int) (numPackets : Nat)
  /-- `tc_server_kick_session` from elsewhere, with `aquire_lock`. -/
  | tcServerKickSession (slot : Slot) (generation : Int)
deriving DecidableEq, Repr

def program (router : JoinRouter) : Task → TaskM Unit
  | .handleNewSession => handleNewSession
  | .session func slot generation =>
    match func with
    | .listenerWorkerTask => return
    | .tcServerClientListenTask => tcServerClientListenTask slot generation
    | .tcServerShutdownClientTask => tcServerShutdownClientTask slot generation
    | .handleBeginCpeNegotiation => handleBeginCpeNegotiation slot generation
    | .handleCpeExtinfo => handleCpeExtinfo slot generation
    | .handleCpeExtentry => handleCpeExtentry router slot generation
    | .handleCpeCustomBlockSupportLevel => handleCpeCustomBlockSupportLevel router slot generation
    | .handlePlayerIdentification => handlePlayerIdentification router slot generation
    | .handlePlayerSetBlock => handlePlayerSetBlock slot generation
    | .handlePlayerPositionAndOrientationUpdate => handlePlayerPositionAndOrientationUpdate slot generation
    | .joinableTask => joinableTask router slot generation
  | .tcSendMapTask2 slot generation numPackets => tcSendMapTask2 slot generation numPackets
  | .tcServerKickSession slot generation => tcServerKickSession slot true generation true

inductive Event where
  | handedOut (slot : Slot)
  | opened (slot : Slot) (generation : Int)
  | accessed (slot : Slot)
  | sent (slot : Slot) (packet : Packet) (ok : Bool)
  | left (slot : Slot) (joinable : Nat)
  | attempted (slot : Slot) (joinable : Nat) (interface : Option Nat)
  | handled (slot : Slot) (joinable : Nat)
  | disconnected (slot : Slot) (generation : Int)
  | returned (slot : Slot)
deriving DecidableEq, Repr

/-- What the tasks share; a lock with the thread that holds it. -/
structure Shared where
  actionLock : Slot → Option Nat
  currentGeneration : Slot → Int
  currentJoinable : Slot → Option Nat
  idBuffer : Int → Slot
  idBufferHead : Int
  live : Slot → Bool
  trace : List Event

/-- How the environment answers. -/
structure Choice where
  yes : Bool := true
  opcode : Int := 0
  interface : Option Nat := none
  numPackets : Option Nat := none
  joinable : JoinableAction := .nothing
  stopped : Bool := false

def Shared.note (s : Shared) (e : Event) : Shared := { s with trace := s.trace ++ [e] }

/-- What a joinable that lets a session in schedules for it: a task of its own,
or that a map is sent. -/
def Choice.next (c : Choice) (slot : Slot) (generation : Int) : Task :=
  match c.numPackets with
  | some numPackets => .tcSendMapTask2 slot generation numPackets
  | none => .session .joinableTask slot generation

/-- What an operation does, and the tasks that it starts; `none` if it has to
wait. -/
def perform (thread : Nat) (op : Op) (c : Choice) (s : Shared) : Option (Ans op × Shared × List Task) :=
  match op with
  | .pMutexLock slot =>
    match s.actionLock slot with
    | some _ => none
    | none => some ((), { s with actionLock := Function.update s.actionLock slot (some thread) }, [])
  | .pMutexUnlock slot => some ((), { s with actionLock := Function.update s.actionLock slot none }, [])
  | .currentGeneration slot => some (s.currentGeneration slot, s, [])
  | .advanceGeneration slot =>
    some ((), { s with
      currentGeneration := Function.update s.currentGeneration slot (s.currentGeneration slot + 1) }.note
        (.disconnected slot (s.currentGeneration slot)), [])
  | .takeId =>
    if s.idBufferHead = maxSessions then some (none, s, [])
    else
      let slot := s.idBuffer s.idBufferHead
      some (some slot, { s with
        idBufferHead := s.idBufferHead + 1, live := Function.update s.live slot true }.note (.handedOut slot), [])
  | .returnId slot =>
    some ((), { s with
      idBufferHead := s.idBufferHead - 1
      idBuffer := Function.update s.idBuffer (s.idBufferHead - 1) slot
      live := Function.update s.live slot false }.note (.returned slot), [])
  | .initialise slot =>
    some ((), { s with currentJoinable := Function.update s.currentJoinable slot none }.note
      (.opened slot (s.currentGeneration slot)), [])
  | .access slot => some ((), s.note (.accessed slot), [])
  | .send slot packet => some (c.yes, s.note (.sent slot packet c.yes), [])
  | .test _ => some (c.yes, s, [])
  | .opcode => if h : (tcPacketHandlers c.opcode).isSome then some (⟨c.opcode, h⟩, s, []) else none
  | .currentJoinable slot => some (s.currentJoinable slot, s, [])
  | .setJoinable slot joinable =>
    some ((), { s with currentJoinable := Function.update s.currentJoinable slot joinable }, [])
  | .leave slot joinable => some ((), s.note (.left slot joinable), [])
  | .attemptJoin slot joinable generation =>
    some (c.interface, s.note (.attempted slot joinable c.interface),
      if c.interface.isSome then [c.next slot generation] else [])
  | .handle slot joinable => some (c.yes, s.note (.handled slot joinable), [])
  | .joinable => some (c.joinable, s, [])
  | .tcThreadScheduleNext task shutdownTask slot generation =>
    some ((), s, ((if c.stopped then shutdownTask else task).map (Task.session · slot generation)).toList)
  | .tcThreadScheduleNew task slot generation =>
    some (c.yes, s, if c.yes then [.session task slot generation] else [])
  | .crash => none

def semantics (router : JoinRouter) : Semantics Op Ans Shared Choice Task where
  program := program router
  perform := perform

abbrev System := Threads Op Ans Shared

/-- A client is accepted, a session that was opened is kicked from elsewhere,
or a thread goes on. -/
inductive Label where
  | accept
  | kick (slot : Slot) (generation : Int)
  | act (thread : Nat) (choice : Choice)

def step (router : JoinRouter) (s : System) : Label → Option System
  | .accept => some (s.start (semantics router) .handleNewSession)
  | .kick slot generation =>
    if .opened slot generation ∈ s.shared.trace then
      some (s.start (semantics router) (.tcServerKickSession slot generation))
    else none
  | .act thread c => s.act (semantics router) thread c

/-- After `tc_server_init`, in memory with any contents. -/
def init (currentJoinable : Slot → Option Nat) : System where
  shared :=
    { actionLock := fun _ => none
      currentGeneration := fun _ => 0
      currentJoinable
      idBuffer := fun i => ⟨i.toNat % maxSessions, freeId_lt i⟩
      idBufferHead := 0
      live := fun _ => false
      trace := [] }
  procs := []

end TC.Impl.Tasks
